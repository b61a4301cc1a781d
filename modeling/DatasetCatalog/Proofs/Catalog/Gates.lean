import DatasetCatalog.Proofs.Catalog.Reverification

/-!
# The gates in front of a resolution

A policy that follows lineage has two flags, and neither has a part in building the graph: one
refuses ancestors that are not recorded, the other those that differ from their records, and behind
both of them the same assembly runs. The lists that they refuse by are computed from the lineage
graph and are complete.
-/

namespace DatasetCatalog

/-- A node other than the root has this identity. -/
def LineageGraph.HasAncestor (g : LineageGraph) (id : Identity) : Prop :=
  ∃ i, 0 < i ∧ i < g.size ∧ (g.node i).id = some id

namespace Resolver

/-- These are the ancestors that are not recorded, in ascending order. -/
structure ListsMissing (c : Catalog) (g : LineageGraph) (ids : List Identity) : Prop where
  ascending : ids.Pairwise fun a b => compare a b = .lt
  mem_iff : ∀ id, id ∈ ids ↔ g.HasAncestor id ∧ c.datasets.contains id = false

/-- These are the recorded ancestors whose documents differ from their records, in ascending order,
each with all the differences. -/
structure ListsInconsistent (c : Catalog) (g : LineageGraph) (reports : List Inconsistency) :
    Prop where
  ascending : reports.Pairwise fun a b => compare a.id b.id = .lt
  mem_iff : ∀ report, report ∈ reports ↔ ∃ i stored, 0 < i ∧ i < g.size ∧
    (g.node i).id = some report.id ∧ c.datasets.find? report.id = some stored ∧
    report.differences = (g.node i).document.changes stored.metadata ∧ report.differences ≠ []

variable {r : Resolver} {c : Catalog} {g : LineageGraph} {known : OrderedMap Identity Entry}
  {d : Document} {uri : String} {failOnMissing verify : Bool}

/-! ## Ancestors -/

theorem ascending_ancestorsOf (g : LineageGraph) :
    (ancestorsOf g).Pairwise fun a b => compare a b = .lt :=
  ((OrderedMap.Entries.sorted_iff_keys _).mp g.byIdentity.sorted).filter _

theorem mem_ancestorsOf (hnodup : (LineageGraph.identities g.nodes).Nodup) {id : Identity} :
    id ∈ ancestorsOf g ↔ g.HasAncestor id := by
  rw [ancestorsOf, List.mem_filter, mem_keys_iff_node, decide_eq_true_eq]
  constructor
  · rintro ⟨⟨i, hi, hid⟩, hroot⟩
    refine ⟨i, Nat.pos_of_ne_zero ?_, hi, hid⟩
    rintro rfl
    exact hroot hid
  · rintro ⟨i, hpos, hi, hid⟩
    refine ⟨⟨i, hi, hid⟩, ?_⟩
    intro hroot
    have hsame := LineageGraph.carries_unique hnodup (LineageGraph.carries_iff.mpr ⟨hi, hid⟩)
      (LineageGraph.carries_iff.mpr ⟨Nat.zero_lt_of_lt hi, hroot⟩)
    exact hpos.ne' hsame

theorem mem_keys_of_hasAncestor {id : Identity} (h : g.HasAncestor id) :
    id ∈ g.byIdentity.keys := by
  obtain ⟨i, -, hi, hid⟩ := h
  exact mem_keys_iff_node.mpr ⟨i, hi, hid⟩

theorem exists_document? {i : Nat} {id : Identity} (hi : i < g.size)
    (hid : (g.node i).id = some id) : ∃ document, g.document? id = some document := by
  obtain ⟨n, hn, hnid⟩ := LineageGraph.carries_iff.mpr ⟨hi, hid⟩
  rw [LineageGraph.document?, ← Option.isSome_iff_exists, Option.isSome_map, List.find?_isSome]
  exact ⟨n, List.mem_of_getElem? hn, by rw [hnid, beq_self_eq_true]⟩

/-! ## What the catalog knows of them -/

theorem lookUp_of_bulkGet {ids : List Identity} (h : c.bulkGet ids = .ok known) :
    lookUp c ids = .ok known := by
  rw [lookUp, h]
  split
  next hempty =>
    rw [List.isEmpty_iff.mp hempty] at h
    cases h
    rfl
  next => rfl

theorem contains_of_lookUp {ids : List Identity} (h : lookUp c ids = .ok known) {id : Identity}
    (hid : id ∈ ids) : known.contains id = c.datasets.contains id :=
  Catalog.isSome_of_get? (get?_of_lookUp h hid)

/-- What is known of an identity is its record with a product. -/
theorem find?_lookUp_eq_some {ids : List Identity} (h : lookUp c ids = .ok known) {id : Identity}
    (hid : id ∈ ids) {entry : Entry} (hentry : known.find? id = some entry) :
    ∃ stored, c.datasets.find? id = some stored ∧ entry.metadata = stored.metadata := by
  obtain ⟨stored, hstored, hjoined⟩ := Catalog.get?_eq_some (hentry ▸ get?_of_lookUp h hid)
  obtain ⟨_, -, rfl⟩ := Catalog.entry_eq_ok hjoined
  exact ⟨stored, hstored, rfl⟩

theorem exists_find?_lookUp {ids : List Identity} (h : lookUp c ids = .ok known) {id : Identity}
    (hid : id ∈ ids) {stored : StoredDataset} (hstored : c.datasets.find? id = some stored) :
    ∃ entry, known.find? id = some entry ∧ entry.metadata = stored.metadata := by
  have hcontains := contains_of_lookUp h hid
  rw [OrderedMap.contains_iff.mpr ⟨stored, hstored⟩] at hcontains
  obtain ⟨entry, hentry⟩ := OrderedMap.contains_iff.mp hcontains
  obtain ⟨stored', hstored', hmetadata⟩ := find?_lookUp_eq_some h hid hentry
  cases hstored.symm.trans hstored'
  exact ⟨entry, hentry, hmetadata⟩

/-- The ancestors of which nothing is known. -/
def missingFrom (known : OrderedMap Identity Entry) (g : LineageGraph) : List Identity :=
  (ancestorsOf g).filter fun id => !known.contains id

theorem listsMissing (hnodup : (LineageGraph.identities g.nodes).Nodup)
    (hknown : lookUp c g.byIdentity.keys = .ok known) :
    ListsMissing c g (missingFrom known g) := by
  refine ⟨(ascending_ancestorsOf g).filter _, fun id => ?_⟩
  rw [missingFrom, List.mem_filter, mem_ancestorsOf hnodup, Bool.not_eq_true']
  refine and_congr_right fun hancestor => ?_
  rw [contains_of_lookUp hknown (mem_keys_of_hasAncestor hancestor)]

/-- A report is made of a known ancestor with a document of its own. -/
theorem mem_inconsistencies {ids : List Identity} {report : Inconsistency} :
    report ∈ inconsistencies known g ids ↔ ∃ entry document, report.id ∈ ids ∧
      known.find? report.id = some entry ∧ g.document? report.id = some document ∧
      report.differences = document.changes entry.metadata ∧ report.differences ≠ [] := by
  rw [inconsistencies, List.mem_filterMap]
  constructor
  · rintro ⟨id, hid, hreport⟩
    obtain ⟨entry, hentry, hreport⟩ := Option.bind_eq_some_iff.mp hreport
    obtain ⟨document, hdocument, hreport⟩ := Option.bind_eq_some_iff.mp hreport
    dsimp only at hreport
    split at hreport
    next => cases hreport
    next hsome =>
      cases hreport
      exact ⟨entry, document, hid, hentry, hdocument, rfl, fun h => hsome (List.isEmpty_iff.mpr h)⟩
  · rintro ⟨entry, document, hid, hentry, hdocument, hdifferences, hsome⟩
    refine ⟨report.id, hid, Option.bind_eq_some_iff.mpr ⟨entry, hentry,
      Option.bind_eq_some_iff.mpr ⟨document, hdocument, ?_⟩⟩⟩
    dsimp only
    rw [← hdifferences, if_neg fun h => hsome (List.isEmpty_iff.mp h)]

theorem ascending_inconsistencies {ids : List Identity}
    (h : ids.Pairwise fun a b => compare a b = .lt) :
    (inconsistencies known g ids).Pairwise fun a b => compare a.id b.id = .lt := by
  have hid : ∀ {ids : List Identity} {report : Inconsistency},
      report ∈ inconsistencies known g ids → report.id ∈ ids := by
    intro ids report hmem
    obtain ⟨_, _, hid, -⟩ := mem_inconsistencies.mp hmem
    exact hid
  induction h with
  | nil => exact .nil
  | @cons id ids hfirst _ ih =>
      rw [inconsistencies, List.filterMap_cons]
      split
      next => exact ih
      next report hreport =>
        have hmem : report ∈ inconsistencies known g [id] :=
          List.mem_filterMap.mpr ⟨id, List.mem_singleton_self id, hreport⟩
        refine .cons (fun other hother => ?_) ih
        rw [List.mem_singleton.mp (hid hmem)]
        exact hfirst other.id (hid hother)

theorem listsInconsistent (hnodup : (LineageGraph.identities g.nodes).Nodup)
    (hknown : lookUp c g.byIdentity.keys = .ok known) :
    ListsInconsistent c g (inconsistencies known g (ancestorsOf g)) := by
  refine ⟨ascending_inconsistencies (ascending_ancestorsOf g), fun report => ?_⟩
  rw [mem_inconsistencies, mem_ancestorsOf hnodup]
  constructor
  · rintro ⟨entry, document, ⟨i, hpos, hi, hid⟩, hentry, hdocument, hdifferences, hsome⟩
    obtain ⟨stored, hstored, hmetadata⟩ :=
      find?_lookUp_eq_some hknown (mem_keys_iff_node.mpr ⟨i, hi, hid⟩) hentry
    rw [document?_eq_node hnodup hi hid hdocument, hmetadata] at hdifferences
    exact ⟨i, stored, hpos, hi, hid, hstored, hdifferences, hsome⟩
  · rintro ⟨i, stored, hpos, hi, hid, hstored, hdifferences, hsome⟩
    obtain ⟨entry, hentry, hmetadata⟩ :=
      exists_find?_lookUp hknown (mem_keys_iff_node.mpr ⟨i, hi, hid⟩) hstored
    obtain ⟨document, hdocument⟩ := exists_document? hi hid
    rw [← document?_eq_node hnodup hi hid hdocument, ← hmetadata] at hdifferences
    exact ⟨entry, document, ⟨i, hpos, hi, hid⟩, hentry, hdocument, hdifferences, hsome⟩

/-! ## Behind the gates -/

/-- The graph that is built when neither gate is closed. -/
def ungated (r : Resolver) (known : OrderedMap Identity Entry) (g : LineageGraph) (uri : String) :
    Except ResolveError DatasetGraph := do
  let (root, built) ← r.assemble known g uri g.size 0
    ⟨[], { lookups := if g.byIdentity.keys.isEmpty then 0 else 1
           missing := (missingFrom known g).length }⟩
  .ok ⟨built.nodes, root, built.stats⟩

theorem ungated_outcome (r : Resolver) (known : OrderedMap Identity Entry) (g : LineageGraph)
    (uri : String) :
    (∃ dg, r.ungated known g uri = .ok dg) ∨
      ∃ cause, r.ungated known g uri = .error (.unmatched cause) := by
  cases h : r.ungated known g uri with
  | ok dg => exact .inl ⟨dg, rfl⟩
  | error e =>
      rcases bind_eq_error.mp h with hassemble | ⟨_, -, ⟨⟩⟩
      obtain ⟨cause, rfl⟩ := assemble_eq_error hassemble
      exact .inr ⟨cause, rfl⟩

theorem ungated_policy (r : Resolver) (policy : LineagePolicy) :
    { r with policy : Resolver }.ungated known g uri = r.ungated known g uri := by
  have hsame : ∀ n a, { r with policy : Resolver }.classify known n a = r.classify known n a :=
    fun _ _ => rfl
  rw [ungated, ungated, assemble_congr hsame]

/-- A list that is not empty closes its gate if the flag is set, the gate for missing ancestors
first. -/
def gated (failOnMissing verify : Bool) (missing : List Identity) (reports : List Inconsistency)
    (outcome : Except ResolveError DatasetGraph) : Except ResolveError DatasetGraph :=
  if failOnMissing && !missing.isEmpty then .error (.missing missing)
  else if verify && !reports.isEmpty then .error (.inconsistent reports)
  else outcome

theorem resolveGraph_eq_gated (hknown : lookUp c g.byIdentity.keys = .ok known) :
    r.resolveGraph c g uri failOnMissing verify = gated failOnMissing verify (missingFrom known g)
      (inconsistencies known g (ancestorsOf g)) (r.ungated known g uri) := by
  rw [resolveGraph, hknown]
  cases verify <;> rfl

theorem resolve_eq_gated (hg : LineageGraph.ofDocument? r.layout d = .ok g)
    (hknown : lookUp c g.byIdentity.keys = .ok known) :
    { r with policy := .follow failOnMissing verify : Resolver }.resolve c d uri =
      gated failOnMissing verify (missingFrom known g) (inconsistencies known g (ancestorsOf g))
        (r.ungated known g uri) := by
  have hsame : LineageGraph.ofDocument?
      (layout { r with policy := .follow failOnMissing verify }) d = .ok g := hg
  rw [resolve]
  dsimp only
  rw [hsame]
  dsimp only
  rw [resolveGraph_eq_gated hknown, ungated_policy]

/-- The flags of the policy decide what is refused before the graph is built, by complete lists, and
nothing about the graph. -/
theorem resolve_gated (hg : LineageGraph.ofDocument? r.layout d = .ok g)
    (hknown : c.bulkGet g.byIdentity.keys = .ok known) (uri : String) :
    ∃ missing reports outcome, ListsMissing c g missing ∧ ListsInconsistent c g reports ∧
      ((∃ dg, outcome = .ok dg) ∨ ∃ cause, outcome = .error (.unmatched cause)) ∧
      ∀ failOnMissing verify : Bool,
        { r with policy := .follow failOnMissing verify : Resolver }.resolve c d uri =
          if failOnMissing && !missing.isEmpty then .error (.missing missing)
          else if verify && !reports.isEmpty then .error (.inconsistent reports)
          else outcome := by
  have hnodup := LineageGraph.nodup_identities_of_ofDocument? hg
  have hlookUp := lookUp_of_bulkGet hknown
  refine ⟨missingFrom known g, inconsistencies known g (ancestorsOf g), r.ungated known g uri,
    listsMissing hnodup hlookUp, listsInconsistent hnodup hlookUp, r.ungated_outcome known g uri,
    fun _ _ => resolve_eq_gated hg hlookUp⟩

section ContestedLineage

/-- The recorded ancestor with a field that its record does not have. -/
def annotatedAncestor : Document := .ofFields
  [("id", .text (String.ofList (List.replicate 32 '2'))), ("note", .text "dry")]

def contestedSurvey : Document := .ofFields (LineageGraph.fieldsOf '1'
  [("soil", annotatedAncestor.value), ("moss", .mapping (LineageGraph.fieldsOf '3' []))])

def mossId : Identity := ⟨0x33333333333333333333333333333333⟩

def contestedGraph : LineageGraph where
  nodes := [⟨some LineageGraph.firstId, surveyResolver.layout.withoutLineage contestedSurvey,
      [("soil", 1), ("moss", 2)]⟩,
    ⟨some ancestorId, annotatedAncestor, []⟩,
    ⟨some mossId, surveyResolver.layout.withoutLineage (.ofFields (LineageGraph.fieldsOf '3' [])),
      []⟩]

/-- One ancestor is missing and another one differs from its record: each is refused by its own
flag. -/
theorem contestedSurvey_gated :
    LineageGraph.ofDocument? surveyResolver.layout contestedSurvey = .ok contestedGraph ∧
      ∃ known missing reports, surveyCatalog.bulkGet contestedGraph.byIdentity.keys = .ok known ∧
        mossId ∈ missing ∧ (∃ report ∈ reports, report.id = ancestorId) ∧
        (∀ verify, { surveyResolver with policy := .follow true verify : Resolver }.resolve
          surveyCatalog contestedSurvey "survey" = .error (.missing missing)) ∧
        { surveyResolver with policy := .follow false true : Resolver }.resolve surveyCatalog
          contestedSurvey "survey" = .error (.inconsistent reports) := by
  have hg : LineageGraph.ofDocument? surveyResolver.layout contestedSurvey =
      .ok contestedGraph := by
    rfl
  obtain ⟨known, hknown⟩ : ∃ known, surveyCatalog.bulkGet contestedGraph.byIdentity.keys =
      .ok known := ⟨_, rfl⟩
  obtain ⟨missing, reports, outcome, hmissing, hreports, -, hgated⟩ :=
    resolve_gated hg hknown "survey"
  have hmoss : mossId ∈ missing :=
    (hmissing.mem_iff mossId).mpr ⟨⟨2, by decide, by decide, rfl⟩, rfl⟩
  have hancestor : (⟨ancestorId, annotatedAncestor.changes ancestor⟩ : Inconsistency) ∈ reports :=
    (hreports.mem_iff _).mpr ⟨1, _, by decide, by decide, rfl, rfl, rfl, by decide⟩
  refine ⟨hg, known, missing, reports, hknown, hmoss, ⟨_, hancestor, rfl⟩, ?_, ?_⟩
  · intro verify
    rw [hgated, List.isEmpty_eq_false_iff.mpr (List.ne_nil_of_mem hmoss)]
    rfl
  · rw [hgated, List.isEmpty_eq_false_iff.mpr (List.ne_nil_of_mem hancestor)]
    rfl

end ContestedLineage

end Resolver

end DatasetCatalog
