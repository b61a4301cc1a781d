import DatasetCatalog.Proofs.Catalog.Gates

/-!
# Following lineage and skipping it

Skipping lineage strips the document and matches what is left. Following it walks over the embedded
ancestors, looks them up, passes two gates and builds a graph; but what it makes of the root is the
same, as long as the catalog has no product for it. Where there is no lineage the graph has one node,
both gates are open, and the two ways even fail alike.
-/

namespace DatasetCatalog

/-- What was resolved, however that was counted. -/
def DatasetGraph.withoutStats (g : DatasetGraph) : DatasetGraph := { g with stats := {} }

namespace LineageGraph

variable {layout : Layout} {d : Document}

/-- One node without sources. -/
def alone (id : Option Identity) (document : Document) : LineageGraph := ⟨[⟨id, document, []⟩]⟩

/-- Without lineage, the walk ends at the root. -/
theorem ofDocument?_of_lineage_eq_nil (h : layout.lineage d = .ok []) :
    ofDocument? layout d =
      match layout.identity d with
      | .error e => .error (.document e)
      | .ok id => .ok (alone id (layout.withoutLineage d)) := by
  rw [ofDocument?, walk]
  cases layout.identity d with
  | error e => rfl
  | ok id =>
      have hseen : seen? [] id = none := by cases id <;> rfl
      dsimp only
      rw [hseen]
      dsimp only
      split
      next hl => cases h.symm.trans hl
      next entries hl =>
        cases h.symm.trans hl
        rfl

theorem not_hasAncestor_alone (id : Option Identity) (document : Document) (ancestor : Identity) :
    ¬ (alone id document).HasAncestor ancestor := by
  rintro ⟨i, hpos, hlt, -⟩
  exact Nat.not_lt.mpr hpos hlt

end LineageGraph

namespace Resolver

variable {r : Resolver} {c : Catalog} {known : OrderedMap Identity Entry} {d : Document}
  {uri : String} {failOnMissing verify : Bool} {dg : DatasetGraph} {id : Option Identity}
  {document : Document}

/-- One dataset, classified by its document. -/
def matched (r : Resolver) (id : Option Identity) (document : Document) (uri : String) :
    Except ResolveError DatasetGraph :=
  match r.matcher.matchDocument document with
  | .error e => .error (.unmatched e)
  | .ok product => .ok (.single ⟨id, product, document, [uri], []⟩)

theorem resolveFlat_withoutStats (h : r.layout.identity d = .ok id) :
    (r.resolveFlat d uri).map DatasetGraph.withoutStats =
      r.matched id (r.layout.withoutLineage d) uri := by
  rw [resolveFlat, h, matched]
  dsimp only
  cases r.matcher.matchDocument (r.layout.withoutLineage d) <;> rfl

/-! ## The root of a graph -/

/-- A root that is not recorded has the product that matches the document. -/
theorem root_of_resolve
    (hroot : ∀ id, r.layout.identity d = .ok (some id) → c.get? id = .ok none)
    (h : { r with policy := .follow failOnMissing verify : Resolver }.resolve c d uri = .ok dg) :
    r.layout.identity d = .ok dg.rootDataset.id ∧
      dg.rootDataset.metadata = r.layout.withoutLineage d ∧ dg.rootDataset.uris = [uri] ∧
      r.matcher.matchDocument dg.rootDataset.metadata = .ok dg.rootDataset.product := by
  obtain ⟨-, g, known, order, hg, hknown, hfor⟩ := builtFor_root_of_resolve rfl h
  obtain ⟨hsize, hid, hdocument⟩ := LineageGraph.root_of_ofDocument? hg
  have hidentity : r.layout.identity d = .ok dg.rootDataset.id := by
    rw [hfor.id]
    exact hid
  refine ⟨hidentity, hfor.metadata.trans hdocument, hfor.uris, ?_⟩
  rcases hfor.classifies hknown hsize with ⟨id, entry, hsame, hentry, -⟩ | ⟨-, hproduct⟩
  · rw [hsame] at hidentity
    cases (hroot id hidentity).symm.trans hentry
  · exact hproduct

/-! ## Documents without lineage -/

theorem lineage_eq_nil {layout : Layout}
    (h : d.get? layout.sources = none ∨ d.get? layout.sources = some .null ∨
      d.get? layout.sources = some (.mapping [])) : layout.lineage d = .ok [] := by
  rcases h with h | h | h <;> simp [Layout.lineage, h, pure, Except.pure]

theorem ancestorsOf_alone (id : Option Identity) (document : Document) :
    ancestorsOf (.alone id document) = [] := by
  have hnodup : (LineageGraph.identities (LineageGraph.alone id document).nodes).Nodup := by
    cases id <;> simp [LineageGraph.alone, LineageGraph.identities]
  rw [List.eq_nil_iff_forall_not_mem]
  intro ancestor hancestor
  exact LineageGraph.not_hasAncestor_alone id document ancestor
    ((mem_ancestorsOf hnodup).mp hancestor)

theorem classify_of_unknown {n : LineageNode} {a : Assembly}
    (h : n.id.bind known.find? = none) :
    r.classify known n a =
      match r.matcher.matchDocument n.document with
      | .ok product => .ok (product, a.countMatched)
      | .error e => .error (.unmatched e) := by
  cases hmatch : r.matcher.matchDocument n.document <;> simp [classify, h, hmatch]

/-- A single node is placed at once. -/
theorem assemble_alone (stats : ResolutionStats) :
    r.assemble known (.alone id document) uri 1 0 ⟨[], stats⟩ =
      r.place known (.alone id document) uri 0 [] ⟨[], stats⟩ := by
  have hbuilt : (⟨[], stats⟩ : Assembly).built? ((LineageGraph.alone id document).node 0).id =
      none := by
    cases id <;> rfl
  rw [assemble, hbuilt]
  rfl

/-- Of a node of which nothing is known, the product is the one that matches. -/
theorem ungated_alone (hunknown : id.bind known.find? = none) :
    (r.ungated known (.alone id document) uri).map DatasetGraph.withoutStats =
      r.matched id document uri := by
  have hclassify : ∀ a, r.classify known ((LineageGraph.alone id document).node 0) a =
      match r.matcher.matchDocument document with
      | .ok product => .ok (product, a.countMatched)
      | .error e => .error (.unmatched e) :=
    fun _ => classify_of_unknown hunknown
  rw [ungated, show (LineageGraph.alone id document).size = 1 from rfl, assemble_alone, place,
    hclassify, matched]
  cases r.matcher.matchDocument document <;> rfl

/-- Nothing is known of what is not recorded, and asking for it cannot fail. -/
theorem exists_lookUp_alone (hroot : ∀ i, id = some i → c.get? i = .ok none) :
    ∃ known, lookUp c (LineageGraph.alone id document).byIdentity.keys = .ok known ∧
      id.bind known.find? = none := by
  have hmem : ∀ i, i ∈ (LineageGraph.alone id document).byIdentity.keys ↔ id = some i := by
    intro i
    rw [mem_keys_byIdentity]
    cases id <;> simp [LineageGraph.alone, LineageGraph.identities, eq_comm]
  obtain ⟨known, hknown⟩ :
      ∃ known, c.bulkGet (LineageGraph.alone id document).byIdentity.keys = .ok known :=
    Catalog.exists_bulkGet fun i hi => ⟨none, hroot i ((hmem i).mp hi)⟩
  have hlookUp := lookUp_of_bulkGet hknown
  refine ⟨known, hlookUp, ?_⟩
  cases id with
  | none => rfl
  | some i =>
      have hget := get?_of_lookUp hlookUp ((hmem i).mpr rfl)
      exact (Except.ok.inj ((hroot i rfl).symm.trans hget)).symm

/-- With nothing to walk over, the graph of the document is the document. -/
theorem resolve_withoutStats_of_lineage_eq_nil (hlineage : r.layout.lineage d = .ok [])
    (hid : r.layout.identity d = .ok id) (hroot : ∀ i, id = some i → c.get? i = .ok none) :
    ({ r with policy := .follow failOnMissing verify : Resolver }.resolve c d uri).map
        DatasetGraph.withoutStats = r.matched id (r.layout.withoutLineage d) uri := by
  have hg := LineageGraph.ofDocument?_of_lineage_eq_nil hlineage
  rw [hid] at hg
  obtain ⟨known, hknown, hunknown⟩ := exists_lookUp_alone hroot
  rw [resolve_eq_gated hg hknown, missingFrom, ancestorsOf_alone, ← ungated_alone hunknown]
  cases failOnMissing <;> cases verify <;> rfl

/-- An identity that cannot be read is the same failure with lineage and without. -/
theorem resolve_eq_error_of_identity {e : DocumentError} (hid : r.layout.identity d = .error e) :
    r.resolve c d uri = .error (.lineage (.document e)) := by
  rw [resolve]
  split
  next => rw [resolveFlat, hid]
  next =>
    have hwalk : LineageGraph.ofDocument? r.layout d = .error (.document e) := by
      rw [LineageGraph.ofDocument?, LineageGraph.walk, hid]
      rfl
    rw [hwalk]

/-- Skipping lineage gives the root that following it gives, unless the catalog has a product for it;
and where there is no lineage to follow, the two give the same outcome. -/
theorem strategies_agree_on_root (r : Resolver) (c : Catalog) (d : Document) (uri : String)
    (failOnMissing verify : Bool)
    (hroot : ∀ id, r.layout.identity d = .ok (some id) → c.get? id = .ok none) :
    (∀ dg, { r with policy := .follow failOnMissing verify : Resolver }.resolve c d uri = .ok dg →
      ∃ flat, { r with policy := .skip : Resolver }.resolve c d uri = .ok flat ∧
        flat.nodes = [{ dg.rootDataset with sources := [] }] ∧ flat.root = 0) ∧
    (d.get? r.layout.sources = none ∨ d.get? r.layout.sources = some .null ∨
        d.get? r.layout.sources = some (.mapping []) →
      ({ r with policy := .follow failOnMissing verify : Resolver }.resolve c d uri).map
          DatasetGraph.withoutStats =
        ({ r with policy := .skip : Resolver }.resolve c d uri).map DatasetGraph.withoutStats) := by
  constructor
  · intro dg h
    obtain ⟨hid, hmetadata, huris, hproduct⟩ := root_of_resolve hroot h
    have hflat : (r.resolveFlat d uri).map DatasetGraph.withoutStats =
        .ok (.single dg.rootDataset) := by
      rw [resolveFlat_withoutStats hid, ← hmetadata, matched, hproduct, ← huris]
      rfl
    obtain ⟨flat, hresolve, hsame⟩ := map_eq_ok.mp hflat
    exact ⟨flat, hresolve, congrArg DatasetGraph.nodes hsame, congrArg DatasetGraph.root hsame⟩
  · intro h
    cases hid : r.layout.identity d with
    | ok id =>
        have hunrecorded : ∀ i, id = some i → c.get? i = .ok none :=
          fun i hi => hroot i (hi ▸ hid)
        rw [resolve_withoutStats_of_lineage_eq_nil (lineage_eq_nil h) hid hunrecorded]
        exact (resolveFlat_withoutStats hid).symm
    | error e =>
        rw [resolve_eq_error_of_identity (r := { r with policy := .skip }) hid,
          resolve_eq_error_of_identity (r := { r with policy := .follow failOnMissing verify }) hid]

section Survey

/-- An identity that is no text, and a lineage field that holds nothing. -/
def illegibleSurvey : Document := .ofFields [("id", .boolean true), ("sources", .null)]

/-- Skipping the lineage of the survey leaves its root, and of the illegible one both strategies
refuse the identity. -/
theorem survey_strategies_agree :
    { surveyResolver with policy := .follow false true : Resolver }.resolve surveyCatalog
        identifiedSurvey "survey" = .ok identifiedGraph ∧
      (∃ flat, { surveyResolver with policy := .skip : Resolver }.resolve surveyCatalog
          identifiedSurvey "survey" = .ok flat ∧
        flat.nodes = [{ identifiedGraph.rootDataset with sources := [] }]) ∧
      ({ surveyResolver with policy := .follow true true : Resolver }.resolve surveyCatalog
          illegibleSurvey "survey").map DatasetGraph.withoutStats =
        ({ surveyResolver with policy := .skip : Resolver }.resolve surveyCatalog
          illegibleSurvey "survey").map DatasetGraph.withoutStats := by
  have hresolve : { surveyResolver with policy := .follow false true : Resolver }.resolve
      surveyCatalog identifiedSurvey "survey" = .ok identifiedGraph := by
    rfl
  have hunrecorded : ∀ id, surveyResolver.layout.identity identifiedSurvey = .ok (some id) →
      surveyCatalog.get? id = .ok none := by
    intro id hid
    have hfirst : surveyResolver.layout.identity identifiedSurvey =
        .ok (some LineageGraph.firstId) := by
      rfl
    cases hfirst.symm.trans hid
    rfl
  have hillegible : ∀ id, surveyResolver.layout.identity illegibleSurvey = .ok (some id) →
      surveyCatalog.get? id = .ok none := by
    intro id hid
    cases hid
  obtain ⟨flat, hflat, hnodes, -⟩ := (strategies_agree_on_root surveyResolver surveyCatalog
    identifiedSurvey "survey" false true hunrecorded).1 identifiedGraph hresolve
  exact ⟨hresolve, ⟨flat, hflat, hnodes⟩, (strategies_agree_on_root surveyResolver surveyCatalog
    illegibleSurvey "survey" true true hillegible).2 (.inr (.inl rfl))⟩

end Survey

end Resolver

end DatasetCatalog
