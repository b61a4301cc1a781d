import DatasetCatalog.Proofs.Catalog.Gates
import DatasetCatalog.Proofs.Catalog.InPlace

/-!
# Adding a graph on its own

Adding a graph without its lineage expects every source to be recorded. Resolving with the flag for
missing ancestors expects it too, but looks at identities of the lineage graph where the catalog
looks at datasets, one after the other. The two let the same documents through.
-/

namespace DatasetCatalog

namespace Catalog

variable {c c' : Catalog} {g : DatasetGraph} {root : Identity} {now : Timestamp}

theorem pending_source {d : Dataset} {id : Identity} {k : Nat} (hid : d.id = some id)
    (hk : k ≠ g.root) : c.pending g false now root d k =
      if c.datasets.contains id = true then .ok none else .error (.sourceNotIndexed id) := by
  rw [pending, hid]
  simp [hk]

theorem pending_root {d : Dataset} {id : Identity} {p : Product} (hid : d.id = some id)
    (hp : c.product? d.product.name = some p) :
    c.pending g false now root d g.root = .ok (some (record g d id now)) := by
  rw [pending, hid]
  simp [hp]

/-- Without lineage a source has to be recorded and gets no record. -/
theorem pending_source_eq_ok {d : Dataset} {k : Nat} {pending : Option StoredDataset}
    (hk : k ≠ g.root) (h : c.pending g false now root d k = .ok pending) :
    pending = none ∧ ∃ id, d.id = some id ∧ c.datasets.contains id = true := by
  obtain ⟨id, hid, -⟩ := pending_eq_ok h
  rw [pending_source hid hk] at h
  split at h
  next hrecorded =>
    cases h
    exact ⟨rfl, id, hid, hrecorded⟩
  next => cases h

/-- A graph is added without its lineage only if everything but the root is recorded. -/
theorem recorded_of_add_alone (h : c.add g false now = .ok c') {k : Nat} (hk : k < g.size)
    (hsource : k ≠ g.root) {id : Identity} (hid : (g.node k).id = some id) :
    c.datasets.contains id = true := by
  obtain ⟨root, records, -, -, hrecords, -⟩ := add_eq_ok h
  obtain ⟨pending, -, hpending⟩ := exists_of_mem_left hrecords
    (List.mk_mem_zipIdx_iff_getElem?.mpr (DatasetGraph.getElem?_node hk))
  obtain ⟨-, id', hid', hrecorded⟩ := pending_source_eq_ok hsource hpending
  cases hid.symm.trans hid'
  exact hrecorded

/-- It is refused because of a source that is not recorded. -/
theorem add_alone_eq_error (hroot : g.rootDataset.id = some root)
    (hidentified : ∀ d ∈ g.nodes, d.id ≠ none) (hnew : c.datasets.contains root = false)
    (hregistered : c.product? g.rootDataset.product.name ≠ none) {e : CatalogError}
    (h : c.add g false now = .error e) :
    ∃ k id, k < g.size ∧ k ≠ g.root ∧ (g.node k).id = some id ∧
      c.datasets.contains id = false ∧ e = .sourceNotIndexed id := by
  rw [add, hroot] at h
  dsimp only at h
  rw [hnew, if_neg Bool.false_ne_true] at h
  rcases bind_eq_error.mp h with hrecords | ⟨_, -, ⟨⟩⟩
  obtain ⟨⟨d, k⟩, hmem, hpending⟩ := exists_of_mapM_eq_error hrecords
  have hd : g.nodes[k]? = some d := List.mk_mem_zipIdx_iff_getElem?.mp hmem
  have hk : k < g.size := (List.getElem?_eq_some_iff.mp hd).1
  cases (DatasetGraph.getElem?_node hk).symm.trans hd
  by_cases hsource : k = g.root
  · obtain ⟨p, hp⟩ := Option.ne_none_iff_exists'.mp hregistered
    dsimp only at hpending
    rw [hsource] at hpending
    cases (pending_root hroot hp).symm.trans hpending
  · obtain ⟨id, hid⟩ := Option.ne_none_iff_exists'.mp (hidentified _ (List.mem_of_getElem? hd))
    rw [pending_source hid hsource] at hpending
    split at hpending
    next => cases hpending
    next habsent =>
      cases hpending
      exact ⟨k, id, hk, hsource, hid, Bool.eq_false_iff.mpr habsent, rfl⟩

theorem nodes_eq_concat_root (hlast : g.root + 1 = g.size) :
    ∃ sources, g.nodes = sources ++ [g.rootDataset] ∧ sources.length = g.root := by
  have hlt : g.root < g.nodes.length := Nat.lt_of_succ_le (Nat.le_of_eq hlast)
  have hroot := DatasetGraph.getElem?_node hlt
  rw [List.getElem?_eq_getElem hlt] at hroot
  have hdrop := List.drop_eq_getElem_cons hlt
  rw [Option.some.inj hroot, List.drop_of_length_le (Nat.le_of_eq hlast.symm)] at hdrop
  refine ⟨g.nodes.take g.root, ?_, List.length_take_of_le hlt.le⟩
  rw [DatasetGraph.rootDataset, ← hdrop, List.take_append_drop]

/-- Added without its lineage, a graph that ends with its root leaves one more record. -/
theorem add_alone_eq_ok (hlast : g.root + 1 = g.size) (hroot : g.rootDataset.id = some root)
    (h : c.add g false now = .ok c') : c' = c.insert (record g g.rootDataset root now) := by
  obtain ⟨_, pendings, hroot', hnew, hpendings, rfl⟩ := add_eq_ok h
  cases hroot.symm.trans hroot'
  obtain ⟨sources, hnodes, hlength⟩ := nodes_eq_concat_root hlast
  have hzip : g.nodes.zipIdx = sources.zipIdx ++ [(g.rootDataset, g.root)] := by
    rw [hnodes, List.zipIdx_append, Nat.zero_add, hlength]
    rfl
  rw [hzip] at hpendings
  have hsources := List.forall₂_take_append _ _ _ hpendings.flip
  have hrest := List.forall₂_drop_append _ _ _ hpendings.flip
  obtain ⟨last, _, hrecord, hnil, hdrop⟩ := List.forall₂_cons_right_iff.mp hrest
  cases List.forall₂_nil_right_iff.mp hnil
  -- Nothing is recorded for a source, so the root's record is the only one.
  have hnone : (pendings.take sources.zipIdx.length).filterMap (fun r => r) = [] := by
    rw [List.filterMap_eq_nil_iff]
    intro pending hmem
    obtain ⟨⟨d, k⟩, hk, hpending⟩ := exists_of_mem_left hsources hmem
    have hlt := (List.getElem?_eq_some_iff.mp (List.mk_mem_zipIdx_iff_getElem?.mp hk)).1
    have hsource : k ≠ g.root := by omega
    exact (pending_source_eq_ok hsource hpending).1
  obtain ⟨id, hid, ⟨-, hrecorded⟩ | ⟨rfl, -⟩⟩ := pending_eq_ok hrecord
  · cases hroot.symm.trans hid
    cases hnew.symm.trans hrecorded
  · cases hroot.symm.trans hid
    rw [← List.take_append_drop sources.zipIdx.length pendings, List.filterMap_append, hnone, hdrop]
    rfl

end Catalog

namespace Resolver

variable {r : Resolver} {c c' : Catalog} {g : LineageGraph} {d : Document} {uri : String}
  {dg : DatasetGraph} {known : OrderedMap Identity Entry} {failOnMissing verify : Bool}

/-- The sources of a dataset graph have the identities of the ancestors. -/
theorem hasAncestor_iff_source {number : Nat → Nat} (h : dg.Renumbers g number)
    (hroot : dg.root < dg.size) {id : Identity} :
    g.HasAncestor id ↔ ∃ k, k < dg.size ∧ k ≠ dg.root ∧ (dg.node k).id = some id := by
  constructor
  · rintro ⟨i, hpos, hi, hid⟩
    obtain ⟨k, hk, rfl⟩ := h.bijective.surjOn hi
    refine ⟨k, hk, ?_, (h.id k hk).trans hid⟩
    rintro rfl
    rw [h.root] at hpos
    exact Nat.lt_irrefl 0 hpos
  · rintro ⟨k, hk, hsource, hid⟩
    refine ⟨number k, Nat.pos_of_ne_zero ?_, h.bijective.mapsTo hk, (h.id k hk).symm.trans hid⟩
    intro hzero
    exact hsource (h.bijective.injOn hk hroot (hzero.trans h.root.symm))

/-- What a resolution builds has the shape of the document's lineage, and ends with the root. -/
theorem lineage_of_resolve (hpolicy : r.policy = .follow failOnMissing verify)
    (h : r.resolve c d uri = .ok dg) :
    ∃ g known number, LineageGraph.ofDocument? r.layout d = .ok g ∧
      lookUp c g.byIdentity.keys = .ok known ∧ dg.Renumbers g number ∧ dg.root + 1 = dg.size := by
  rw [resolve, hpolicy] at h
  dsimp only at h
  split at h
  next => cases h
  next g hg =>
    obtain ⟨known, stats, hlookUp, -, -, -, hassemble⟩ := resolveGraph_eq_ok h
    obtain ⟨earlier, hperm, hroot, hbuilt, -⟩ := built_of_assemble hg hassemble
    have hlength := hbuilt.length_eq
    rw [List.length_append, List.length_singleton] at hlength
    exact ⟨g, known, _, hg, hlookUp, hbuilt.renumbers hperm hroot, hroot ▸ hlength⟩

/-- What resolves is refused for missing ancestors or resolves to the same graph. -/
theorem resolve_strictly (hpolicy : r.policy = .follow false verify)
    (hresolve : r.resolve c d uri = .ok dg) (hg : LineageGraph.ofDocument? r.layout d = .ok g)
    (hknown : lookUp c g.byIdentity.keys = .ok known) :
    { r with policy := .follow true verify : Resolver }.resolve c d uri =
      if (missingFrom known g).isEmpty then .ok dg
      else .error (.missing (missingFrom known g)) := by
  have hopen : { r with policy := .follow false verify : Resolver }.resolve c d uri = .ok dg := by
    rwa [← hpolicy]
  -- The document resolves, so neither inconsistencies nor the assembly refuse it.
  rw [resolve_eq_gated hg hknown, gated, Bool.false_and, if_neg Bool.false_ne_true] at hopen
  rw [resolve_eq_gated hg hknown, gated, hopen, Bool.true_and]
  cases (missingFrom known g).isEmpty <;> rfl

section Alone

variable {root : Identity} {now : Timestamp}

/-- The gate of the resolution asks for every ancestor to be recorded. -/
theorem not_refused_iff (hpolicy : r.policy = .follow false verify)
    (hresolve : r.resolve c d uri = .ok dg) (hg : LineageGraph.ofDocument? r.layout d = .ok g)
    (hknown : lookUp c g.byIdentity.keys = .ok known) :
    (∀ ids, { r with policy := .follow true verify : Resolver }.resolve c d uri ≠
        .error (.missing ids)) ↔
      ∀ id, g.HasAncestor id → c.datasets.contains id = true := by
  have hmissing := listsMissing (LineageGraph.nodup_identities_of_ofDocument? hg) hknown
  rw [resolve_strictly hpolicy hresolve hg hknown]
  constructor
  · intro hopen id hancestor
    by_contra habsent
    have hid := (hmissing.mem_iff id).mpr ⟨hancestor, Bool.eq_false_iff.mpr habsent⟩
    have hsome : (missingFrom known g).isEmpty = false :=
      List.isEmpty_eq_false_iff.mpr (List.ne_nil_of_mem hid)
    rw [hsome] at hopen
    exact hopen _ rfl
  · intro hrecorded ids
    have hnone : missingFrom known g = [] := by
      rw [List.eq_nil_iff_forall_not_mem]
      intro id hid
      obtain ⟨hancestor, habsent⟩ := (hmissing.mem_iff id).mp hid
      rw [hrecorded id hancestor] at habsent
      cases habsent
    rw [hnone]
    exact nofun

/-- So does the gate of the catalog. -/
theorem added_alone_iff {number : Nat → Nat} (hrenumbers : dg.Renumbers g number)
    (hlast : dg.root + 1 = dg.size) (hroot : dg.rootDataset.id = some root)
    (hidentified : ∀ n ∈ dg.nodes, n.id ≠ none) (hnew : c.datasets.contains root = false)
    (hregistered : c.product? dg.rootDataset.product.name ≠ none) :
    (∃ c', c.add dg false now = .ok c') ↔
      ∀ id, g.HasAncestor id → c.datasets.contains id = true := by
  have hlt : dg.root < dg.size := Nat.lt_of_succ_le (Nat.le_of_eq hlast)
  constructor
  · rintro ⟨c', hadd⟩ id hancestor
    obtain ⟨k, hk, hsource, hid⟩ := (hasAncestor_iff_source hrenumbers hlt).mp hancestor
    exact Catalog.recorded_of_add_alone hadd hk hsource hid
  · intro hrecorded
    cases hadd : c.add dg false now with
    | ok c' => exact ⟨c', rfl⟩
    | error e =>
        obtain ⟨k, id, hk, hsource, hid, habsent, -⟩ :=
          Catalog.add_alone_eq_error hroot hidentified hnew hregistered hadd
        rw [hrecorded id ((hasAncestor_iff_source hrenumbers hlt).mpr ⟨k, hk, hsource, hid⟩)]
          at habsent
        cases habsent

/-- A graph whose new root has a registered product can be added on its own exactly when resolving
its document does not fail for missing ancestors: both ask for every ancestor to be recorded. Then
its root is added and nothing else; otherwise the graph is refused as invalid and the catalog stays
as it is. -/
theorem gates_agree (hpolicy : r.policy = .follow false verify)
    (hresolve : r.resolve c d uri = .ok dg) (hidentified : ∀ n ∈ dg.nodes, n.id ≠ none)
    (hroot : dg.rootDataset.id = some root) (hnew : c.datasets.contains root = false)
    (hregistered : c.product? dg.rootDataset.product.name ≠ none) (now : Timestamp) :
    ((∃ c', c.add dg false now = .ok c') ↔ ∀ ids,
      { r with policy := .follow true verify : Resolver }.resolve c d uri ≠
        .error (.missing ids)) ∧
    (∀ c', c.add dg false now = .ok c' →
      c' = c.insert (Catalog.record dg dg.rootDataset root now) ∧ c'.size = c.size + 1 ∧
        ∀ id, id ≠ root → c'.datasets.find? id = c.datasets.find? id) ∧
    ∀ e, c.add dg false now = .error e →
      e.isValidation = true ∧ (InPlace.add dg false now).result c = (.error e, c) := by
  obtain ⟨g, known, number, hg, hlookUp, hrenumbers, hlast⟩ := lineage_of_resolve hpolicy hresolve
  refine ⟨?_, ?_, ?_⟩
  · rw [not_refused_iff hpolicy hresolve hg hlookUp]
    exact added_alone_iff hrenumbers hlast hroot hidentified hnew hregistered
  · intro c' hadd
    obtain rfl := Catalog.add_alone_eq_ok hlast hroot hadd
    exact ⟨rfl, OrderedMap.size_insert hnew, fun id hid =>
      OrderedMap.find?_insert_of_ne c.datasets _ hid⟩
  · intro e hadd
    obtain ⟨_, id, -, -, -, -, rfl⟩ :=
      Catalog.add_alone_eq_error hroot hidentified hnew hregistered hadd
    refine ⟨rfl, ?_⟩
    rw [InPlace.result_add, hadd]
    rfl

/-- One ancestor is recorded and one is not, so both gates are closed. -/
theorem gates_agree_on_identifiedSurvey :
    surveyResolver.resolve surveyCatalog identifiedSurvey "survey" = .ok identifiedGraph ∧
      soilResolver.resolve surveyCatalog identifiedSurvey "survey" = .error (.missing [mossId]) ∧
      ∃ e, surveyCatalog.add identifiedGraph false default = .error e ∧ e.isValidation = true ∧
        (InPlace.add identifiedGraph false default).result surveyCatalog =
          (.error e, surveyCatalog) := by
  have hresolve : surveyResolver.resolve surveyCatalog identifiedSurvey "survey" =
      .ok identifiedGraph := by
    rfl
  have hstrict : soilResolver.resolve surveyCatalog identifiedSurvey "survey" =
      .error (.missing [mossId]) := by
    rfl
  obtain ⟨hiff, -, hrefused⟩ :=
    gates_agree rfl hresolve (by decide) rfl rfl (by decide) default
  cases hadd : surveyCatalog.add identifiedGraph false default with
  | ok c' => exact (hiff.mp ⟨c', hadd⟩ [mossId] hstrict).elim
  | error e => exact ⟨hresolve, hstrict, e, rfl, hrefused e hadd⟩

end Alone

end Resolver

end DatasetCatalog
