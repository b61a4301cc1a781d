import DatasetCatalog.Proofs.Catalog.Alone
import DatasetCatalog.Proofs.Catalog.Retiming
import DatasetCatalog.Proofs.Lineage.Refusal
import Mathlib.Data.List.Perm.Basic

/-!
# What a request looks at

Resolving a document, adding its graph and judging an update look at the products and at the records
of the identities that the document carries, its own and those in its lineage. Two catalogs that
agree on these give the same answer, and what is added is the same list of records, all of them
under these identities. Records of different identities may be added in any order.
-/

namespace DatasetCatalog

/-- The identities that a document carries, as the root and anywhere in the lineage. -/
def Layout.identities (layout : Layout) (d : Document) : List Identity :=
  (layout.embedded d).filterMap layout.identity?

namespace Catalog

/-- The same products, and the same records of these identities. -/
structure AgreesOn (ids : List Identity) (c c' : Catalog) : Prop where
  products : c'.products = c.products
  datasets : ∀ id ∈ ids, c'.datasets.find? id = c.datasets.find? id

variable {c c' : Catalog} {ids : List Identity}

theorem AgreesOn.refl (ids : List Identity) (c : Catalog) : AgreesOn ids c c :=
  ⟨rfl, fun _ _ => rfl⟩

theorem AgreesOn.mono {fewer : List Identity} (h : AgreesOn ids c c') (hfewer : fewer ⊆ ids) :
    AgreesOn fewer c c' :=
  ⟨h.products, fun id hid => h.datasets id (hfewer hid)⟩

/-! ## Look-ups -/

theorem AgreesOn.product? (h : AgreesOn ids c c') (name : String) :
    c'.product? name = c.product? name := by
  rw [Catalog.product?, Catalog.product?, h.products]

theorem AgreesOn.entry (h : AgreesOn ids c c') (d : StoredDataset) : c'.entry d = c.entry d := by
  rw [Catalog.entry, Catalog.entry, h.product?]

theorem AgreesOn.contains (h : AgreesOn ids c c') {id : Identity} (hid : id ∈ ids) :
    c'.datasets.contains id = c.datasets.contains id := by
  rw [OrderedMap.contains, OrderedMap.contains, h.datasets id hid]

theorem AgreesOn.get? (h : AgreesOn ids c c') {id : Identity} (hid : id ∈ ids) :
    c'.get? id = c.get? id := by
  rw [Catalog.get?, Catalog.get?, h.datasets id hid]
  cases c.datasets.find? id with
  | none => rfl
  | some d => simp only [h.entry]

theorem AgreesOn.get (h : AgreesOn ids c c') {id : Identity} (hid : id ∈ ids) :
    c'.get id = c.get id := by
  rw [Catalog.get, Catalog.get, h.get? hid]

theorem AgreesOn.bulkGet (h : AgreesOn ids c c') : c'.bulkGet ids = c.bulkGet ids := by
  have hfind : ids.filterMap c'.datasets.find? = ids.filterMap c.datasets.find? :=
    List.filterMap_congr h.datasets
  rw [Catalog.bulkGet, Catalog.bulkGet, hfind, funext h.entry]

theorem AgreesOn.canUpdate (h : AgreesOn ids c c') {d : Dataset} {id : Identity}
    (hid : d.id = some id) (hmem : id ∈ ids) (rules : ChangeRules) :
    c'.canUpdate d rules = c.canUpdate d rules := by
  rw [Catalog.canUpdate, Catalog.canUpdate, hid]
  dsimp only
  rw [h.get hmem]

end Catalog

/-! ## Resolution -/

theorem LineageGraph.mem_layout_identities {layout : Layout} {d : Document} {g : LineageGraph}
    (hg : ofDocument? layout d = .ok g) {id : Identity} (hid : id ∈ identities g.nodes) :
    id ∈ layout.identities d := by
  obtain ⟨n, hn, hnid⟩ := mem_identities.mp hid
  obtain ⟨finished, hwalks⟩ := walks_of_ofDocument? hg ""
  obtain ⟨e, he, hidentity, -⟩ := hwalks.stem n hn
  rw [upcoming, List.flatMap_singleton] at he
  rw [hnid] at hidentity
  exact List.mem_filterMap.mpr ⟨e, he, Layout.mem_identity?_iff.mpr hidentity⟩

namespace Resolver

variable {r : Resolver} {c c' : Catalog} {d : Document} {uri : String} {dg : DatasetGraph}

theorem lookUp_congr {ids : List Identity} (h : Catalog.AgreesOn ids c c') :
    lookUp c' ids = lookUp c ids := by
  rw [lookUp, lookUp, h.bulkGet]

theorem resolve_congr (h : Catalog.AgreesOn (r.layout.identities d) c c') (uri : String) :
    r.resolve c' d uri = r.resolve c d uri := by
  rw [resolve, resolve]
  cases r.policy with
  | skip => rfl
  | follow failOnMissing verify =>
      dsimp only
      cases hg : LineageGraph.ofDocument? r.layout d with
      | error e => rfl
      | ok g =>
          have hkeys : g.byIdentity.keys ⊆ r.layout.identities d := fun id hid =>
            LineageGraph.mem_layout_identities hg (mem_keys_byIdentity.mp hid)
          dsimp only
          rw [resolveGraph, resolveGraph, lookUp_congr (h.mono hkeys)]

theorem resolveChecked_congr (h : Catalog.AgreesOn (r.layout.identities d) c c') (uri : String) :
    r.resolveChecked c' d uri = r.resolveChecked c d uri := by
  rw [resolveChecked, resolveChecked, resolve_congr h]

/-- Every dataset of a graph has an identity that its document carries, or none. -/
theorem mem_identities_of_resolve (h : r.resolve c d uri = .ok dg) {n : Dataset} (hn : n ∈ dg.nodes)
    {id : Identity} (hid : n.id = some id) : id ∈ r.layout.identities d := by
  cases hpolicy : r.policy with
  | follow failOnMissing verify =>
      obtain ⟨g, known, number, hg, -, hrenumbers, -⟩ := lineage_of_resolve hpolicy h
      obtain ⟨k, hk, rfl⟩ := DatasetGraph.exists_node hn
      have hnumber : number k < g.size := hrenumbers.bijective.mapsTo hk
      rw [hrenumbers.id k hk] at hid
      exact LineageGraph.mem_layout_identities hg
        (mem_keys_byIdentity.mp (mem_keys_iff_node.mpr ⟨number k, hnumber, hid⟩))
  | skip =>
      rw [resolve, hpolicy] at h
      obtain ⟨_, _, hidentity, -, rfl⟩ := resolveFlat_eq_ok h
      cases List.mem_singleton.mp hn
      cases hid
      refine List.mem_filterMap.mpr ⟨d, ?_, Layout.mem_identity?_iff.mpr hidentity⟩
      rw [Layout.embedded_eq]
      exact List.mem_cons_self

end Resolver

/-! ## Adding -/

namespace Catalog

variable {c c' : Catalog} {ids : List Identity} {g : DatasetGraph} {withLineage : Bool}
  {now : Timestamp}

/-- The records that adding a graph makes. -/
def additions (c : Catalog) (g : DatasetGraph) (withLineage : Bool) (now : Timestamp) :
    Except CatalogError (List StoredDataset) :=
  match g.rootDataset.id with
  | none => .error .anonymousDataset
  | some root =>
    if c.datasets.contains root then .error (.duplicate root)
    else (g.nodes.zipIdx.mapM fun n => c.pending g withLineage now root n.1 n.2).map
      (List.filterMap id)

theorem add_eq_additions (c : Catalog) (g : DatasetGraph) (withLineage : Bool) (now : Timestamp) :
    c.add g withLineage now =
      (c.additions g withLineage now).map fun records => records.foldl insert c := by
  rw [add, additions]
  cases g.rootDataset.id with
  | none => rfl
  | some root =>
      dsimp only
      split
      next => rfl
      next => cases g.nodes.zipIdx.mapM fun n => c.pending g withLineage now root n.1 n.2 <;> rfl

theorem AgreesOn.pending (h : AgreesOn ids c c') {d : Dataset} (hd : ∀ id ∈ d.id, id ∈ ids)
    (root : Identity) (i : Nat) :
    c'.pending g withLineage now root d i = c.pending g withLineage now root d i := by
  rw [Catalog.pending, Catalog.pending]
  cases hid : d.id with
  | none => rfl
  | some id =>
      dsimp only
      rw [h.contains (hd id hid), h.product?]

/-- Adding looks at the records of the identities in the graph. -/
theorem AgreesOn.additions (h : AgreesOn ids c c') (hroot : g.root < g.size)
    (hg : ∀ d ∈ g.nodes, ∀ id ∈ d.id, id ∈ ids) :
    c'.additions g withLineage now = c.additions g withLineage now := by
  rw [Catalog.additions, Catalog.additions]
  cases hid : g.rootDataset.id with
  | none => rfl
  | some root =>
      have hmem : root ∈ ids :=
        hg _ (List.mem_of_getElem? (DatasetGraph.getElem?_node hroot)) root hid
      have hpending : ∀ n ∈ g.nodes.zipIdx, c'.pending g withLineage now root n.1 n.2 =
          c.pending g withLineage now root n.1 n.2 := fun n hn =>
        h.pending (hg n.1 (List.fst_mem_of_mem_zipIdx hn)) root n.2
      dsimp only
      rw [h.contains hmem, mapM_congr hpending]

/-- A record is made for a dataset of the graph, under its identity. -/
theorem mem_additions {records : List StoredDataset}
    (h : c.additions g withLineage now = .ok records) {stored : StoredDataset}
    (hstored : stored ∈ records) :
    ∃ (k : Nat) (d : Dataset), g.nodes[k]? = some d ∧ d.id = some stored.id ∧
      stored = record g d stored.id now := by
  rw [additions] at h
  split at h
  next => cases h
  next root _ =>
    split at h
    next => cases h
    next =>
      obtain ⟨pendings, hpendings, rfl⟩ := map_eq_ok.mp h
      obtain ⟨pending, hmem, hsome⟩ := List.mem_filterMap.mp hstored
      obtain ⟨⟨d, k⟩, hk, hpending⟩ := exists_of_mem_right (mapM_eq_ok.mp hpendings) hmem
      obtain ⟨id, hid, ⟨rfl, -⟩ | ⟨rfl, -⟩⟩ := pending_eq_ok hpending
      · cases hsome
      · cases hsome
        exact ⟨k, d, List.mk_mem_zipIdx_iff_getElem?.mp hk, hid, rfl⟩

/-- In an ordered graph no two records have the same identity. -/
theorem eq_of_mem_additions (hordered : g.Ordered) {records : List StoredDataset}
    (h : c.additions g withLineage now = .ok records) {d e : StoredDataset} (hd : d ∈ records)
    (he : e ∈ records) (hsame : d.id = e.id) : d = e := by
  obtain ⟨j, n, hn, hnid, hdrecord⟩ := mem_additions h hd
  obtain ⟨k, m, hm, hmid, herecord⟩ := mem_additions h he
  cases hordered.unique hn hm hnid (hsame ▸ hmid)
  cases hn.symm.trans hm
  rw [hdrecord, herecord, hsame]

/-! ## Writing in another order -/

theorem addDerived_comm (derived : OrderedMap Identity IdentitySet) (s t i j : Identity) :
    addDerived (addDerived derived s i) t j = addDerived (addDerived derived t j) s i := by
  by_cases hsame : s = t
  · subst hsame
    simp only [addDerived, OrderedMap.find?_insert_self, Option.getD_some, OrderedMap.insert_insert]
    rw [OrderedMap.insert_comm _ fun _ => rfl]
  · simp only [addDerived, OrderedMap.find?_insert_of_ne _ _ hsame,
      OrderedMap.find?_insert_of_ne _ _ (Ne.symm hsame)]
    exact OrderedMap.insert_comm _ fun h => (hsame h).elim

/-- Two datasets enter the index in any order. -/
theorem foldl_addDerived_comm (derived : OrderedMap Identity IdentitySet)
    (sources others : List Identity) (i j : Identity) :
    others.foldl (fun m s => addDerived m s j)
        (sources.foldl (fun m s => addDerived m s i) derived) =
      sources.foldl (fun m s => addDerived m s i)
        (others.foldl (fun m s => addDerived m s j) derived) := by
  have hpairs : ∀ (sources : List Identity) (i : Identity) (m : OrderedMap Identity IdentitySet),
      sources.foldl (fun m s => addDerived m s i) m =
        (sources.map fun s => (s, i)).foldl (fun m p => addDerived m p.1 p.2) m := by
    intro sources i m
    rw [List.foldl_map]
  simp only [hpairs, ← List.foldl_append]
  apply List.perm_append_comm.foldl_eq'
  intro p _ q _ m
  exact addDerived_comm m p.1 q.1 p.2 q.2

theorem insert_comm (c : Catalog) {d e : StoredDataset} (h : d.id = e.id → d = e) :
    (c.insert d).insert e = (c.insert e).insert d :=
  ext_parts rfl (OrderedMap.insert_comm c.datasets h)
    (foldl_addDerived_comm c.derived d.sources.values e.sources.values d.id e.id)

/-- Records of different identities are added in any order. -/
theorem foldl_insert_perm {records others : List StoredDataset} (hperm : records.Perm others)
    (hsame : ∀ d ∈ records, ∀ e ∈ records, d.id = e.id → d = e) (c : Catalog) :
    records.foldl insert c = others.foldl insert c := by
  apply hperm.foldl_eq'
  intro d hd e he c
  exact insert_comm c (hsame d hd e he)

theorem adjust_comm (c : Catalog) {id other : Identity} (hne : id ≠ other)
    {f g : StoredDataset → StoredDataset} (hf : ∀ d, (f d).id = d.id) (hg : ∀ d, (g d).id = d.id) :
    (c.adjust id f hf).adjust other g hg = (c.adjust other g hg).adjust id f hf :=
  ext_parts rfl (OrderedMap.adjust_comm c.datasets hne f g) rfl

/-! ## Other identities -/

/-- Records of other identities leave an agreement as it is. -/
theorem AgreesOn.foldl_insert (h : AgreesOn ids c c') {records : List StoredDataset}
    (hother : ∀ d ∈ records, d.id ∉ ids) : AgreesOn ids c (records.foldl insert c') := by
  refine ⟨(products_foldl_insert records c').trans h.products, ?_⟩
  intro id hid
  rcases find?_foldl_insert records c' id with ⟨d, hd, rfl, -⟩ | ⟨-, hfind⟩
  · exact (hother d hd hid).elim
  · exact hfind.trans (h.datasets id hid)

theorem AgreesOn.adjust (h : AgreesOn ids c c') {id : Identity} (hother : id ∉ ids)
    {f : StoredDataset → StoredDataset} (hf : ∀ d, (f d).id = d.id) :
    AgreesOn ids c (c'.adjust id f hf) := by
  refine ⟨h.products, fun other hmem => ?_⟩
  have hne : other ≠ id := fun hsame => hother (hsame ▸ hmem)
  rw [find?_adjust_of_ne c' hne, h.datasets other hmem]

end Catalog

end DatasetCatalog
