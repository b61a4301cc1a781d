import DatasetCatalog.Proofs.Catalog.Operation
import DatasetCatalog.Proofs.Dataset.Resolution
import Mathlib.Order.WellFounded

/-!
# The lineage that a catalog records

`Grounded` is the invariant of recorded lineage: every recorded source is recorded itself, and going
from datasets to their sources ends. The two belong together. Adding a graph leaves the records that
are there alone, so their sources stay among them; the new records only refer to these or to new
ones that stand earlier in the graph.
-/

namespace DatasetCatalog.Catalog

/-- The record of `id` names `source` among its sources. -/
def Lists (c : Catalog) (id source : Identity) : Prop :=
  ∃ d, c.datasets.find? id = some d ∧ source ∈ d.sources.values

/-- Recorded lineage stays within the catalog and never goes on for ever. -/
structure Grounded (c : Catalog) : Prop where
  closed : ∀ {id source : Identity}, c.Lists id source → c.datasets.contains source = true
  founded : WellFounded fun source id => c.Lists id source

variable {c c' : Catalog}

theorem Grounded.acyclic (h : c.Grounded) (id : Identity) : ¬ Relation.TransGen c.Lists id id := by
  intro hcycle
  have hback := Relation.transGen_swap.mpr hcycle
  exact h.founded.transGen.asymmetric id id hback hback

theorem grounded_empty : empty.Grounded := by
  refine ⟨?_, ⟨fun id => ⟨id, ?_⟩⟩⟩
  · rintro id source ⟨d, hd, -⟩
    cases hd
  · rintro source ⟨d, hd, -⟩
    cases hd

/-! ## Operations that leave lineage alone -/

/-- The same datasets are recorded, with the same sources. -/
def SameSources (c c' : Catalog) : Prop :=
  ∀ id, (c'.datasets.find? id).map StoredDataset.sources =
    (c.datasets.find? id).map StoredDataset.sources

theorem SameSources.lists_iff (h : SameSources c c') {id source : Identity} :
    c'.Lists id source ↔ c.Lists id source := by
  have hiff : ∀ c : Catalog, c.Lists id source ↔
      ∃ sources, (c.datasets.find? id).map StoredDataset.sources = some sources ∧
        source ∈ sources.values := by
    intro c
    simp [Lists]
  rw [hiff, hiff, h id]

theorem SameSources.contains_eq (h : SameSources c c') (id : Identity) :
    c'.datasets.contains id = c.datasets.contains id := by
  have hsome := congrArg Option.isSome (h id)
  rwa [Option.isSome_map, Option.isSome_map] at hsome

theorem SameSources.trans {c'' : Catalog} (h : SameSources c c') (h' : SameSources c' c'') :
    SameSources c c'' := fun id => (h' id).trans (h id)

theorem Grounded.of_sameSources (h : c.Grounded) (hsame : SameSources c c') : c'.Grounded := by
  refine ⟨?_, ?_⟩
  · intro id source hlists
    rw [hsame.contains_eq]
    exact h.closed (hsame.lists_iff.mp hlists)
  · refine Subrelation.wf ?_ h.founded
    intro source id hlists
    exact hsame.lists_iff.mp hlists

theorem sameSources_adjust (id : Identity) {f : StoredDataset → StoredDataset}
    (hf : ∀ d, (f d).id = d.id) (hsources : ∀ d, (f d).sources = d.sources) :
    SameSources c (c.adjust id f hf) := by
  intro other
  rw [datasets_adjust, OrderedMap.find?_adjust]
  split
  next =>
    rw [Option.map_map]
    exact congrArg (fun g => (c.datasets.find? other).map g) (funext hsources)
  next => rfl

theorem sameSources_adjustAll {ids : List Identity} {f : StoredDataset → StoredDataset}
    {hf : ∀ d, (f d).id = d.id} (h : c.adjustAll ids f hf = .ok c')
    (hsources : ∀ d, (f d).sources = d.sources) : SameSources c c' := by
  obtain ⟨-, rfl⟩ := adjustAll_eq_ok h
  clear h
  induction ids generalizing c with
  | nil => exact fun _ => rfl
  | cons id ids ih => exact (sameSources_adjust id hf hsources).trans ih

theorem sameSources_addProduct {p p' : Product} {events : List Event}
    (h : c.addProduct p = .ok (c', p', events)) : SameSources c c' := by
  rcases addProduct_eq_ok h with rfl | ⟨-, rfl⟩
  · exact fun _ => rfl
  · exact fun _ => rfl

theorem sameSources_update {d : Dataset} {rules : ChangeRules} (h : c.update d rules = .ok c') :
    SameSources c c' := by
  obtain ⟨id, before, -, -, -, -, rfl⟩ := update_eq_ok h
  exact sameSources_adjust id _ d.sources_revise

theorem sameSources_archive {ids : List Identity} {now : Timestamp}
    (h : c.archive ids now = .ok c') : SameSources c c' := by
  rw [archive] at h
  exact sameSources_adjustAll h fun _ => rfl

theorem sameSources_restore {ids : List Identity} (h : c.restore ids = .ok c') :
    SameSources c c' := by
  rw [restore] at h
  exact sameSources_adjustAll h fun _ => rfl

theorem sameSources_archiveLocation {id : Identity} {uri : String} {changed : Bool}
    (h : c.archiveLocation id uri = .ok (c', changed)) : SameSources c c' := by
  obtain ⟨before, -, -, rfl⟩ := archiveLocation_eq_ok h
  exact sameSources_adjust id _ fun _ => rfl

theorem sameSources_removeLocation {id : Identity} {uri : String} {changed : Bool}
    (h : c.removeLocation id uri = .ok (c', changed)) : SameSources c c' := by
  obtain ⟨before, -, -, rfl⟩ := removeLocation_eq_ok h
  exact sameSources_adjust id _ fun _ => rfl

/-- A snapshot of a catalog gives its datasets back. -/
theorem find?_of_snapshot (h : (Snapshot.ofCatalog c).restore = .ok c') (id : Identity) :
    c'.datasets.find? id = c.datasets.find? id := by
  have hc := restore_eq_ok h
  rcases find?_foldl_insert (Snapshot.ofCatalog c).datasets _ id with
    ⟨d, hd, hid, hfind⟩ | ⟨hnone, hfind⟩
  · obtain ⟨key, hkey⟩ := OrderedMap.mem_values_iff.mp hd
    have hsame : key = id := (c.keyed key d hkey).symm.trans hid
    rw [hc, hfind, ← hsame, hkey]
  · rw [hc, hfind]
    cases hid : c.datasets.find? id with
    | none => rfl
    | some d =>
        exact (hnone d (OrderedMap.mem_values_iff.mpr ⟨id, hid⟩) (c.keyed id d hid)).elim

theorem sameSources_of_snapshot (h : (Snapshot.ofCatalog c).restore = .ok c') :
    SameSources c c' := by
  intro id
  rw [find?_of_snapshot h]

/-! ## Adding a graph -/

section Adding

variable {g : DatasetGraph} {withLineage : Bool} {now : Timestamp}

/-- Adding a graph records some of its nodes, none of which had a record, and all that had none. -/
theorem records_of_add (h : c.add g withLineage now = .ok c') :
    ∃ records : List StoredDataset, c' = records.foldl insert c ∧
      (∀ stored ∈ records, c.datasets.contains stored.id = false ∧
        ∃ (k : Nat) (d : Dataset), g.nodes[k]? = some d ∧ d.id = some stored.id ∧
          stored = record g d stored.id now) ∧
      ∀ (k : Nat) (d : Dataset), g.nodes[k]? = some d →
        ∃ id, d.id = some id ∧
          (c.datasets.contains id = true ∨ record g d id now ∈ records) := by
  obtain ⟨root, pendings, hroot, hnew, hpendings, rfl⟩ := add_eq_ok h
  refine ⟨_, rfl, ?_, ?_⟩
  · intro stored hstored
    obtain ⟨pending, hmem, rfl⟩ := List.mem_filterMap.mp hstored
    obtain ⟨⟨d, k⟩, hk, hpending⟩ := exists_of_mem_right hpendings hmem
    have hd : g.nodes[k]? = some d := List.mk_mem_zipIdx_iff_getElem?.mp hk
    obtain ⟨id, hid, ⟨hnone, -⟩ | ⟨hsome, habsent⟩⟩ := pending_eq_ok hpending
    · cases hnone
    · cases hsome
      refine ⟨?_, k, d, hd, hid, rfl⟩
      rcases habsent with hisroot | habsent
      · have hsame : g.rootDataset = d := by
          dsimp only at hisroot
          rw [DatasetGraph.rootDataset, DatasetGraph.node, List.getD_eq_getElem?_getD, ← hisroot,
            hd]
          rfl
        rw [← hsame, hroot] at hid
        cases hid
        exact hnew
      · exact habsent
  · intro k d hd
    obtain ⟨pending, hmem, hpending⟩ :=
      exists_of_mem_left hpendings (List.mk_mem_zipIdx_iff_getElem?.mpr hd)
    obtain ⟨id, hid, ⟨-, hrecorded⟩ | ⟨rfl, -⟩⟩ := pending_eq_ok hpending
    · exact ⟨id, hid, .inl hrecorded⟩
    · exact ⟨id, hid, .inr (List.mem_filterMap.mpr ⟨_, hmem, rfl⟩)⟩

/-- A record that is there stays when a graph is added. -/
theorem find?_of_add (h : c.add g withLineage now = .ok c') {id : Identity} {d : StoredDataset}
    (hd : c.datasets.find? id = some d) : c'.datasets.find? id = some d := by
  obtain ⟨records, rfl, hrecords, -⟩ := records_of_add h
  rcases find?_foldl_insert records c id with ⟨e, he, rfl, -⟩ | ⟨-, hfind⟩
  · have habsent := (hrecords e he).1
    rw [OrderedMap.contains_iff.mpr ⟨d, hd⟩] at habsent
    cases habsent
  · exact hfind.trans hd

theorem contains_of_add (h : c.add g withLineage now = .ok c') {id : Identity}
    (hid : c.datasets.contains id = true) : c'.datasets.contains id = true := by
  obtain ⟨d, hd⟩ := OrderedMap.contains_iff.mp hid
  exact OrderedMap.contains_iff.mpr ⟨d, find?_of_add h hd⟩

/-- A record comes from before or from a node of the graph. -/
theorem origin_of_add (h : c.add g withLineage now = .ok c') {id : Identity}
    {stored : StoredDataset} (hstored : c'.datasets.find? id = some stored) :
    c.datasets.find? id = some stored ∨
      ∃ (k : Nat) (d : Dataset), g.nodes[k]? = some d ∧ d.id = some id ∧
        stored = record g d id now := by
  obtain ⟨records, rfl, hrecords, -⟩ := records_of_add h
  rcases find?_foldl_insert records c id with ⟨e, he, rfl, hfind⟩ | ⟨-, hfind⟩
  · cases hfind.symm.trans hstored
    exact .inr (hrecords stored he).2
  · exact .inl (hfind.symm.trans hstored)

/-- Afterwards every node of the graph is recorded. -/
theorem contains_node_of_add (h : c.add g withLineage now = .ok c') {k : Nat} {d : Dataset}
    {id : Identity} (hd : g.nodes[k]? = some d) (hid : d.id = some id) :
    c'.datasets.contains id = true := by
  obtain ⟨records, hc, -, hnodes⟩ := records_of_add h
  obtain ⟨id', hid', hrecorded | hmem⟩ := hnodes k d hd
  · cases hid.symm.trans hid'
    exact contains_of_add h hrecorded
  · cases hid.symm.trans hid'
    rw [hc]
    rcases find?_foldl_insert records c id with ⟨e, -, -, hfind⟩ | ⟨hne, -⟩
    · exact OrderedMap.contains_iff.mpr ⟨e, hfind⟩
    · exact (hne _ hmem rfl).elim

/-- The record of a node names identities of nodes that stand earlier. -/
theorem earlier_of_mem_record (hordered : g.Ordered) {k : Nat} {d : Dataset} {id source : Identity}
    (hd : g.nodes[k]? = some d) (hsource : source ∈ (record g d id now).sources.values) :
    ∃ i < k, ∃ e, g.nodes[i]? = some e ∧ e.id = some source := by
  obtain ⟨classifier, hfind⟩ := OrderedMap.mem_values_iff.mp hsource
  obtain ⟨⟨_, e⟩, he, hpair⟩ := List.mem_filterMap.mp (OrderedMap.mem_of_find?_ofList hfind)
  obtain ⟨source', hid, ⟨⟩⟩ := Option.map_eq_some_iff.mp hpair
  obtain ⟨s, hs, ⟨⟩⟩ := List.mem_map.mp he
  have hlt := hordered.sources_lt hd s hs
  refine ⟨s.2, hlt, g.node s.2, DatasetGraph.getElem?_node ?_, hid⟩
  exact Nat.lt_trans hlt (List.getElem?_eq_some_iff.mp hd).1

/-- A record that was there lists what it listed before, all of which was there too. -/
theorem Grounded.acc_of_recorded (h : c.Grounded) (hadd : c.add g withLineage now = .ok c')
    {id : Identity} (hid : c.datasets.contains id = true) :
    Acc (fun source id => c'.Lists id source) id := by
  induction id using h.founded.induction with
  | _ id ih =>
      obtain ⟨d, hd⟩ := OrderedMap.contains_iff.mp hid
      refine ⟨id, ?_⟩
      rintro source ⟨d', hd', hsource⟩
      cases (find?_of_add hadd hd).symm.trans hd'
      exact ih source ⟨d, hd, hsource⟩ (h.closed ⟨d, hd, hsource⟩)

/-- From a node of the graph each step leads to what was there or to an earlier node. -/
theorem Grounded.acc_of_node (h : c.Grounded) (hordered : g.Ordered)
    (hadd : c.add g withLineage now = .ok c') {k : Nat} {d : Dataset} {id : Identity}
    (hd : g.nodes[k]? = some d) (hid : d.id = some id) :
    Acc (fun source id => c'.Lists id source) id := by
  induction k using Nat.strong_induction_on generalizing d id with
  | _ k ih =>
      refine ⟨id, ?_⟩
      rintro source ⟨stored, hstored, hsource⟩
      rcases origin_of_add hadd hstored with hbefore | ⟨k', d', hd', hid', rfl⟩
      · exact h.acc_of_recorded hadd (h.closed ⟨stored, hbefore, hsource⟩)
      · cases hordered.unique hd' hd hid' hid
        obtain ⟨i, hi, e, he, heid⟩ := earlier_of_mem_record hordered hd' hsource
        exact ih i hi he heid

theorem Grounded.add (h : c.Grounded) (hordered : g.Ordered)
    (hadd : c.add g withLineage now = .ok c') : c'.Grounded := by
  refine ⟨?_, ⟨fun id => ?_⟩⟩
  · rintro id source ⟨stored, hstored, hsource⟩
    rcases origin_of_add hadd hstored with hbefore | ⟨k, d, hd, -, rfl⟩
    · exact contains_of_add hadd (h.closed ⟨stored, hbefore, hsource⟩)
    · obtain ⟨i, -, e, he, heid⟩ := earlier_of_mem_record hordered hd hsource
      exact contains_node_of_add hadd he heid
  · cases hstored : c'.datasets.find? id with
    | none =>
        refine ⟨id, ?_⟩
        rintro source ⟨d, hd, -⟩
        cases hd.symm.trans hstored
    | some stored =>
        rcases origin_of_add hadd hstored with hbefore | ⟨k, d, hd, hid, -⟩
        · exact h.acc_of_recorded hadd (OrderedMap.contains_iff.mpr ⟨stored, hbefore⟩)
        · exact h.acc_of_node hordered hadd hd hid

end Adding

end DatasetCatalog.Catalog
