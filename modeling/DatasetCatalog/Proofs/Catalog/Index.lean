import DatasetCatalog.Proofs.Catalog.Reading
import DatasetCatalog.Proofs.Catalog.Session

/-!
# The index of derived datasets

What is derived from a dataset is found by an index that only the recording of a dataset adds to.
`Indexed` says that it is exact. Every record that adding a graph makes has an identity that was not
recorded, and two of them never share one, so what the index is told stays true: nothing else
changes the sources of a record. An exact index follows from the records alone, and so a snapshot
gives the catalog back as it was.
-/

namespace DatasetCatalog

namespace Catalog

/-- The index has `id` among the datasets derived from `source`. -/
def Indexes (derived : OrderedMap Identity IdentitySet) (source id : Identity) : Prop :=
  ∃ ids, derived.find? source = some ids ∧ ids.contains id = true

/-- A source is in the index only if something is derived from it there. -/
def Populated (derived : OrderedMap Identity IdentitySet) : Prop :=
  ∀ {source : Identity} {ids : IdentitySet}, derived.find? source = some ids →
    ∃ id, ids.contains id = true

/-- The index holds what the records say and nothing else. -/
structure Indexed (c : Catalog) : Prop where
  exact : ∀ {source id : Identity}, Indexes c.derived source id ↔ c.Lists id source
  populated : Populated c.derived

/-- One of the records for `id` names `source` among its sources. -/
def Mentions (records : List StoredDataset) (id source : Identity) : Prop :=
  ∃ d ∈ records, d.id = id ∧ source ∈ d.sources.values

/-- The entries are those of the wanted datasets, once each and in ascending order. -/
structure Gathers (c : Catalog) (wanted : Identity → Prop) (es : List Entry) : Prop where
  ascending : (es.map Entry.id).Pairwise fun a b => compare a b = .lt
  entries : ∀ e ∈ es, c.get e.id = .ok e
  ids : ∀ {id : Identity}, id ∈ es.map Entry.id ↔ wanted id

/-! ## Building an index -/

section Building

variable {derived derived' : OrderedMap Identity IdentitySet} {source id other : Identity}

theorem not_indexes_empty : ¬ Indexes .empty source id := nofun

theorem indexes_addDerived {new : Identity} : Indexes (addDerived derived other new) source id ↔
    (source = other ∧ id = new) ∨ Indexes derived source id := by
  rw [Indexes, Indexes, addDerived]
  by_cases hsame : source = other
  · subst hsame
    simp only [OrderedMap.find?_insert_self, Option.some.injEq, exists_eq_left',
      OrderedMap.contains_insert, true_and]
    apply or_congr_right
    cases derived.find? source with
    | none => simp [OrderedMap.contains]
    | some ids => simp
  · rw [OrderedMap.find?_insert_of_ne _ _ hsame]
    simp [hsame]

theorem indexes_foldl_addDerived {sources : List Identity} {new : Identity} :
    Indexes (sources.foldl (fun derived s => addDerived derived s new) derived) source id ↔
      (id = new ∧ source ∈ sources) ∨ Indexes derived source id := by
  induction sources generalizing derived with
  | nil => simp
  | cons first sources ih =>
      rw [List.foldl_cons, ih, indexes_addDerived, List.mem_cons]
      grind

theorem populated_addDerived (h : Populated derived) (source id : Identity) :
    Populated (addDerived derived source id) := by
  intro other ids hids
  rw [addDerived, OrderedMap.find?_insert] at hids
  split at hids
  next =>
    cases hids
    exact ⟨id, OrderedMap.contains_insert.mpr (.inl rfl)⟩
  next => exact h hids

theorem populated_foldl_addDerived {sources : List Identity} {new : Identity}
    (h : Populated derived) :
    Populated (sources.foldl (fun derived s => addDerived derived s new) derived) := by
  induction sources generalizing derived with
  | nil => exact h
  | cons first sources ih => exact ih (populated_addDerived h first new)

/-- Two populated indexes that hold the same are the same. -/
theorem derived_ext (h : Populated derived) (h' : Populated derived')
    (hsame : ∀ source id, Indexes derived source id ↔ Indexes derived' source id) :
    derived = derived' := by
  apply OrderedMap.ext_find?
  intro source
  cases hids : derived.find? source with
  | none =>
      cases hids' : derived'.find? source with
      | none => rfl
      | some ids' =>
          obtain ⟨id, hid⟩ := h' hids'
          obtain ⟨ids, hfound, -⟩ := (hsame source id).mpr ⟨ids', hids', hid⟩
          cases hids.symm.trans hfound
  | some ids =>
      obtain ⟨id, hid⟩ := h hids
      obtain ⟨ids', hids', -⟩ := (hsame source id).mp ⟨ids, hids, hid⟩
      have hsets : ids = ids' := by
        apply OrderedMap.ext_contains
        intro id
        rw [Bool.eq_iff_iff]
        simpa [Indexes, hids, hids'] using hsame source id
      rw [hids', hsets]

end Building

/-! ## Recording datasets -/

variable {c c' : Catalog} {source id : Identity} {records : List StoredDataset}

theorem not_mentions_nil : ¬ Mentions [] id source := nofun

theorem mentions_cons {d : StoredDataset} : Mentions (d :: records) id source ↔
    (id = d.id ∧ source ∈ d.sources.values) ∨ Mentions records id source := by
  simp [Mentions, eq_comm]

/-- The index hears of what any of the records says. -/
theorem indexes_foldl_insert : Indexes (records.foldl insert c).derived source id ↔
    Mentions records id source ∨ Indexes c.derived source id := by
  induction records generalizing c with
  | nil => exact (or_iff_right not_mentions_nil).symm
  | cons d records ih =>
      rw [List.foldl_cons, ih, insert, indexes_foldl_addDerived, mentions_cons, or_left_comm,
        or_assoc]

theorem populated_foldl_insert (h : Populated c.derived) :
    Populated (records.foldl insert c).derived := by
  induction records generalizing c with
  | nil => exact h
  | cons d records ih => exact ih (populated_foldl_addDerived h)

/-- New records, no two of them for one identity, add to the lineage all that they say. -/
theorem lists_foldl_insert (hnew : ∀ d ∈ records, c.datasets.contains d.id = false)
    (hsame : ∀ d ∈ records, ∀ e ∈ records, d.id = e.id → d = e) :
    (records.foldl insert c).Lists id source ↔
      Mentions records id source ∨ c.Lists id source := by
  rw [Lists, Lists]
  rcases find?_foldl_insert records c id with ⟨d, hd, rfl, hfind⟩ | ⟨hnone, hfind⟩
  · rw [hfind]
    constructor
    · rintro ⟨_, ⟨⟩, hsource⟩
      exact .inl ⟨d, hd, rfl, hsource⟩
    · rintro (⟨e, he, hid, hsource⟩ | ⟨before, hbefore, -⟩)
      · cases hsame e he d hd hid
        exact ⟨d, rfl, hsource⟩
      · have hrecorded := OrderedMap.contains_iff.mpr ⟨before, hbefore⟩
        cases hrecorded.symm.trans (hnew d hd)
  · rw [hfind, or_iff_right]
    rintro ⟨d, hd, hid, -⟩
    exact hnone d hd hid

theorem Indexed.foldl_insert (h : c.Indexed)
    (hnew : ∀ d ∈ records, c.datasets.contains d.id = false)
    (hsame : ∀ d ∈ records, ∀ e ∈ records, d.id = e.id → d = e) :
    (records.foldl insert c).Indexed where
  exact := by
    intro source id
    rw [indexes_foldl_insert, lists_foldl_insert hnew hsame, h.exact]
  populated := populated_foldl_insert h.populated

/-- A catalog without datasets, whatever its products. -/
theorem indexed_of_products (products : List Product) :
    ({ empty with products } : Catalog).Indexed where
  exact := ⟨nofun, nofun⟩
  populated := nofun

theorem Indexed.of_sameSources (h : c.Indexed) (hsame : SameSources c c')
    (hderived : c'.derived = c.derived) : c'.Indexed where
  exact := by
    intro source id
    rw [hderived, hsame.lists_iff, h.exact]
  populated := by
    rw [hderived]
    exact h.populated

/-- The nodes of an ordered graph have different identities, and so have the records of them. -/
theorem Indexed.add (h : c.Indexed) {g : DatasetGraph} {withLineage : Bool} {now : Timestamp}
    (hordered : g.Ordered) (hadd : c.add g withLineage now = .ok c') : c'.Indexed := by
  obtain ⟨records, rfl, hrecords, -⟩ := records_of_add hadd
  apply h.foldl_insert
  · intro d hd
    exact (hrecords d hd).1
  · intro d hd e he hid
    -- Records for one identity were made of the node that has it, and there is only one.
    obtain ⟨-, k, n, hn, hnid, hrecord⟩ := hrecords d hd
    obtain ⟨-, k', n', hn', hnid', hrecord'⟩ := hrecords e he
    rw [hid] at hnid
    cases hordered.unique hn hn' hnid hnid'
    cases hn.symm.trans hn'
    rw [hrecord, hrecord', hid]

/-! ## Snapshots -/

theorem eq_of_mem_values {d e : StoredDataset} (hd : d ∈ c.datasets.values)
    (he : e ∈ c.datasets.values) (hid : d.id = e.id) : d = e := by
  obtain ⟨key, hkey⟩ := OrderedMap.mem_values_iff.mp hd
  obtain ⟨key', hkey'⟩ := OrderedMap.mem_values_iff.mp he
  rw [← c.keyed key d hkey, hid, c.keyed key' e hkey'] at hkey
  cases hkey.symm.trans hkey'
  rfl

/-- A catalog lists every dataset once in its snapshot. -/
theorem indexed_of_snapshot (h : (Snapshot.ofCatalog c).restore = .ok c') : c'.Indexed := by
  rw [restore_eq_ok h]
  apply (indexed_of_products c.products).foldl_insert
  · intro d hd
    rfl
  · intro d hd e he
    exact eq_of_mem_values hd he

/-- A snapshot gives the index back with the rest. -/
theorem Indexed.restore_ofCatalog (h : c.Indexed) (hregistered : c.Registered) :
    (Snapshot.ofCatalog c).restore = .ok c := by
  obtain ⟨c', hc', hproducts, hdatasets⟩ := restore_ofCatalog_of_registered hregistered
  have hindexed := indexed_of_snapshot hc'
  have hderived : c'.derived = c.derived := by
    apply derived_ext hindexed.populated h.populated
    intro source id
    rw [hindexed.exact, h.exact, Lists, Lists, hdatasets]
  rw [hc', ext_parts hproducts hdatasets hderived]

/-! ## Answers -/

theorem mem_ids_of_getDerived {es : List Entry} (h : c.getDerived source = .ok es) :
    id ∈ es.map Entry.id ↔ Indexes c.derived source id ∧ c.datasets.contains id = true := by
  rw [ids_of_getDerived h, List.mem_filter]
  apply and_congr_left'
  rw [Indexes]
  cases c.derived.find? source with
  | none => simp
  | some ids => simp [OrderedMap.mem_keys_iff, OrderedMap.contains_iff]

theorem ascending_of_getDerived {es : List Entry} (h : c.getDerived source = .ok es) :
    (es.map Entry.id).Pairwise fun a b => compare a b = .lt := by
  rw [ids_of_getDerived h]
  apply List.Pairwise.filter
  cases c.derived.find? source with
  | none => exact .nil
  | some ids => exact (OrderedMap.Entries.sorted_iff_keys ids.entries).mp ids.sorted

/-- What is derived from a source is gathered by the index, which holds recorded datasets only. -/
theorem Readable.gathers (h : c.Readable) {wanted : Identity → Prop}
    (hindex : ∀ id, Indexes c.derived source id ↔ wanted id)
    (hrecorded : ∀ id, wanted id → c.datasets.contains id = true) :
    ∃ es, c.getDerived source = .ok es ∧ c.Gathers wanted es := by
  obtain ⟨es, hes, hentries⟩ := h.getDerived source
  refine ⟨es, hes, ascending_of_getDerived hes, hentries, ?_⟩
  intro id
  rw [mem_ids_of_getDerived hes, hindex id, and_iff_left_iff_imp]
  exact hrecorded id

theorem contains_of_lists (h : c.Lists id source) : c.datasets.contains id = true := by
  obtain ⟨d, hd, -⟩ := h
  exact OrderedMap.contains_iff.mpr ⟨d, hd⟩

/-! ## Catalogs in use -/

theorem invariant_registered : Invariant (fun _ => True) (fun _ => True) Registered where
  empty := registered_empty
  resolved _ := trivial
  outcome w _ _ h hdone := h.outcome w hdone
  reopened _ hc := registered_of_restore hc

theorem invariant_indexed : Invariant DatasetGraph.Ordered (fun _ => True) Indexed where
  empty := indexed_of_products []
  resolved := Resolver.ordered_of_resolve
  outcome w hgraph _ h hdone := by
    rcases w.adds_or_sameSources hdone with ⟨g, withLineage, now, hg, hadd⟩ | ⟨hsame, hderived⟩
    · exact h.add (hgraph g hg) hadd
    · exact h.of_sameSources hsame hderived
  reopened _ hc := indexed_of_snapshot hc

end Catalog

namespace Session

/-- However a catalog is used, what it finds derived from a dataset is what lists it as a source,
once each and in ascending order, and a snapshot gives the catalog back as it is. -/
theorem derived_index_exact (actions : List Action) :
    (∀ source, ∃ es, (run actions).catalog.getDerived source = .ok es ∧
      (run actions).catalog.Gathers (fun id => (run actions).catalog.Lists id source) es) ∧
      (Snapshot.ofCatalog (run actions).catalog).restore = .ok (run actions).catalog := by
  have hindexed := invariant_run Catalog.invariant_indexed actions
  have hregistered := invariant_run Catalog.invariant_registered actions
  refine ⟨?_, hindexed.restore_ofCatalog hregistered⟩
  intro source
  apply hregistered.readable.gathers
  · exact fun id => hindexed.exact
  · exact fun id => Catalog.contains_of_lists

/-- The layer above is what is derived from the one below. -/
example :
    ((run [.addProduct layerProduct, .resolve layerResolver layers "layers",
      .add 0 true default]).catalog.getDerived ⟨0x22222222222222222222222222222222⟩).toOption.map
        (List.map Entry.id) = some [⟨0x11111111111111111111111111111111⟩] := by
  rfl

end Session

end DatasetCatalog
