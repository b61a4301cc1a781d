import DatasetCatalog.Catalog.Snapshot
import DatasetCatalog.Proofs.Outcome

/-!
# What a successful catalog operation has done

One statement for each operation that can fail: which checks it passed and which catalog it gave.
Later proofs take these apart and never unfold the operations themselves.
-/

namespace DatasetCatalog

namespace Dataset

variable (d : Dataset) (stored : StoredDataset)

/-- What an update by the dataset makes of its record. -/
def revise : StoredDataset := d.uris.foldl Catalog.activate { stored with metadata := d.metadata }

@[simp] theorem id_revise : (d.revise stored).id = stored.id :=
  Catalog.foldl_activate_field StoredDataset.id (fun _ _ => rfl) d.uris _

@[simp] theorem product_revise : (d.revise stored).product = stored.product :=
  Catalog.foldl_activate_field StoredDataset.product (fun _ _ => rfl) d.uris _

@[simp] theorem metadata_revise : (d.revise stored).metadata = d.metadata :=
  Catalog.foldl_activate_field StoredDataset.metadata (fun _ _ => rfl) d.uris _

@[simp] theorem sources_revise : (d.revise stored).sources = stored.sources :=
  Catalog.foldl_activate_field StoredDataset.sources (fun _ _ => rfl) d.uris _

@[simp] theorem archived_revise : (d.revise stored).archived = stored.archived :=
  Catalog.foldl_activate_field StoredDataset.archived (fun _ _ => rfl) d.uris _

@[simp] theorem indexed_revise : (d.revise stored).indexed = stored.indexed :=
  Catalog.foldl_activate_field StoredDataset.indexed (fun _ _ => rfl) d.uris _

end Dataset

namespace Catalog

variable {c c' : Catalog}

theorem ext_parts (hproducts : c.products = c'.products) (hdatasets : c.datasets = c'.datasets)
    (hderived : c.derived = c'.derived) : c = c' := by
  cases c
  cases c'
  cases hproducts
  cases hdatasets
  cases hderived
  rfl

theorem product?_name {name : String} {p : Product} (h : c.product? name = some p) :
    p.name = name := by
  simpa using List.find?_some h

theorem entry_eq_ok {d : StoredDataset} {e : Entry} (h : c.entry d = .ok e) :
    ∃ product, c.product? d.product = some product ∧
      e = { id := d.id, product, metadata := d.metadata, locations := d.locations
            sources := d.sources, archived := d.archived, indexed := d.indexed } := by
  rw [entry] at h
  split at h
  next => cases h
  next product hproduct =>
    cases h
    exact ⟨product, hproduct, rfl⟩

theorem entry_id {d : StoredDataset} {e : Entry} (h : c.entry d = .ok e) : e.id = d.id := by
  obtain ⟨product, -, rfl⟩ := entry_eq_ok h
  rfl

theorem get?_eq_some {id : Identity} {e : Entry} (h : c.get? id = .ok (some e)) :
    ∃ d, c.datasets.find? id = some d ∧ c.entry d = .ok e := by
  rw [get?] at h
  split at h
  next => cases h
  next d hd =>
    obtain ⟨e', he, ⟨⟩⟩ := map_eq_ok.mp h
    exact ⟨d, hd, he⟩

theorem get?_of_entry {id : Identity} {stored : StoredDataset} {e : Entry}
    (hstored : c.datasets.find? id = some stored) (he : c.entry stored = .ok e) :
    c.get? id = .ok (some e) := by
  rw [get?, hstored]
  exact map_eq_ok.mpr ⟨e, he, rfl⟩

theorem isSome_of_get? {id : Identity} {found : Option Entry} (h : c.get? id = .ok found) :
    found.isSome = c.datasets.contains id := by
  rw [OrderedMap.contains]
  rw [get?] at h
  split at h
  next hnone =>
    cases h
    rw [hnone]
    rfl
  next d hd =>
    obtain ⟨e, -, rfl⟩ := map_eq_ok.mp h
    rw [hd]
    rfl

theorem get_eq_ok {id : Identity} {e : Entry} (h : c.get id = .ok e) :
    ∃ d, c.datasets.find? id = some d ∧ c.entry d = .ok e := by
  obtain ⟨found, hfound, h⟩ := bind_eq_ok.mp h
  cases found with
  | none => cases h
  | some e' =>
      cases h
      exact get?_eq_some hfound

theorem get_of_entry {id : Identity} {stored : StoredDataset} {e : Entry}
    (hstored : c.datasets.find? id = some stored) (he : c.entry stored = .ok e) :
    c.get id = .ok e :=
  bind_eq_ok.mpr ⟨some e, get?_of_entry hstored he, rfl⟩

theorem id_of_get {id : Identity} {e : Entry} (h : c.get id = .ok e) : e.id = id := by
  obtain ⟨d, hd, hentry⟩ := get_eq_ok h
  exact (entry_id hentry).trans (c.keyed id d hd)

theorem contains_of_get {id : Identity} {e : Entry} (h : c.get id = .ok e) :
    c.datasets.contains id = true := by
  obtain ⟨d, hd, -⟩ := get_eq_ok h
  exact OrderedMap.contains_iff.mpr ⟨d, hd⟩

/-- Asking for many datasets at once is asking for each of them. -/
theorem get?_of_bulkGet {ids : List Identity} {known : OrderedMap Identity Entry}
    (h : c.bulkGet ids = .ok known) {id : Identity} (hid : id ∈ ids) :
    c.get? id = .ok (known.find? id) := by
  obtain ⟨entries, hentries, hknown⟩ := bind_eq_ok.mp h
  cases hknown
  rw [mapM_eq_ok] at hentries
  -- Every entry that is found has the identity of its record.
  have hsound : ∀ e ∈ entries, c.get? e.id = .ok (some e) := by
    intro e he
    obtain ⟨d, hd, hentry⟩ := exists_of_mem_right hentries he
    obtain ⟨id', _, hd⟩ := List.mem_filterMap.mp hd
    rw [entry_id hentry, c.keyed id' d hd, get?, hd]
    simp [hentry, Except.map]
  cases hfind : (OrderedMap.ofList (entries.map fun e => (e.id, e))).find? id with
  | some e =>
      obtain ⟨e', he', heq⟩ := List.mem_map.mp (OrderedMap.mem_of_find?_ofList hfind)
      cases heq
      exact hsound e he'
  | none =>
      rw [get?]
      split
      next => rfl
      next d hd =>
        obtain ⟨e, he, hentry⟩ :=
          exists_of_mem_left hentries (List.mem_filterMap.mpr ⟨id, hid, hd⟩)
        have hpair : (id, e) ∈ entries.map fun e => (e.id, e) := by
          refine List.mem_map.mpr ⟨e, he, ?_⟩
          rw [entry_id hentry, c.keyed id d hd]
        obtain ⟨_, hsome⟩ := OrderedMap.mem_keys_iff.mp (OrderedMap.mem_keys_ofList.mpr ⟨e, hpair⟩)
        cases hsome.symm.trans hfind

/-- When each of them can be asked for, so can all at once. -/
theorem exists_bulkGet {ids : List Identity} (h : ∀ id ∈ ids, ∃ found, c.get? id = .ok found) :
    ∃ known, c.bulkGet ids = .ok known := by
  have hentry : ∀ stored ∈ ids.filterMap c.datasets.find?, ∃ e, c.entry stored = .ok e := by
    intro stored hmem
    obtain ⟨id, hid, hstored⟩ := List.mem_filterMap.mp hmem
    obtain ⟨found, hfound⟩ := h id hid
    rw [get?, hstored] at hfound
    obtain ⟨e, he, -⟩ := map_eq_ok.mp hfound
    exact ⟨e, he⟩
  obtain ⟨entries, hentries⟩ := exists_mapM_ok hentry
  exact ⟨_, bind_eq_ok.mpr ⟨entries, hentries, rfl⟩⟩

theorem addProduct_eq_ok {p p' : Product} {events : List Event}
    (h : c.addProduct p = .ok (c', p', events)) :
    c' = c ∨ (c.product? p.name = none ∧ c' = { c with products := c.products ++ [p] }) := by
  rw [addProduct] at h
  split at h
  next =>
    split at h
    next =>
      cases h
      exact .inl rfl
    next => cases h
  next hnew =>
    cases h
    exact .inr ⟨hnew, rfl⟩

/-- A node is either recorded already or gets a record; only the root's record is never skipped. -/
theorem pending_eq_ok {g : DatasetGraph} {withLineage : Bool} {now : Timestamp} {root : Identity}
    {d : Dataset} {i : Nat} {pending : Option StoredDataset}
    (h : c.pending g withLineage now root d i = .ok pending) :
    ∃ id, d.id = some id ∧
      ((pending = none ∧ c.datasets.contains id = true) ∨
        (pending = some (record g d id now) ∧
          (i = g.root ∨ c.datasets.contains id = false))) := by
  rw [Catalog.pending] at h
  split at h
  next => cases h
  next id hid =>
    refine ⟨id, hid, ?_⟩
    split at h
    next hrecorded =>
      cases h
      exact .inl ⟨rfl, hrecorded.2⟩
    next hrecorded =>
      split at h
      next => cases h
      next =>
        split at h
        next => cases h
        next =>
          cases h
          refine .inr ⟨rfl, ?_⟩
          by_cases hroot : i = g.root
          · exact .inl hroot
          · exact .inr (Bool.eq_false_iff.mpr fun hmem => hrecorded ⟨hroot, hmem⟩)

/-- Whatever gets a record has a registered product. -/
theorem product?_of_pending {g : DatasetGraph} {withLineage : Bool} {now : Timestamp}
    {root : Identity} {d : Dataset} {i : Nat} {r : StoredDataset}
    (h : c.pending g withLineage now root d i = .ok (some r)) :
    ∃ p, c.product? r.product = some p := by
  rw [Catalog.pending] at h
  split at h
  next => cases h
  next =>
    split at h
    next => cases h
    next =>
      split at h
      next => cases h
      next =>
        split at h
        next => cases h
        next p hp =>
          cases h
          exact ⟨p, hp⟩

theorem add_eq_ok {g : DatasetGraph} {withLineage : Bool} {now : Timestamp}
    (h : c.add g withLineage now = .ok c') :
    ∃ root records, g.rootDataset.id = some root ∧ c.datasets.contains root = false ∧
      List.Forall₂ (fun n pending => c.pending g withLineage now root n.1 n.2 = .ok pending)
        g.nodes.zipIdx records ∧
      c' = (records.filterMap fun pending => pending).foldl insert c := by
  rw [add] at h
  split at h
  next => cases h
  next root hroot =>
    split at h
    next => cases h
    next hnew =>
      obtain ⟨records, hrecords, ⟨⟩⟩ := bind_eq_ok.mp h
      exact ⟨root, records, hroot, Bool.eq_false_iff.mpr hnew, mapM_eq_ok.mp hrecords, rfl⟩

theorem datasets_foldl_insert (records : List StoredDataset) (c : Catalog) :
    (records.foldl insert c).datasets =
      (records.map fun d => (d.id, d)).foldl (fun m p => m.insert p.1 p.2) c.datasets := by
  induction records generalizing c with
  | nil => rfl
  | cons d records ih => exact ih (c.insert d)

theorem products_foldl_insert (records : List StoredDataset) (c : Catalog) :
    (records.foldl insert c).products = c.products := by
  induction records generalizing c with
  | nil => rfl
  | cons d records ih => exact ih (c.insert d)

/-- Of the records given an identity one is found there, and without any what was there before. -/
theorem find?_foldl_insert (records : List StoredDataset) (c : Catalog) (id : Identity) :
    (∃ d ∈ records, d.id = id ∧ (records.foldl insert c).datasets.find? id = some d) ∨
      ((∀ d ∈ records, d.id ≠ id) ∧
        (records.foldl insert c).datasets.find? id = c.datasets.find? id) := by
  rw [datasets_foldl_insert]
  by_cases hmem : ∃ d ∈ records, d.id = id
  · obtain ⟨d, hd, hid⟩ := hmem
    have hpair : ∃ p ∈ records.map fun d => (d.id, d), p.1 = id :=
      ⟨(d.id, d), List.mem_map.mpr ⟨d, hd, rfl⟩, hid⟩
    obtain ⟨e, he, hfind⟩ := OrderedMap.find?_foldl_insert_of_mem c.datasets hpair
    obtain ⟨_, he', ⟨⟩⟩ := List.mem_map.mp he
    exact .inl ⟨e, he', rfl, hfind⟩
  · have hne : ∀ d ∈ records, d.id ≠ id := fun d hd hid => hmem ⟨d, hd, hid⟩
    refine .inr ⟨hne, OrderedMap.find?_foldl_insert_of_ne c.datasets ?_⟩
    intro p hp
    obtain ⟨d, hd, rfl⟩ := List.mem_map.mp hp
    exact hne d hd

theorem product?_of_add {g : DatasetGraph} {withLineage : Bool} {now : Timestamp}
    (h : c.add g withLineage now = .ok c') (name : String) :
    c'.product? name = c.product? name := by
  obtain ⟨root, records, -, -, -, rfl⟩ := add_eq_ok h
  rw [product?, product?, products_foldl_insert]

/-- A record that adding a graph makes has a registered product. -/
theorem registered_of_add {g : DatasetGraph} {withLineage : Bool} {now : Timestamp}
    (h : c.add g withLineage now = .ok c') {id : Identity} {stored : StoredDataset}
    (hstored : c'.datasets.find? id = some stored) :
    c.datasets.find? id = some stored ∨ ∃ p, c'.product? stored.product = some p := by
  obtain ⟨root, pendings, -, -, hpendings, hc⟩ := add_eq_ok h
  rw [product?_of_add h]
  rw [hc] at hstored
  rcases find?_foldl_insert (pendings.filterMap fun pending => pending) c id with
    ⟨e, he, -, hfind⟩ | ⟨-, hfind⟩
  · cases hfind.symm.trans hstored
    obtain ⟨pending, hmem, rfl⟩ := List.mem_filterMap.mp he
    obtain ⟨n, -, hpending⟩ := exists_of_mem_right hpendings hmem
    exact .inr (product?_of_pending hpending)
  · exact .inl (hfind.symm.trans hstored)

/-- Restoring a snapshot records its datasets one after the other, all of whose products it must
have. -/
theorem restore_eq_ok_iff {s : Snapshot} : s.restore = .ok c' ↔
    (∀ d ∈ s.datasets, ∃ p,
      ({ empty with products := s.products } : Catalog).product? d.product = some p) ∧
      c' = s.datasets.foldl insert { empty with products := s.products } := by
  have hfold : ∀ (ds : List StoredDataset) (c : Catalog),
      ds.foldlM Snapshot.insertRegistered c = .ok c' ↔
        (∀ d ∈ ds, ∃ p, c.product? d.product = some p) ∧ c' = ds.foldl insert c := by
    intro ds
    induction ds with
    | nil =>
        intro c
        constructor
        · rintro ⟨⟩
          exact ⟨nofun, rfl⟩
        · rintro ⟨-, rfl⟩
          rfl
    | cons d ds ih =>
        intro c
        rw [List.foldlM_cons, List.forall_mem_cons, Snapshot.insertRegistered]
        cases hd : c.product? d.product with
        | none =>
            constructor
            · intro h
              cases h
            · rintro ⟨⟨⟨p, hp⟩, -⟩, -⟩
              cases hp
        | some p =>
            -- Recording a dataset leaves the products as they are.
            have hrest := ih (c.insert d)
            constructor
            · intro h
              obtain ⟨hds, hc'⟩ := hrest.mp h
              exact ⟨⟨⟨p, rfl⟩, hds⟩, hc'⟩
            · intro h
              exact hrest.mpr ⟨h.1.2, h.2⟩
  exact hfold s.datasets _

theorem restore_eq_ok {s : Snapshot} (h : s.restore = .ok c') :
    c' = s.datasets.foldl insert { empty with products := s.products } :=
  (restore_eq_ok_iff.mp h).2

/-- A text that is opened is read as a snapshot of the current version, which is restored. -/
theorem ofSnapshot?_eq_ok {text : String} (h : ofSnapshot? text = .ok c) :
    ∃ s, (Json.Tree.read? text).bind Snapshot.read? = some s ∧
      s.version = Snapshot.currentVersion ∧ s.restore = .ok c := by
  rw [ofSnapshot?] at h
  split at h
  next => cases h
  next s hread =>
    split at h
    next => cases h
    next hversion => exact ⟨s, hread, not_not.mp hversion, h⟩

theorem canUpdate_eq_ok {d : Dataset} {rules : ChangeRules} {changes : ClassifiedChanges}
    (h : c.canUpdate d rules = .ok changes) :
    ∃ id before, d.id = some id ∧ c.datasets.find? id = some before ∧
      before.product = d.product.name ∧
      changes = rules.classify (before.metadata.changes d.metadata) := by
  rw [canUpdate] at h
  split at h
  next => cases h
  next id hid =>
    obtain ⟨existing, hget, h⟩ := bind_eq_ok.mp h
    obtain ⟨before, hbefore, hentry⟩ := get_eq_ok hget
    obtain ⟨product, hproduct, rfl⟩ := entry_eq_ok hentry
    split at h
    next => cases h
    next hname =>
      cases h
      refine ⟨id, before, hid, hbefore, ?_, rfl⟩
      rw [← product?_name hproduct]
      exact not_not.mp hname

/-- An update revises one record, whose changes the rules allow. -/
theorem update_eq_ok {d : Dataset} {rules : ChangeRules} (h : c.update d rules = .ok c') :
    ∃ id before, d.id = some id ∧ c.datasets.find? id = some before ∧
      before.product = d.product.name ∧
      (∀ change ∈ before.metadata.changes d.metadata, rules.allows change = true) ∧
      c' = c.adjust id d.revise d.id_revise := by
  obtain ⟨changes, hchanges, h⟩ := bind_eq_ok.mp h
  obtain ⟨id, before, hid, hbefore, hproduct, rfl⟩ := canUpdate_eq_ok hchanges
  split at h
  next => cases h
  next hsafe =>
    rw [hid] at h
    cases h
    refine ⟨id, before, hid, hbefore, hproduct, ?_, rfl⟩
    simpa [ClassifiedChanges.isSafe, ChangeRules.classify] using hsafe

theorem adjustAll_eq_ok {ids : List Identity} {f : StoredDataset → StoredDataset}
    {hf : ∀ d, (f d).id = d.id} (h : c.adjustAll ids f hf = .ok c') :
    (∀ id ∈ ids, c.datasets.contains id = true) ∧
      c' = ids.foldl (fun c id => c.adjust id f hf) c := by
  rw [adjustAll] at h
  split at h
  next => cases h
  next hnone =>
    cases h
    refine ⟨fun id hid => ?_, rfl⟩
    simpa using List.find?_eq_none.mp hnone id hid

theorem products_adjustAll {ids : List Identity} {f : StoredDataset → StoredDataset}
    {hf : ∀ d, (f d).id = d.id} (h : c.adjustAll ids f hf = .ok c') : c'.products = c.products := by
  obtain ⟨-, rfl⟩ := adjustAll_eq_ok h
  clear h
  induction ids generalizing c with
  | nil => rfl
  | cons id ids ih => exact ih

theorem derived_adjustAll {ids : List Identity} {f : StoredDataset → StoredDataset}
    {hf : ∀ d, (f d).id = d.id} (h : c.adjustAll ids f hf = .ok c') : c'.derived = c.derived := by
  obtain ⟨-, rfl⟩ := adjustAll_eq_ok h
  clear h
  induction ids generalizing c with
  | nil => rfl
  | cons id ids ih => exact ih

theorem find?_adjust_of_ne (c : Catalog) {id other : Identity} {f : StoredDataset → StoredDataset}
    {hf : ∀ d, (f d).id = d.id} (hne : other ≠ id) :
    (c.adjust id f hf).datasets.find? other = c.datasets.find? other := by
  rw [datasets_adjust, OrderedMap.find?_adjust, if_neg]
  exact fun hsame => hne (Std.LawfulEqOrd.eq_of_compare hsame)

theorem find?_of_adjust {id other : Identity} {f : StoredDataset → StoredDataset}
    {hf : ∀ d, (f d).id = d.id} {after : StoredDataset}
    (h : (c.adjust id f hf).datasets.find? other = some after) :
    ∃ before, c.datasets.find? other = some before ∧
      ((other = id ∧ after = f before) ∨ (other ≠ id ∧ after = before)) := by
  rw [datasets_adjust, OrderedMap.find?_adjust] at h
  split at h
  next hsame =>
    obtain ⟨before, hbefore, rfl⟩ := Option.map_eq_some_iff.mp h
    exact ⟨before, hbefore, .inl ⟨Std.LawfulEqOrd.eq_of_compare hsame, rfl⟩⟩
  next hother =>
    refine ⟨after, h, .inr ⟨?_, rfl⟩⟩
    rintro rfl
    exact hother Std.ReflOrd.compare_self

theorem archiveLocation_eq_ok {id : Identity} {uri : String} {changed : Bool}
    (h : c.archiveLocation id uri = .ok (c', changed)) :
    ∃ before, c.datasets.find? id = some before ∧ changed = before.locations.contains uri ∧
      c' = c.adjust id (retire uri) fun _ => rfl := by
  rw [archiveLocation] at h
  split at h
  next => cases h
  next before hbefore =>
    cases h
    exact ⟨before, hbefore, rfl, rfl⟩

theorem removeLocation_eq_ok {id : Identity} {uri : String} {changed : Bool}
    (h : c.removeLocation id uri = .ok (c', changed)) :
    ∃ before, c.datasets.find? id = some before ∧
      changed = (before.locations.contains uri || before.archivedLocations.contains uri) ∧
      c' = c.adjust id (forget uri) fun _ => rfl := by
  rw [removeLocation] at h
  split at h
  next => cases h
  next before hbefore =>
    cases h
    exact ⟨before, hbefore, rfl, rfl⟩

end Catalog

end DatasetCatalog
