import DatasetCatalog.Catalog.InPlace
import DatasetCatalog.Proofs.Catalog.Update
import DatasetCatalog.Proofs.OrderedMap

/-!
# Refused writes

An operation on a shared catalog could leave some of its writes behind when it fails. None does:
each does to the shared catalog what it does as a function, all of its writes if it succeeds and
none of them if it fails. The reason is the same for all: no write follows a check that can still
fail, because the checks made before the first write are enough for all that come later.
-/

namespace DatasetCatalog

variable {α β : Type}

namespace Catalog

theorem contains_adjust (c : Catalog) (id other : Identity) {f : StoredDataset → StoredDataset}
    (hf : ∀ d, (f d).id = d.id) :
    (c.adjust id f hf).datasets.contains other = c.datasets.contains other := by
  rw [datasets_adjust, OrderedMap.contains, OrderedMap.find?_adjust]
  split
  next => exact Option.isSome_map
  next => rfl

/-- Two writes to one record are one. -/
theorem adjust_adjust (c : Catalog) (id : Identity) {f g : StoredDataset → StoredDataset}
    (hf : ∀ d, (f d).id = d.id) (hg : ∀ d, (g d).id = d.id) :
    (c.adjust id f hf).adjust id g hg =
      c.adjust id (fun d => g (f d)) fun d => (hg (f d)).trans (hf d) := by
  simp only [adjust, OrderedMap.adjust_adjust]

theorem id_activate (d : StoredDataset) (uri : String) : (activate d uri).id = d.id := rfl

/-- The locations that an update makes active one by one, written at once with its first write. -/
theorem foldl_adjust_activate (c : Catalog) (id : Identity) (uris : List String)
    {f : StoredDataset → StoredDataset} (hf : ∀ d, (f d).id = d.id) :
    uris.foldl (fun c uri => c.adjust id (fun d => activate d uri) fun _ => rfl)
        (c.adjust id f hf) =
      c.adjust id (fun d => uris.foldl activate (f d)) fun d =>
        (foldl_activate_field StoredDataset.id (fun _ _ => rfl) uris (f d)).trans (hf d) := by
  induction uris generalizing f with
  | nil => rfl
  | cons uri uris ih =>
      have hstep := adjust_adjust c id hf fun d => id_activate d uri
      exact (congrArg (uris.foldl _) hstep).trans (ih _)

theorem adjust_congr {c : Catalog} {id : Identity} {d : StoredDataset}
    (h : c.datasets.find? id = some d) {f g : StoredDataset → StoredDataset}
    (hf : ∀ d, (f d).id = d.id) (hg : ∀ d, (g d).id = d.id) (hfg : f d = g d) :
    c.adjust id f hf = c.adjust id g hg := by
  simp only [adjust, OrderedMap.adjust_congr h hfg]

theorem find?_adjust_self {c : Catalog} {id : Identity} {d : StoredDataset}
    {f : StoredDataset → StoredDataset} {hf : ∀ d, (f d).id = d.id}
    (h : c.datasets.find? id = some d) : (c.adjust id f hf).datasets.find? id = some (f d) := by
  rw [datasets_adjust, OrderedMap.find?_adjust, if_pos Std.ReflOrd.compare_self, h]
  rfl

end Catalog

namespace InPlace

/-- All of an outcome's writes if it is a success, otherwise the catalog as it was. -/
def settle (c : Catalog) : Except CatalogError (Catalog × α) → Except CatalogError α × Catalog
  | .ok (c', a) => (.ok a, c')
  | .error e => (.error e, c)

/-! ## Steps -/

variable {c c' : Catalog}

@[simp] theorem result_pure (a : α) : (pure a : InPlace α).result c = (.ok a, c) := rfl

@[simp] theorem result_throw (e : CatalogError) :
    (throw e : InPlace α).result c = (.error e, c) := rfl

@[simp] theorem result_check (test : Catalog → Except CatalogError α) :
    (check test).result c = (test c, c) := rfl

@[simp] theorem result_modify (f : Catalog → Catalog) :
    (modify f : InPlace Unit).result c = (.ok (), f c) := rfl

@[simp] theorem result_write (id : Identity) (f : StoredDataset → StoredDataset)
    (hf : ∀ d, (f d).id = d.id) : (write id f hf).result c = (.ok (), c.adjust id f hf) := rfl

theorem result_get_bind (f : Catalog → InPlace α) :
    (get >>= f : InPlace α).result c = (f c).result c := rfl

theorem result_bind_ok {step : InPlace α} {f : α → InPlace β} {a : α}
    (h : step.result c = (.ok a, c')) : (step >>= f).result c = (f a).result c' := by
  simp only [result, ExceptT.run_bind, StateT.run_bind] at h ⊢
  rw [h]
  rfl

theorem result_bind_error {step : InPlace α} {f : α → InPlace β} {e : CatalogError}
    (h : step.result c = (.error e, c')) : (step >>= f).result c = (.error e, c') := by
  simp only [result, ExceptT.run_bind, StateT.run_bind] at h ⊢
  rw [h]
  rfl

theorem result_stored {id : Identity} {d : StoredDataset} (h : c.datasets.find? id = some d) :
    (stored id).result c = (.ok d, c) := by
  rw [stored, result_check, h]

theorem result_stored_none {id : Identity} (h : c.datasets.find? id = none) :
    (stored id).result c = (.error (.notFound id), c) := by
  rw [stored, result_check, h]

/-- A run of checks is decided by the catalog as it is before the first of them. -/
theorem result_mapM_check (test : β → Catalog → Except CatalogError α) (xs : List β) :
    (xs.mapM fun x => check (test x)).result c = (xs.mapM fun x => test x c, c) := by
  induction xs with
  | nil => rfl
  | cons x xs ih =>
      rw [List.mapM_cons, List.mapM_cons]
      cases hx : test x c with
      | error e => exact result_bind_error (by rw [result_check, hx])
      | ok a =>
          have hfirst : (check (test x)).result c = (.ok a, c) := by rw [result_check, hx]
          rw [result_bind_ok hfirst]
          cases hxs : xs.mapM fun x => test x c with
          | error e => exact result_bind_error (by rw [ih, hxs])
          | ok as => exact result_bind_ok (by rw [ih, hxs])

theorem result_forM_modify (f : β → Catalog → Catalog) (xs : List β) :
    (xs.forM fun x => (modify (f x) : InPlace Unit)).result c =
      (.ok (), xs.foldl (fun c x => f x c) c) := by
  induction xs generalizing c with
  | nil => rfl
  | cons x xs ih => exact (result_bind_ok (result_modify (f x))).trans ih

/-- Writes to records that are all there succeed: no write removes a record. -/
theorem result_writeEach {ids : List Identity} {f : StoredDataset → StoredDataset}
    {hf : ∀ d, (f d).id = d.id} (h : ∀ id ∈ ids, c.datasets.contains id = true) :
    (writeEach ids f hf).result c = (.ok (), ids.foldl (fun c id => c.adjust id f hf) c) := by
  induction ids generalizing c with
  | nil => rfl
  | cons id ids ih =>
      obtain ⟨d, hd⟩ := OrderedMap.contains_iff.mp (h id List.mem_cons_self)
      have hstep : (do let _ ← stored id; write id f hf : InPlace Unit).result c =
          (.ok (), c.adjust id f hf) :=
        result_bind_ok (result_stored hd)
      refine (result_bind_ok hstep).trans (ih fun other hother => ?_)
      rw [Catalog.contains_adjust]
      exact h other (List.mem_cons_of_mem _ hother)

/-! ## Operations -/

theorem result_addProduct (p : Product) (c : Catalog) :
    (addProduct p).result c = settle c (c.addProduct p) := by
  rw [addProduct, result_get_bind, Catalog.addProduct]
  cases c.product? p.name with
  | none => rfl
  | some existing =>
      cases hsame : existing.identical p with
      | true => simp [settle, hsame]
      | false => simp [settle, hsame]

/-- Everything that is added is settled before the first record is written. -/
theorem result_add (g : DatasetGraph) (withLineage : Bool) (now : Timestamp) (c : Catalog) :
    (add g withLineage now).result c = settle c ((c.add g withLineage now).map (·, ())) := by
  rw [add, Catalog.add]
  cases g.rootDataset.id with
  | none => rfl
  | some root =>
      simp only [result_get_bind]
      cases c.datasets.contains root with
      | true => rfl
      | false =>
          have hchecks := result_mapM_check (c := c)
            (fun n c => c.pending g withLineage now root n.1 n.2) g.nodes.zipIdx
          cases hrecords : g.nodes.zipIdx.mapM
              fun n => c.pending g withLineage now root n.1 n.2 with
          | error e =>
              rw [hrecords] at hchecks
              exact result_bind_error hchecks
          | ok records =>
              rw [hrecords] at hchecks
              exact (result_bind_ok hchecks).trans (result_forM_modify (fun d c => c.insert d) _)

/-- The record that the update writes to is the one that its check has found. -/
theorem result_update (d : Dataset) (rules : ChangeRules) (c : Catalog) :
    (update d rules).result c = settle c ((c.update d rules).map (·, ())) := by
  rw [update, Catalog.update]
  cases hchanges : c.canUpdate d rules with
  | error e => exact result_bind_error (by rw [result_check, hchanges])
  | ok changes =>
      obtain ⟨id, before, hid, hbefore, -, -⟩ := Catalog.canUpdate_eq_ok hchanges
      have hcheck : (check fun c => c.canUpdate d rules).result c = (.ok changes, c) := by
        rw [result_check, hchanges]
      rw [result_bind_ok hcheck, hid]
      change _ = settle c (Except.map _ (if !changes.isSafe then _ else _))
      cases changes.isSafe with
      | false => rfl
      | true =>
          have hfirst := result_write id (fun stored => { stored with metadata := d.metadata })
            (fun _ => rfl) (c := c)
          refine (result_bind_ok (result_stored hbefore)).trans ((result_bind_ok hfirst).trans ?_)
          have hlocations := Catalog.foldl_adjust_activate c id d.uris
            (f := fun stored => { stored with metadata := d.metadata }) fun _ => rfl
          exact (result_forM_modify _ d.uris).trans (congrArg (Prod.mk _) hlocations)

/-- What is archived or restored is all there before the first of it is. -/
theorem result_adjustAll (ids : List Identity) (f : StoredDataset → StoredDataset)
    (hf : ∀ d, (f d).id = d.id) (c : Catalog) :
    (do requireAll ids; writeEach ids f hf : InPlace Unit).result c =
      settle c ((c.adjustAll ids f hf).map (·, ())) := by
  have hcheck : (requireAll ids).result c = (_, c) := result_check _
  rw [Catalog.adjustAll]
  cases hunknown : c.firstUnknown? ids with
  | some id =>
      rw [hunknown] at hcheck
      exact result_bind_error hcheck
  | none =>
      rw [hunknown] at hcheck
      refine (result_bind_ok hcheck).trans (result_writeEach fun id hid => ?_)
      simpa using List.find?_eq_none.mp hunknown id hid

theorem length_filter_ne (uri : String) (locations : List String) :
    (locations.filter (· ≠ uri)).length = locations.length ↔ uri ∉ locations := by
  rw [List.length_filter_eq_length_iff]
  constructor
  · intro h hmem
    simpa using h uri hmem
  · intro h other hother
    have hne : other ≠ uri := fun hsame => h (hsame ▸ hother)
    simpa using hne

theorem length_filter_ne_add (uri : String) (active archived : List String) :
    (active.filter (· ≠ uri)).length + (archived.filter (· ≠ uri)).length ≠
      active.length + archived.length ↔ uri ∈ active ∨ uri ∈ archived := by
  have hactive := not_congr (length_filter_ne uri active)
  have harchived := not_congr (length_filter_ne uri archived)
  have hle := List.length_filter_le (· ≠ uri) active
  have hle' := List.length_filter_le (· ≠ uri) archived
  rw [not_not] at hactive harchived
  rw [← hactive, ← harchived]
  omega

theorem result_archiveLocation (id : Identity) (uri : String) (c : Catalog) :
    (archiveLocation id uri).result c = settle c (c.archiveLocation id uri) := by
  rw [archiveLocation, Catalog.archiveLocation]
  cases hd : c.datasets.find? id with
  | none => exact result_bind_error (result_stored_none hd)
  | some d =>
      rw [result_bind_ok (result_stored hd), result_bind_ok (result_write id _ _),
        result_bind_ok (result_stored (Catalog.find?_adjust_self hd))]
      by_cases hactive : uri ∈ d.locations
      · rw [if_neg (by simpa only [length_filter_ne, not_not] using hactive),
          result_bind_ok (result_write id _ _), result_pure, Catalog.adjust_adjust,
          Catalog.adjust_congr hd (g := Catalog.retire uri) _ fun _ => rfl]
        · simp [settle, hactive]
        · simp [Catalog.retire, hactive]
      · rw [if_pos ((length_filter_ne uri d.locations).mpr hactive), result_pure,
          Catalog.adjust_congr hd (g := Catalog.retire uri) _ fun _ => rfl]
        · simp [settle, hactive]
        · simp [Catalog.retire, hactive]

theorem result_removeLocation (id : Identity) (uri : String) (c : Catalog) :
    (removeLocation id uri).result c = settle c (c.removeLocation id uri) := by
  rw [removeLocation, Catalog.removeLocation]
  cases hd : c.datasets.find? id with
  | none => exact result_bind_error (result_stored_none hd)
  | some d =>
      rw [result_bind_ok (result_stored hd), result_bind_ok (result_write id _ _),
        result_bind_ok (result_write id _ _), Catalog.adjust_adjust,
        result_bind_ok (result_stored (Catalog.find?_adjust_self hd)), result_pure]
      refine Prod.ext ?_ rfl
      simp only [length_filter_ne_add]
      simp [settle]

end InPlace

namespace Catalog

/-- An operation does to a shared catalog what it does as a function. -/
theorem Write.result_inPlace (w : Write α) (c : Catalog) :
    w.inPlace.result c = InPlace.settle c (w.outcome c) := by
  cases w with
  | addProduct p => exact InPlace.result_addProduct p c
  | add g withLineage now => exact InPlace.result_add g withLineage now c
  | update d rules => exact InPlace.result_update d rules c
  | archive ids now => exact InPlace.result_adjustAll ids _ _ c
  | restore ids => exact InPlace.result_adjustAll ids _ _ c
  | archiveLocation id uri => exact InPlace.result_archiveLocation id uri c
  | removeLocation id uri => exact InPlace.result_removeLocation id uri c

/-- A refused operation leaves the products, every record and the answers about derived datasets as
they were, and as a function it is refused for the same reason. -/
theorem unchanged_of_refused {c c' : Catalog} {e : CatalogError} (w : Write α)
    (h : w.inPlace.result c = (.error e, c')) :
    w.outcome c = .error e ∧ c'.products = c.products ∧
      (∀ id, c'.datasets.find? id = c.datasets.find? id) ∧
      ∀ id, c'.getDerived id = c.getDerived id := by
  rw [w.result_inPlace] at h
  cases houtcome : w.outcome c with
  | ok done =>
      rw [houtcome] at h
      cases h
  | error e' =>
      rw [houtcome] at h
      cases h
      exact ⟨rfl, rfl, fun _ => rfl, fun _ => rfl⟩

/-- Archiving a dataset together with one that is not recorded archives neither. -/
theorem unchanged_scene :
    ∃ c', (Write.archive [⟨7⟩, ⟨8⟩] ⟨0, 0, 0⟩).inPlace.result sceneCatalog =
        (.error (.notFound ⟨8⟩), c') ∧
      c'.products = sceneCatalog.products ∧
      (∀ id, c'.datasets.find? id = sceneCatalog.datasets.find? id) ∧
      ∀ id, c'.getDerived id = sceneCatalog.getDerived id := by
  have hrefused : (Write.archive [⟨7⟩, ⟨8⟩] ⟨0, 0, 0⟩).inPlace.result sceneCatalog =
      (.error (.notFound ⟨8⟩), sceneCatalog) := by
    rfl
  exact ⟨_, hrefused, (unchanged_of_refused _ hrefused).2⟩

/-- The writes alone, without the check before them, would leave the first dataset archived. -/
example :
    let writes := InPlace.writeEach [⟨7⟩, ⟨8⟩]
      (fun d => { d with archived := some ⟨0, 0, 0⟩ }) fun _ => rfl
    ((writes.result sceneCatalog).2.datasets.find? ⟨7⟩).map StoredDataset.archived =
      some (some ⟨0, 0, 0⟩) := by
  rfl

end Catalog

end DatasetCatalog
