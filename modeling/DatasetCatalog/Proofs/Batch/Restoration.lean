import DatasetCatalog.Proofs.Catalog.Retiming

/-!
# What a batch restores

Restoring clears times of archiving and touches nothing else, so a batch leaves the catalog that it
found with the times of some identities cleared (`Catalog.clear`). What is derived from what does
not depend on these times; what is selected does, and only in two ways: a dataset restored already
is not selected again, and a target restored already has no time left to compare with, so that
everything archived below it is selected. `restoredAfter` is the exact account of a batch. It is the
union of the single selections when no identity is selected by an earlier one, and may be more when
one is.
-/

namespace DatasetCatalog

/-- The record without its time of archiving, if its identity is among these. -/
def StoredDataset.cleared (ids : List Identity) (d : StoredDataset) : StoredDataset :=
  if d.id ∈ ids then { d with archived := none } else d

def Entry.cleared (ids : List Identity) (e : Entry) : Entry :=
  if e.id ∈ ids then { e with archived := none } else e

@[simp] theorem Entry.cleared_id (ids : List Identity) (e : Entry) : (e.cleared ids).id = e.id := by
  rw [cleared]
  split <;> rfl

theorem Entry.cleared_archived (ids : List Identity) (e : Entry) :
    (e.cleared ids).archived = if e.id ∈ ids then none else e.archived := by
  rw [cleared]
  split <;> rfl

theorem StoredDataset.retimed_clearing {ids : List Identity} (d : StoredDataset) :
    d.retimed (.clearing ids) = d.cleared ids := by
  simp only [retimed, cleared, Retiming.clearing]
  split <;> rfl

theorem Entry.retimed_clearing {ids : List Identity} (e : Entry) :
    e.retimed (.clearing ids) = e.cleared ids := by
  simp only [retimed, cleared, Retiming.clearing]
  split <;> rfl

namespace Catalog

/-- The catalog with the times of archiving of these identities cleared. -/
def clear (c : Catalog) (ids : List Identity) : Catalog :=
  ids.foldl
    (fun c id => c.adjust id (fun d => { d with archived := none }) StoredDataset.id_restored) c

variable {c : Catalog} {ids : List Identity} {id : Identity}

theorem clear_append (ids more : List Identity) :
    c.clear (ids ++ more) = (c.clear ids).clear more :=
  List.foldl_append

theorem clear_eq_retimed : c.clear ids = c.retimed (.clearing ids) := by
  refine foldl_adjust_eq_retimed (fun _ => rfl) fun d => ?_
  exact (StoredDataset.retimed_clearing d).symm

theorem find?_clear : (c.clear ids).datasets.find? id =
    (c.datasets.find? id).map (StoredDataset.cleared ids) := by
  rw [clear_eq_retimed, find?_retimed, funext StoredDataset.retimed_clearing]

theorem contains_clear : (c.clear ids).datasets.contains id = c.datasets.contains id := by
  rw [clear_eq_retimed, contains_retimed]

/-- Only which identities are cleared matters, not in which order or how often. -/
theorem clear_congr {more : List Identity} (h : ∀ id, id ∈ ids ↔ id ∈ more) :
    c.clear ids = c.clear more := by
  rw [clear_eq_retimed, clear_eq_retimed]
  simp only [Retiming.clearing, h]

theorem restore_eq_clear (h : ∀ id ∈ ids, c.datasets.contains id = true) :
    c.restore ids = .ok (c.clear ids) := adjustAll_of_contains h

/-- Derived sets do not depend on times of archiving. -/
theorem derivedSet_clear : (c.clear ids).derivedSet id =
    (c.derivedSet id).map (List.map (Entry.cleared ids)) := by
  rw [clear_eq_retimed, derivedSet_retimed, funext Entry.retimed_clearing]

/-! ## What is selected for one identity -/

theorem get_of_getDerived {es : List Entry} (h : c.getDerived id = .ok es) :
    ∀ e ∈ es, c.get e.id = .ok e := by
  rw [getDerived] at h
  split at h
  next =>
    cases h
    intro e he
    cases he
  next wanted _ =>
    intro e he
    obtain ⟨d, hd, hentry⟩ := exists_of_mem_right (mapM_eq_ok.mp h) he
    obtain ⟨key, -, hkey⟩ := List.mem_filterMap.mp hd
    rw [entry_id hentry, c.keyed key d hkey]
    exact get_of_entry hkey hentry

theorem get_of_nextLevel {found level next out : List Entry}
    (h : c.nextLevel found level next = .ok out) (hnext : ∀ e ∈ next, c.get e.id = .ok e) :
    ∀ e ∈ out, c.get e.id = .ok e := by
  induction level generalizing next with
  | nil => cases h; exact hnext
  | cons first level ih =>
      obtain ⟨derived, hderived, h⟩ := bind_eq_ok.mp h
      refine ih h fun e he => ?_
      rcases List.mem_append.mp he with he | he
      · exact hnext e he
      · exact get_of_getDerived hderived e (List.mem_of_mem_filter he)

theorem derivedLevels_eq_ok {levels : Nat} {found level out : List Entry}
    (h : c.derivedLevels levels found level = .ok out) (hfound : ∀ e ∈ found, c.get e.id = .ok e) :
    found <+: out ∧ ∀ e ∈ out, c.get e.id = .ok e := by
  induction levels generalizing found level with
  | zero => cases h; exact ⟨List.prefix_rfl, hfound⟩
  | succ levels ih =>
      obtain ⟨next, hnext, h⟩ := bind_eq_ok.mp h
      split at h
      next => cases h; exact ⟨List.prefix_rfl, hfound⟩
      next =>
        obtain ⟨hextends, hout⟩ := ih h fun e he => by
          rcases List.mem_append.mp he with he | he
          · exact hfound e he
          · exact get_of_nextLevel hnext nofun e he
        exact ⟨(List.prefix_append found next).trans hextends, hout⟩

/-- A derived set begins with its target, and everything in it is as it is recorded. -/
theorem derivedSet_eq_ok {es : List Entry} (h : c.derivedSet id = .ok es) :
    (∃ target rest, es = target :: rest ∧ target.id = id) ∧ ∀ e ∈ es, c.get e.id = .ok e := by
  obtain ⟨target, htarget, h⟩ := bind_eq_ok.mp h
  have hid := id_of_get htarget
  obtain ⟨⟨rest, hrest⟩, hread⟩ := derivedLevels_eq_ok h fun e he => by
    rwa [List.mem_singleton.mp he, hid]
  exact ⟨⟨target, rest, hrest.symm, hid⟩, hread⟩

/-- What is restored along with `id` and everything derived from it. -/
def restoreIds (c : Catalog) (tolerance : Duration) (id : Identity) : List Identity :=
  ((c.restoreSelectionNear id true tolerance).toOption.getD []).map Entry.id

/-- What is archived among `id` and everything derived from it. -/
def archivedIds (c : Catalog) (id : Identity) : List Identity :=
  (((c.derivedSet id).toOption.getD []).filter Entry.isArchived).map Entry.id

variable {tolerance : Duration}

theorem mem_restoreIds {target : Entry} {rest : List Entry}
    (h : c.derivedSet id = .ok (target :: rest)) {x : Identity} :
    x ∈ c.restoreIds tolerance id ↔ ∃ e ∈ target :: rest,
      e.id = x ∧ isRestoredNear true tolerance target.archived e = true := by
  rw [restoreIds, restoreSelectionNear, archiveSelection, if_pos rfl, h]
  simp only [Except.map, Except.toOption, Option.getD_some, List.head?_cons, Option.bind_some,
    List.mem_map, List.mem_filter, and_assoc]
  exact exists_congr fun e => and_congr_right fun _ => and_comm

/-- With times cleared, what is restored is not selected again, and a target that is restored
selects everything archived. -/
theorem isRestoredNear_cleared {target e : Entry} : isRestoredNear true tolerance
    (target.cleared ids).archived (e.cleared ids) = true ↔ e.id ∉ ids ∧
      (if target.id ∈ ids then e.isArchived
        else isRestoredNear true tolerance target.archived e) = true := by
  rw [isRestoredNear.eq_def, Entry.cleared_archived, Entry.cleared_archived]
  by_cases he : e.id ∈ ids
  · simp [he]
  · by_cases htarget : target.id ∈ ids
    · cases harchived : e.archived <;> simp [he, htarget, harchived, Entry.isArchived]
    · simp [he, htarget, isRestoredNear.eq_def]

theorem restoreSelectionNear_of_error (tolerance : Duration) (ids : List Identity)
    {e : CatalogError} (h : c.derivedSet id = .error e) :
    (c.clear ids).restoreSelectionNear id true tolerance = .error e ∧ c.archivedIds id = [] ∧
      c.restoreIds tolerance id = [] := by
  refine ⟨?_, ?_, ?_⟩
  · rw [restoreSelectionNear, archiveSelection, if_pos rfl, derivedSet_clear, h]
    rfl
  · rw [archivedIds, h]
    rfl
  · rw [restoreIds, restoreSelectionNear, archiveSelection, if_pos rfl, h]
    rfl

/-- With times cleared, a selection loses what is restored already; of a target that is restored
already it is everything archived, else what it was before. -/
theorem restoreSelectionNear_of_ok (tolerance : Duration) (ids : List Identity) {es : List Entry}
    (h : c.derivedSet id = .ok es) :
    ∃ selection, (c.clear ids).restoreSelectionNear id true tolerance = .ok selection ∧
      (∀ x ∈ selection.map Entry.id, c.datasets.contains x = true) ∧
      ∀ x, x ∈ selection.map Entry.id ↔ x ∉ ids ∧
        x ∈ if id ∈ ids then c.archivedIds id else c.restoreIds tolerance id := by
  obtain ⟨⟨target, rest, rfl, rfl⟩, hread⟩ := derivedSet_eq_ok h
  refine ⟨((target :: rest).map (Entry.cleared ids)).filter
    (isRestoredNear true tolerance (target.cleared ids).archived), ?_, ?_, ?_⟩
  · rw [restoreSelectionNear, archiveSelection, if_pos rfl, derivedSet_clear, h]
    rfl
  · intro x hx
    obtain ⟨_, hselected, rfl⟩ := List.mem_map.mp hx
    obtain ⟨e, he, rfl⟩ := List.mem_map.mp (List.mem_of_mem_filter hselected)
    rw [Entry.cleared_id]
    exact contains_of_get (hread e he)
  · intro x
    have hids : (if target.id ∈ ids then c.archivedIds target.id
        else c.restoreIds tolerance target.id) = ((target :: rest).filter fun e =>
          if target.id ∈ ids then e.isArchived
          else isRestoredNear true tolerance target.archived e).map Entry.id := by
      rw [archivedIds, restoreIds, restoreSelectionNear, archiveSelection, if_pos rfl, h]
      split <;> rfl
    rw [hids]
    simp only [List.mem_map, List.mem_filter]
    constructor
    · rintro ⟨_, ⟨⟨e, he, rfl⟩, hrestored⟩, rfl⟩
      rw [isRestoredNear_cleared] at hrestored
      rw [Entry.cleared_id]
      exact ⟨hrestored.1, e, ⟨he, hrestored.2⟩, rfl⟩
    · rintro ⟨hnew, e, ⟨he, hrestored⟩, rfl⟩
      exact ⟨e.cleared ids, ⟨⟨e, he, rfl⟩, isRestoredNear_cleared.mpr ⟨hnew, hrestored⟩⟩,
        Entry.cleared_id ids e⟩

end Catalog

namespace Cascade

variable {c : Catalog} {tolerance : Duration}

/-! ## A whole batch -/

/-- Which identities are restored once these are and a batch has been gone through. -/
def restoredAfter (c : Catalog) (tolerance : Duration) :
    List Identity → List Identity → List Identity
  | restored, [] => restored
  | restored, id :: rest =>
    restoredAfter c tolerance (restored ++
      if id ∈ restored then c.archivedIds id else c.restoreIds tolerance id) rest

/-- One item of a batch, when some identities are restored already. -/
theorem catalog_apply_restore {p : Progress} {restored : List Identity}
    (hp : p.catalog = c.clear restored) (id : Identity) :
    (apply "restoring" false (fun c id => c.restoreSelectionNear id true tolerance) Catalog.restore
        p id).catalog =
      c.clear (restored ++
        if id ∈ restored then c.archivedIds id else c.restoreIds tolerance id) := by
  rw [apply, hp]
  cases hset : c.derivedSet id with
  | error e =>
      obtain ⟨hselection, harchived, hrestored⟩ :=
        Catalog.restoreSelectionNear_of_error tolerance restored hset
      rw [hselection, harchived, hrestored, ite_self, List.append_nil]
      exact hp
  | ok es =>
      obtain ⟨selection, hselection, hrecorded, hmem⟩ :=
        Catalog.restoreSelectionNear_of_ok tolerance restored hset
      have hrestore : (c.clear restored).restore (selection.map Entry.id) =
          .ok ((c.clear restored).clear (selection.map Entry.id)) :=
        Catalog.restore_eq_clear fun x hx => Catalog.contains_clear.trans (hrecorded x hx)
      rw [hselection]
      simp only [Bool.false_eq_true, if_false, hrestore]
      rw [← Catalog.clear_append]
      refine Catalog.clear_congr fun x => ?_
      rw [List.mem_append, List.mem_append, hmem x]
      by_cases hx : x ∈ restored <;> simp [hx]

theorem catalog_foldl_restore (ids : List Identity) {p : Progress} {restored : List Identity}
    (hp : p.catalog = c.clear restored) :
    (ids.foldl (apply "restoring" false (fun c id => c.restoreSelectionNear id true tolerance)
      Catalog.restore) p).catalog = c.clear (restoredAfter c tolerance restored ids) := by
  induction ids generalizing p restored with
  | nil => exact hp
  | cons id ids ih => exact ih (catalog_apply_restore hp id)

/-- A batch clears exactly the times that `restoredAfter` lists. -/
theorem catalog_restore (ids : List Identity) :
    (restoreNear ⟨true, false⟩ tolerance c ids).catalog =
      c.clear (restoredAfter c tolerance [] ids) :=
  catalog_foldl_restore ids rfl

/-- No identity is selected by one that is listed before it. -/
def Independent (c : Catalog) (tolerance : Duration) (ids : List Identity) : Prop :=
  ids.Pairwise fun earlier later => later ∉ c.restoreIds tolerance earlier

instance (c : Catalog) (tolerance : Duration) (ids : List Identity) :
    Decidable (Independent c tolerance ids) :=
  inferInstanceAs (Decidable (ids.Pairwise _))

theorem mem_restoredAfter_iff {restored ids : List Identity} (h : Independent c tolerance ids)
    (hnew : ∀ id ∈ ids, id ∉ restored) {x : Identity} :
    x ∈ restoredAfter c tolerance restored ids ↔
      x ∈ restored ∨ ∃ id ∈ ids, x ∈ c.restoreIds tolerance id := by
  induction ids generalizing restored with
  | nil => simp [restoredAfter]
  | cons first ids ih =>
      obtain ⟨hfirst, hrest⟩ := List.pairwise_cons.mp h
      rw [restoredAfter, if_neg (hnew first List.mem_cons_self), ih hrest]
      · simp only [List.mem_append, List.exists_mem_cons_iff, or_assoc]
      · intro id hid hmem
        rcases List.mem_append.mp hmem with hmem | hmem
        · exact hnew id (List.mem_cons_of_mem _ hid) hmem
        · exact hfirst id hid hmem

/-- A batch in which no identity is selected by an earlier one restores the union of the single
selections. In which order the identities come, and how often, does not matter as long as this
holds. -/
theorem restore_union_of_independent {ids : List Identity} (h : Independent c tolerance ids) :
    (restoreNear ⟨true, false⟩ tolerance c ids).catalog =
        c.clear (ids.flatMap (c.restoreIds tolerance)) ∧
      ∀ more, Independent c tolerance more → (∀ id, id ∈ more ↔ id ∈ ids) →
        (restoreNear ⟨true, false⟩ tolerance c more).catalog =
          (restoreNear ⟨true, false⟩ tolerance c ids).catalog := by
  have hunion : ∀ ids, Independent c tolerance ids →
      (restoreNear ⟨true, false⟩ tolerance c ids).catalog =
        c.clear (ids.flatMap (c.restoreIds tolerance)) := by
    intro ids hids
    rw [catalog_restore]
    refine Catalog.clear_congr fun x => ?_
    rw [mem_restoredAfter_iff hids (fun _ _ => List.not_mem_nil), List.mem_flatMap]
    simp
  refine ⟨hunion ids h, fun more hmore hsame => ?_⟩
  rw [hunion more hmore, hunion ids h]
  refine Catalog.clear_congr fun x => ?_
  simp only [List.mem_flatMap, hsame]

section Window

def sourceId : Identity := ⟨1⟩

def productId : Identity := ⟨2⟩

def windowRecord (id : Identity) (sources : List (String × Identity)) (day : Int) :
    StoredDataset where
  id := id
  product := "window"
  metadata := .empty
  locations := []
  archivedLocations := []
  sources := .ofList sources
  archived := some ⟨day, 0, 0⟩
  indexed := none

def tenMinutes : Duration := .ofSeconds 600

/-- A source archived on one day, and what is derived from it archived on the next. -/
def windowCatalog : Catalog :=
  ({ Catalog.empty with products := [⟨"window", none, .empty, []⟩] }.insert
    (windowRecord sourceId [] 19723)).insert (windowRecord productId [("raw", sourceId)] 19724)

/-- Listed once each, in either order, both are restored. -/
theorem restore_window_in_any_order :
    Independent windowCatalog tenMinutes [productId, sourceId] ∧
      (restoreNear ⟨true, false⟩ tenMinutes windowCatalog [productId, sourceId]).catalog =
        windowCatalog.clear [productId, sourceId] ∧
      (restoreNear ⟨true, false⟩ tenMinutes windowCatalog [sourceId, productId]).catalog =
        windowCatalog.clear [productId, sourceId] := by
  have hfirst : Independent windowCatalog tenMinutes [productId, sourceId] := by decide
  obtain ⟨hunion, hany⟩ := restore_union_of_independent hfirst
  have hselected : [productId, sourceId].flatMap (windowCatalog.restoreIds tenMinutes) =
      [productId, sourceId] := by rfl
  rw [hselected] at hunion
  refine ⟨hfirst, hunion, (hany [sourceId, productId] (by decide) ?_).trans hunion⟩
  exact fun id => (List.Perm.swap productId sourceId []).mem_iff

/-- Listed twice, the source restores what is derived from it, which it does not select. -/
theorem restore_repeated_leaves_window :
    windowCatalog.restoreIds tenMinutes sourceId = [sourceId] ∧
      ((restoreNear ⟨true, false⟩ tenMinutes windowCatalog [sourceId]).catalog.datasets.find?
        productId).map StoredDataset.archived = some (some ⟨19724, 0, 0⟩) ∧
      ((restoreNear ⟨true, false⟩ tenMinutes windowCatalog
        [sourceId, sourceId]).catalog.datasets.find? productId).map StoredDataset.archived =
          some none :=
  ⟨rfl, rfl, rfl⟩

end Window

end Cascade

end DatasetCatalog
