import DatasetCatalog.Proofs.Batch.Derivation
import DatasetCatalog.Proofs.Time.Window

/-!
# Restoring what a cascade archived

A cascade archives a derived set with one time for all that is active in it and leaves earlier times
alone. Times have no part in what is derived, so restoring from the same dataset goes through the
same set. The window is taken around the time that the target was given: everything that was given
it lies in the middle of the window, and of what was archived before only what happens to lie in the
window is swept along.
-/

namespace DatasetCatalog

/-- The record without its time of archiving, if that lies in the window around `middle`. -/
def StoredDataset.reopened (middle : Timestamp) (tolerance : Duration) (d : StoredDataset) :
    StoredDataset :=
  match d.archived with
  | none => d
  | some t => if t.isNear middle tolerance then { d with archived := none } else d

namespace Cascade

variable {c : Catalog} {id : Identity} {es : List Entry} {clock : Nat → Timestamp}
  {now : Timestamp} {tolerance : Duration}

/-! ## A single identity -/

theorem catalog_archive_of_error {e : CatalogError} (h : c.derivedSet id = .error e) :
    (archive ⟨true, false⟩ clock c [id]).catalog = c := by
  have hselection : c.archiveSelection id true = .error e := h
  simp only [archive, List.zipIdx_singleton, List.foldl_cons, List.foldl_nil, apply, start,
    hselection]
  rfl

theorem catalog_archive_of_ok (h : c.derivedSet id = .ok es) :
    (archive ⟨true, false⟩ clock c [id]).catalog =
      c.retimed (.archiving (es.map Entry.id) (clock 0)) := by
  have hselection : c.archiveSelection id true = .ok es := h
  have hrecorded : ∀ x ∈ es.map Entry.id, c.datasets.contains x = true := by
    intro x hx
    obtain ⟨e, he, rfl⟩ := List.mem_map.mp hx
    exact Catalog.contains_of_get ((Catalog.derivedSet_eq_ok h).2 e he)
  simp only [archive, List.zipIdx_singleton, List.foldl_cons, List.foldl_nil, apply, start,
    hselection, Bool.false_eq_true, if_false, Catalog.archive_eq_retimed (clock 0) hrecorded]

theorem catalog_restore_one :
    (restoreNear ⟨true, false⟩ tolerance c [id]).catalog = c.clear (c.restoreIds tolerance id) := by
  rw [catalog_restore, restoredAfter, restoredAfter, List.nil_append, if_neg List.not_mem_nil]

/-! ## What is selected again -/

theorem archived_of_get {e : Entry} {d : StoredDataset} (h : c.get id = .ok e)
    (hd : c.datasets.find? id = some d) : e.archived = d.archived := by
  obtain ⟨d', hd', hentry⟩ := Catalog.get_eq_ok h
  cases hd.symm.trans hd'
  obtain ⟨_, -, rfl⟩ := Catalog.entry_eq_ok hentry
  rfl

theorem archived_retimed_archiving {ids : List Identity} {e : Entry} (h : e.id ∈ ids) :
    (e.retimed (.archiving ids now)).archived = some (e.archived.getD now) :=
  if_pos h

/-- Of what a cascade archived at `now`, with the target among it, that is restored which was active
before or archived at about the same time. -/
theorem mem_restoreIds_archiving (now : Timestamp) (tolerance : Duration) {d : StoredDataset}
    (hd : c.datasets.find? id = some d) (hactive : d.archived = none)
    (h : c.derivedSet id = .ok es) {x : Identity} {stored : StoredDataset}
    (hx : c.datasets.find? x = some stored) :
    x ∈ (c.retimed (.archiving (es.map Entry.id) now)).restoreIds tolerance id ↔
      x ∈ es.map Entry.id ∧ (stored.archived.getD now).isNear now tolerance = true := by
  obtain ⟨⟨target, rest, rfl, rfl⟩, hread⟩ := Catalog.derivedSet_eq_ok h
  have hlisted : ∀ e ∈ target :: rest, e.id ∈ (target :: rest).map Entry.id :=
    fun e he => List.mem_map_of_mem he
  rw [List.mem_map]
  generalize (target :: rest).map Entry.id = ids at hlisted
  have hset : (c.retimed (.archiving ids now)).derivedSet target.id = .ok
      (target.retimed (.archiving ids now) :: rest.map (Entry.retimed (.archiving ids now))) := by
    rw [Catalog.derivedSet_retimed, h]
    rfl
  have htarget : (target.retimed (.archiving ids now)).archived = some now := by
    rw [archived_retimed_archiving (hlisted target List.mem_cons_self),
      archived_of_get (hread target List.mem_cons_self) hd, hactive]
    rfl
  have hrestored : ∀ e ∈ target :: rest, e.id = x →
      Catalog.isRestoredNear true tolerance (some now) (e.retimed (.archiving ids now)) =
        (stored.archived.getD now).isNear now tolerance := by
    rintro e he rfl
    rw [Catalog.isRestoredNear.eq_def, archived_retimed_archiving (hlisted e he),
      archived_of_get (hread e he) hx]
    rfl
  rw [Catalog.mem_restoreIds hset, htarget, ← List.map_cons]
  constructor
  · rintro ⟨_, hmem, rfl, hwithin⟩
    obtain ⟨e, he, rfl⟩ := List.mem_map.mp hmem
    rw [hrestored e he rfl] at hwithin
    exact ⟨⟨e, he, rfl⟩, hwithin⟩
  · rintro ⟨⟨e, he, hid⟩, hwithin⟩
    rw [← hrestored e he hid] at hwithin
    exact ⟨_, List.mem_map_of_mem he, hid, hwithin⟩

theorem retimed_archiving {ids : List Identity} {d : StoredDataset} (h : d.id ∈ ids) :
    d.retimed (.archiving ids now) = { d with archived := some (d.archived.getD now) } := by
  simp only [StoredDataset.retimed, Retiming.archiving, if_pos h]

theorem retimed_archiving_of_not_mem {ids : List Identity} {d : StoredDataset} (h : d.id ∉ ids) :
    d.retimed (.archiving ids now) = d := by
  simp only [StoredDataset.retimed, Retiming.archiving, if_neg h]

/-- A record of the derived set that was archived at `now` and is restored if its time lies in the
window. -/
theorem cleared_retimed_archiving {ids selected : List Identity} {d : StoredDataset}
    (hnow : now.Valid) (hlisted : d.id ∈ ids)
    (hselected : d.id ∈ selected ↔ (d.archived.getD now).isNear now tolerance = true) :
    (d.retimed (.archiving ids now)).cleared selected = d.reopened now tolerance := by
  rw [retimed_archiving hlisted, StoredDataset.cleared]
  simp only [hselected]
  obtain ⟨_, _, _, _, _, _, archived, _⟩ := d
  cases archived with
  | none => exact if_pos (Timestamp.isNear_self hnow tolerance)
  | some t => rfl

theorem find?_reversed {d : StoredDataset} (hd : c.datasets.find? id = some d)
    (hactive : d.archived = none) (hnow : now.Valid) (h : c.derivedSet id = .ok es) (x : Identity) :
    ((c.retimed (.archiving (es.map Entry.id) now)).clear
        ((c.retimed (.archiving (es.map Entry.id) now)).restoreIds tolerance id)).datasets.find? x =
      (c.datasets.find? x).map fun d =>
        if x ∈ es.map Entry.id then d.reopened now tolerance else d := by
  rw [Catalog.find?_clear, Catalog.find?_retimed]
  cases hx : c.datasets.find? x with
  | none => rfl
  | some stored =>
      have hselected := mem_restoreIds_archiving now tolerance hd hactive h hx
      cases c.keyed x stored hx
      refine congrArg some ?_
      split
      next hlisted =>
        exact cleared_retimed_archiving hnow hlisted (hselected.trans (and_iff_right hlisted))
      next hother =>
        rw [retimed_archiving_of_not_mem hother]
        exact if_neg fun hmem => hother (hselected.mp hmem).1

/-- Restoring undoes a cascade that archived, and takes along what had been archived at about the
same time. Everything else is as it was before. -/
theorem restore_reverses_archive {d : StoredDataset} (hd : c.datasets.find? id = some d)
    (hactive : d.archived = none) (hnow : (clock 0).Valid) (tolerance : Duration) :
    let archived := (archive ⟨true, false⟩ clock c [id]).catalog
    let restored := (restoreNear ⟨true, false⟩ tolerance archived [id]).catalog
    (c.Readable → ∃ es, c.derivedSet id = .ok es) ∧
    (∀ e, c.derivedSet id = .error e → restored = c) ∧
    ∀ es, c.derivedSet id = .ok es →
      archived.datasets.find? id = some { d with archived := some (clock 0) } ∧
      restored.products = c.products ∧ restored.derived = c.derived ∧
      (∀ x, restored.datasets.find? x = (c.datasets.find? x).map fun d =>
        if x ∈ es.map Entry.id then d.reopened (clock 0) tolerance else d) ∧
      ∀ t : Timestamp, t.Valid → t.isLeapSecond = false → (clock 0).isLeapSecond = false →
        (t.isNear (clock 0) tolerance = true ↔
          |t.nanos - (clock 0).nanos| ≤ tolerance.nanos) := by
  intro archived restored
  have hrestored : restored = archived.clear (archived.restoreIds tolerance id) :=
    catalog_restore_one
  refine ⟨?_, ?_, ?_⟩
  · intro hread
    obtain ⟨target, -, htarget⟩ := hread.entry hd
    obtain ⟨es, -, hes, -, -⟩ :=
      (Catalog.explored_start htarget).exists_levels hread (Nat.lt_succ_self c.size)
    exact ⟨es, bind_eq_ok.mpr ⟨target, htarget, hes⟩⟩
  · intro e he
    have harchived : archived = c := catalog_archive_of_error he
    rw [hrestored, harchived, (Catalog.restoreSelectionNear_of_error tolerance [] he).2.2]
    rfl
  · intro es hes
    have harchived : archived = c.retimed (.archiving (es.map Entry.id) (clock 0)) :=
      catalog_archive_of_ok hes
    rw [hrestored, harchived]
    refine ⟨?_, ?_, ?_, find?_reversed hd hactive hnow hes, ?_⟩
    · obtain ⟨⟨target, rest, rfl, htarget⟩, -⟩ := Catalog.derivedSet_eq_ok hes
      have hlisted : d.id ∈ (target :: rest).map Entry.id := by
        rw [c.keyed id d hd, ← htarget]
        exact List.mem_cons_self
      rw [Catalog.find?_retimed, hd, Option.map_some, retimed_archiving hlisted, hactive]
      rfl
    · rw [Catalog.clear_eq_retimed]
      rfl
    · rw [Catalog.clear_eq_retimed]
      rfl
    · intro t ht htleap hleap
      exact Timestamp.isNear_iff_nanos ht hnow htleap hleap

section Chain

/-- A source, what is derived from it and what is derived from that. The source is active; the
others were archived long before each other. -/
def chainCatalog : Catalog :=
  [{ windowRecord sourceId [] 0 with archived := none },
    windowRecord productId [("raw", sourceId)] 19723,
    windowRecord ⟨3⟩ [("raw", productId)] 19000].foldl Catalog.insert
      { Catalog.empty with products := [⟨"window", none, .empty, []⟩] }

/-- Five minutes after the second dataset was archived. -/
def chainClock (_ : Nat) : Timestamp := ⟨19723, 300, 0⟩

/-- With ten minutes of tolerance the second dataset is swept along and the third is not. -/
theorem restore_reverses_archive_of_chain :
    (chainClock 0).Valid ∧
      let archived := (archive ⟨true, false⟩ chainClock chainCatalog [sourceId]).catalog
      let restored := (restoreNear ⟨true, false⟩ tenMinutes archived [sourceId]).catalog
      (archived.datasets.find? sourceId).map StoredDataset.archived = some (some ⟨19723, 300, 0⟩) ∧
        (restored.datasets.find? sourceId).map StoredDataset.archived = some none ∧
        (restored.datasets.find? productId).map StoredDataset.archived = some none ∧
        (restored.datasets.find? ⟨3⟩).map StoredDataset.archived = some (some ⟨19000, 0, 0⟩) := by
  have hclock : (chainClock 0).Valid :=
    ⟨by decide, by decide, by decide, by decide, by decide⟩
  have hsource : chainCatalog.datasets.find? sourceId =
      some { windowRecord sourceId [] 0 with archived := none } := by
    rfl
  obtain ⟨hexists, -, hreversed⟩ := restore_reverses_archive hsource rfl hclock tenMinutes
  obtain ⟨es, hes⟩ := hexists (Catalog.readable_of_registered (by decide))
  have hids : (chainCatalog.derivedSet sourceId).map (List.map Entry.id) =
      .ok [sourceId, productId, ⟨3⟩] := by
    rfl
  rw [hes] at hids
  obtain ⟨harchived, -, -, hfind, -⟩ := hreversed es hes
  rw [Except.ok.inj hids] at hfind
  refine ⟨hclock, ?_, ?_, ?_, ?_⟩
  · rw [harchived]
    rfl
  · rw [hfind]
    rfl
  · rw [hfind]
    rfl
  · rw [hfind]
    rfl

end Chain

end Cascade

end DatasetCatalog
