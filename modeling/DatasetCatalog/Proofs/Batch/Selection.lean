import DatasetCatalog.Proofs.Batch.Derivation
import DatasetCatalog.Proofs.Time.Window

/-!
# What is selected

What is archived along with a dataset begins with the dataset itself, and every entry is as it is
recorded. A restore goes through the same entries and takes those that are archived; when it extends
from a target that is archived itself, only those archived at most the tolerance from it. The
tolerance may reach beyond the calendar and need not be a number of seconds: the answer is the one
of arithmetic on nanoseconds (`Recalled`).
-/

namespace DatasetCatalog

/-- The instant is in the calendar and not in a leap second. -/
def Timestamp.Regular (t : Timestamp) : Prop := t.Valid ∧ t.isLeapSecond = false

/-- The entry is archived and, if a restore extends to it from a target that was archived at a time
`middle`, was archived at most the tolerance from that time. -/
def Entry.Recalled (derived : Bool) (tolerance : Duration) (target : Option Timestamp) (e : Entry) :
    Prop :=
  ∃ t ∈ e.archived, derived = true → ∀ middle ∈ target, |t.nanos - middle.nanos| ≤ tolerance.nanos

instance (derived : Bool) (tolerance : Duration) (target : Option Timestamp) (e : Entry) :
    Decidable (e.Recalled derived tolerance target) :=
  inferInstanceAs (Decidable (∃ t ∈ e.archived, derived = true → ∀ middle ∈ target, _))

namespace Catalog

variable {c : Catalog} {r : Retiming} {id : Identity} {derived : Bool} {es : List Entry}
  {tolerance : Duration}

/-! ## What is archived together -/

theorem archiveSelection_eq_ok (h : c.archiveSelection id derived = .ok es) :
    (∃ target rest, es = target :: rest ∧ target.id = id) ∧ ∀ e ∈ es, c.get e.id = .ok e := by
  rw [archiveSelection] at h
  split at h
  next => exact derivedSet_eq_ok h
  next =>
    obtain ⟨target, htarget, rfl⟩ := map_eq_ok.mp h
    have hid := id_of_get htarget
    exact ⟨⟨target, [], rfl, hid⟩, List.forall_mem_singleton.mpr (hid.symm ▸ htarget)⟩

theorem Readable.exists_archiveSelection (h : c.Readable) (hid : c.datasets.contains id = true)
    (derived : Bool) : ∃ es, c.archiveSelection id derived = .ok es := by
  rw [archiveSelection]
  split
  next =>
    obtain ⟨es, hset, -⟩ := h.exists_derivedSet hid
    exact ⟨es, hset⟩
  next =>
    obtain ⟨d, hd⟩ := OrderedMap.contains_iff.mp hid
    obtain ⟨e, -, he⟩ := h.entry hd
    exact ⟨[e], by rw [he]; rfl⟩

/-! ## What is restored together -/

theorem archived_of_mem_archiveSelection (h : c.archiveSelection id derived = .ok es) {e : Entry}
    (he : e ∈ es) :
    ∃ stored, c.datasets.find? e.id = some stored ∧ e.archived = stored.archived := by
  obtain ⟨stored, hstored, hentry⟩ := get_eq_ok ((archiveSelection_eq_ok h).2 e he)
  obtain ⟨_, -, hsame⟩ := entry_eq_ok hentry
  exact ⟨stored, hstored, by rw [hsame]⟩

/-- Among regular times the window is decided by arithmetic. -/
theorem isRestoredNear_eq_decide {target : Option Timestamp} {e : Entry}
    (htarget : ∀ middle ∈ target, middle.Regular) (he : ∀ t ∈ e.archived, t.Regular) :
    isRestoredNear derived tolerance target e = decide (e.Recalled derived tolerance target) := by
  rw [isRestoredNear.eq_def, Bool.eq_iff_iff, decide_eq_true_iff, Entry.Recalled]
  cases harchived : e.archived with
  | none => simp
  | some t =>
      cases target with
      | none => simp
      | some middle =>
          obtain ⟨hvalid, hregular⟩ := he t harchived
          obtain ⟨hvalid', hregular'⟩ := htarget middle rfl
          have hnear : t.isNear middle tolerance = true ↔
              |t.nanos - middle.nanos| ≤ tolerance.nanos :=
            Timestamp.isNear_iff_nanos hvalid hvalid' hregular hregular'
          cases derived <;> simp [hnear]

/-- What is restored along with a recorded dataset is what is archived along with it, in the same
order, without the entries that are not archived or, in a restore that extends from an archived
target, were archived more than the tolerance before or after it. -/
theorem restoreSelectionNear_eq_filter {d : StoredDataset} (hd : c.datasets.find? id = some d)
    (hregular : ∀ x stored t, c.datasets.find? x = some stored → stored.archived = some t →
      t.Regular) (derived : Bool) (tolerance : Duration) :
    (c.Readable → ∃ es, c.archiveSelection id derived = .ok es) ∧
      c.restoreSelectionNear id derived tolerance =
        (c.archiveSelection id derived).map
          (List.filter fun e => decide (e.Recalled derived tolerance d.archived)) := by
  refine ⟨fun hread => hread.exists_archiveSelection (OrderedMap.contains_iff.mpr ⟨d, hd⟩) derived,
    ?_⟩
  rw [restoreSelectionNear]
  cases hes : c.archiveSelection id derived with
  | error e => rfl
  | ok es =>
      have hrecorded := fun {e} (he : e ∈ es) => archived_of_mem_archiveSelection hes he
      obtain ⟨⟨target, rest, rfl, rfl⟩, -⟩ := archiveSelection_eq_ok hes
      obtain ⟨stored, hstored, htarget⟩ := hrecorded List.mem_cons_self
      cases hd.symm.trans hstored
      refine congrArg Except.ok (List.filter_congr fun e he => ?_)
      rw [List.head?_cons, Option.bind_some, htarget]
      obtain ⟨stored, hstored, harchived⟩ := hrecorded he
      apply isRestoredNear_eq_decide
      · exact fun middle hmiddle => hregular _ _ _ hd hmiddle
      · exact fun t ht => hregular _ _ _ hstored (harchived ▸ ht)

section Edge

def lateDay (second nano : Nat) : Timestamp := ⟨Timestamp.lastDay, second, nano⟩

theorem regular_lateDay {second nano : Nat} (hsecond : second < Timestamp.secondsPerDay)
    (hnano : nano < Timestamp.nanosPerSecond) : (lateDay second nano).Regular := by
  have hnonempty : Timestamp.firstDay ≤ Timestamp.lastDay := by decide
  have hearly : ¬ Timestamp.nanosPerSecond ≤ nano := Nat.not_le.mpr hnano
  have hnano' : nano < 2 * Timestamp.nanosPerSecond := by omega
  exact ⟨⟨hnonempty, Int.le_refl _, hsecond, hnano', fun hleap => (hearly hleap).elim⟩,
    decide_eq_false hearly⟩

/-- A source archived half a second before the end of the calendar, what is derived from it archived
at its last nanosecond, and what is derived from that archived a nanosecond too early. -/
def lateCatalog : Catalog :=
  [{ Cascade.windowRecord Cascade.sourceId [] 0 with
      archived := some (lateDay 86399 500000000) },
    { Cascade.windowRecord Cascade.productId [("raw", Cascade.sourceId)] 0 with
      archived := some (lateDay 86399 999999999) },
    { Cascade.windowRecord ⟨3⟩ [("raw", Cascade.productId)] 0 with
      archived := some (lateDay 86398 999999999) }].foldl insert
      { empty with products := [⟨"window", none, .empty, []⟩] }

/-- With half a second of tolerance the window ends after the calendar. -/
theorem restoreSelectionNear_late :
    (lateDay 86399 500000000).addNanos? 500000000 = none ∧
      (lateCatalog.archiveSelection Cascade.sourceId true).map (List.map Entry.id) =
        .ok [Cascade.sourceId, Cascade.productId, ⟨3⟩] ∧
      (lateCatalog.restoreSelectionNear Cascade.sourceId true ⟨500000000⟩).map
        (List.map Entry.id) = .ok [Cascade.sourceId, Cascade.productId] := by
  have hregular : ∀ x stored t, lateCatalog.datasets.find? x = some stored →
      stored.archived = some t → t.Regular := by
    intro x stored t hstored ht
    have hmem : some t ∈ lateCatalog.datasets.values.map StoredDataset.archived :=
      List.mem_map.mpr ⟨stored, OrderedMap.mem_values_iff.mpr ⟨x, hstored⟩, ht⟩
    have htimes : lateCatalog.datasets.values.map StoredDataset.archived =
        [some (lateDay 86399 500000000), some (lateDay 86399 999999999),
          some (lateDay 86398 999999999)] := by
      rfl
    rw [htimes] at hmem
    simp only [List.mem_cons, Option.some.injEq, List.not_mem_nil, or_false] at hmem
    rcases hmem with rfl | rfl | rfl
    · exact regular_lateDay (by decide) (by decide)
    · exact regular_lateDay (by decide) (by decide)
    · exact regular_lateDay (by decide) (by decide)
  have hsource : lateCatalog.datasets.find? Cascade.sourceId =
      some { Cascade.windowRecord Cascade.sourceId [] 0 with
        archived := some (lateDay 86399 500000000) } := by
    rfl
  obtain ⟨-, hselection⟩ := restoreSelectionNear_eq_filter hsource hregular true ⟨500000000⟩
  exact ⟨by decide, rfl, by rw [hselection]; rfl⟩

end Edge

end Catalog

end DatasetCatalog
