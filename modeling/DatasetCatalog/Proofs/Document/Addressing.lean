import DatasetCatalog.Proofs.Document.Difference
import Mathlib.Data.List.Nodup

/-!
# The addresses of differences

Every difference has an address of its own. Two containers differ behind each of a list of distinct
steps, and what is found behind one step is apart from what is found behind another one, so no two
differences lie on one path; sorting then gives strictly increasing addresses. At its address a
difference shows what both sides have there, down to the first place where they are not the same
kind of container.
-/

namespace DatasetCatalog

namespace FieldPath

variable {s t : Step} {p q : FieldPath}

theorem Apart.symm (h : Apart p q) : Apart q p := ⟨h.2, h.1⟩

theorem Apart.cons (h : Apart p q) (s : Step) : Apart (s :: p) (s :: q) :=
  ⟨fun hp => h.1 ((List.prefix_cons_inj s).mp hp), fun hq => h.2 ((List.prefix_cons_inj s).mp hq)⟩

theorem apart_of_ne (h : s ≠ t) (p q : FieldPath) : Apart (s :: p) (t :: q) :=
  ⟨fun hp => h (List.cons_prefix_cons.mp hp).1, fun hq => h (List.cons_prefix_cons.mp hq).1.symm⟩

theorem le_of_not_le (h : ¬ le p q = true) : le q p = true := by
  have hswap : compare q p = (compare p q).swap := Std.OrientedCmp.eq_swap
  rw [le] at h
  rw [le, hswap]
  cases hc : compare p q <;> simp_all

/-- Paths that are apart are different, so the order between them is strict. -/
theorem lt_of_le_of_apart (hle : le p q = true) (hapart : Apart p q) : compare p q = .lt := by
  cases hc : compare p q with
  | lt => rfl
  | eq =>
      obtain rfl : p = q := Std.LawfulEqOrd.eq_of_compare hc
      exact (hapart.1 List.prefix_rfl).elim
  | gt =>
      rw [le, hc] at hle
      cases hle

end FieldPath

namespace Difference

/-- The difference shows these two sides, which do not agree and are not compared part by part. -/
structure Reports (d : Difference) (l r : Option Value) : Prop where
  left : d.left = l
  right : d.right = r
  differ : ¬ Value.Agree .sensitive l r
  atomic : ∀ v w, l = some v → r = some w → ¬ Value.SameContainer v w

/-- No two differences lie on one path. -/
def PairwiseApart (ds : List Difference) : Prop :=
  ds.Pairwise fun d e => d.path.Apart e.path

/-- Addresses increase, and none leads through another one. -/
def Ordered (ds : List Difference) : Prop :=
  ds.Pairwise fun d e => compare d.path e.path = .lt ∧ d.path.Apart e.path

theorem PairwiseApart.under {ds : List Difference} (h : PairwiseApart ds) (s : Step) :
    PairwiseApart (ds.map (.under s)) := by
  rw [PairwiseApart, List.pairwise_map]
  exact h.imp fun hde => hde.cons s

theorem sorted_insertByPath {d : Difference} {ds : List Difference}
    (h : ds.Pairwise fun d e => d.path.le e.path = true) :
    (insertByPath d ds).Pairwise fun d e => d.path.le e.path = true := by
  induction ds with
  | nil => exact List.pairwise_singleton _ d
  | cons e rest ih =>
      obtain ⟨he, hrest⟩ := List.pairwise_cons.mp h
      rw [insertByPath]
      split
      next hle =>
        refine List.pairwise_cons.mpr ⟨?_, h⟩
        intro f hf
        rcases List.mem_cons.mp hf with rfl | hf
        · exact hle
        · exact Std.TransCmp.isLE_trans hle (he f hf)
      next hnot =>
        refine List.pairwise_cons.mpr ⟨?_, ih hrest⟩
        intro f hf
        rcases List.mem_cons.mp ((insertByPath_perm d rest).mem_iff.mp hf) with rfl | hf
        · exact FieldPath.le_of_not_le hnot
        · exact he f hf

theorem sorted_sortByPath (ds : List Difference) :
    (sortByPath ds).Pairwise fun d e => d.path.le e.path = true := by
  induction ds with
  | nil => exact .nil
  | cons d rest ih => exact sorted_insertByPath ih

/-- Sorting orders what is pairwise apart. -/
theorem PairwiseApart.ordered {ds : List Difference} (h : PairwiseApart ds) :
    Ordered (sortByPath ds) := by
  have hapart : PairwiseApart (sortByPath ds) :=
    (sortByPath_perm ds).symm.pairwise h fun hde => hde.symm
  refine (sorted_sortByPath ds).imp₂ ?_ hapart
  exact fun d e hle hde => ⟨FieldPath.lt_of_le_of_apart hle hde, hde⟩

end Difference

namespace Value

open Difference (PairwiseApart)

/-! ## One block of differences per step -/

theorem fieldDifferences_eq {ls rs : Fields} (hl : ls.keys.Nodup) :
    fieldDifferences ls rs =
      ls.keys.flatMap fun k => beneath (.key k) (ls.find? k) (rs.find? k) := by
  have hblocks : ∀ more : Fields, fieldDifferences more rs =
      more.flatMap fun f => beneath (.key f.1) (some f.2) (rs.find? f.1) := by
    intro more
    induction more with
    | nil => simp [fieldDifferences]
    | cons f more ih =>
        obtain ⟨k, l⟩ := f
        rw [fieldDifferences, ih, List.flatMap_cons]
        cases rs.find? k <;> rfl
  rw [hblocks, Fields.keys, List.flatMap_map]
  refine List.flatMap_congr fun f hf => ?_
  rw [(Fields.mem_iff_find? hl).mp hf]

theorem addedFields_eq {ls rs : Fields} (hr : rs.keys.Nodup) :
    addedFields ls rs =
      (Fields.keys (rs.filter fun f => !ls.contains f.1)).flatMap fun k =>
        beneath (.key k) (ls.find? k) (rs.find? k) := by
  rw [addedFields, List.map_eq_flatMap, Fields.keys, List.flatMap_map]
  refine List.flatMap_congr fun f hf => ?_
  obtain ⟨hmem, hnew⟩ := List.mem_filter.mp hf
  have hnone : ls.find? f.1 = none := by
    simpa [Fields.contains] using hnew
  rw [hnone, (Fields.mem_iff_find? hr).mp hmem]
  rfl

/-- The keys of the left mapping and those that only the right one has are distinct. -/
theorem nodup_keys_append_added {ls rs : Fields} (hl : ls.keys.Nodup) (hr : rs.keys.Nodup) :
    (ls.keys ++ Fields.keys (rs.filter fun f => !ls.contains f.1)).Nodup := by
  have hadded : (Fields.keys (rs.filter fun f => !ls.contains f.1)).Nodup :=
    hr.sublist (List.filter_sublist.map Prod.fst)
  refine List.nodup_append.mpr ⟨hl, hadded, ?_⟩
  rintro k hk m hm rfl
  obtain ⟨f, hf, rfl⟩ := List.mem_map.mp hm
  have hnew := (List.mem_filter.mp hf).2
  rw [Fields.contains, Fields.mem_keys_iff.mp hk] at hnew
  cases hnew

theorem addedItems_eq (i : Nat) (rs : List Value) :
    addedItems i rs =
      (List.range rs.length).flatMap fun j => beneath (.index (i + j)) none rs[j]? := by
  induction rs generalizing i with
  | nil => rfl
  | cons r rs ih =>
      rw [addedItems, ih, List.length_cons, List.range_succ_eq_map, List.flatMap_cons,
        List.flatMap_map]
      simp only [Nat.add_zero, List.getElem?_cons_zero, List.getElem?_cons_succ,
        Nat.succ_eq_add_one, Nat.add_comm, Nat.add_left_comm]
      rfl

theorem itemDifferences_eq (i : Nat) (ls rs : List Value) :
    itemDifferences i ls rs =
      (List.range (max ls.length rs.length)).flatMap fun j =>
        beneath (.index (i + j)) ls[j]? rs[j]? := by
  induction ls generalizing i rs with
  | nil => simp only [itemDifferences, addedItems_eq, List.length_nil, Nat.zero_max,
      List.getElem?_nil]
  | cons l ls ih =>
      have hstep : itemDifferences i (l :: ls) rs =
          beneath (.index i) (some l) rs[0]? ++ itemDifferences (i + 1) ls rs.tail := by
        cases rs <;> rfl
      have hlength : max (l :: ls).length rs.length = max ls.length rs.tail.length + 1 := by
        simp only [List.length_cons, List.length_tail]
        omega
      rw [hstep, ih, hlength, List.range_succ_eq_map, List.flatMap_cons, List.flatMap_map]
      simp only [Nat.add_zero, List.getElem?_cons_zero, List.getElem?_cons_succ,
        List.getElem?_tail, Nat.succ_eq_add_one, Nat.add_assoc, Nat.add_comm 1]

/-- Two containers differ behind each of a list of distinct steps. -/
theorem exists_steps {l r : Value} (hl : l.WellFormed) (hr : r.WellFormed)
    (hsame : ¬ l.sameValue .sensitive r = true) (hc : SameContainer l r) :
    ∃ steps : List Step, steps.Nodup ∧
      differences l r = steps.flatMap fun s => beneath s (l.step? s) (r.step? s) := by
  rw [differences.eq_def, if_neg hsame]
  cases l <;> cases r <;> simp only [SameContainer] at hc
  case sequence.sequence ls rs =>
    refine ⟨(List.range (max ls.length rs.length)).map .index, ?_, ?_⟩
    · exact List.nodup_range.map fun _ _ => Step.index.inj
    · dsimp only
      rw [itemDifferences_eq, List.flatMap_map]
      simp only [Nat.zero_add, step?]
  case mapping.mapping ls rs =>
    refine ⟨(Fields.keys ls ++ Fields.keys (rs.filter fun f => !Fields.contains ls f.1)).map .key,
      ?_, ?_⟩
    · have hkeys := nodup_keys_append_added hl.keys_nodup hr.keys_nodup
      exact hkeys.map fun _ _ => Step.key.inj
    · dsimp only
      rw [fieldDifferences_eq hl.keys_nodup, addedFields_eq hr.keys_nodup, List.flatMap_map,
        List.flatMap_append]
      simp only [step?]

theorem path_of_mem_beneath {s : Step} {a b : Option Value} {d : Difference}
    (h : d ∈ beneath s a b) : ∃ p, d.path = s :: p := by
  cases a <;> cases b
  case none.none => cases h
  case some.some l r =>
    obtain ⟨e, -, rfl⟩ := List.mem_map.mp h
    exact ⟨e.path, rfl⟩
  all_goals
    cases List.mem_singleton.mp h
    exact ⟨[], rfl⟩

/-- Behind different steps nothing lies on one path, behind one step by induction. -/
theorem pairwiseApart_differences {l r : Value} (hl : l.WellFormed) (hr : r.WellFormed) :
    PairwiseApart (differences l r) := by
  induction hn : l.size using Nat.strongRecOn generalizing l r with
  | ind n ih =>
      by_cases hsame : l.sameValue .sensitive r = true
      · rw [differences_of_sameValue hsame]
        exact .nil
      by_cases hc : SameContainer l r
      · obtain ⟨steps, hnodup, hblocks⟩ := exists_steps hl hr hsame hc
        rw [hblocks, PairwiseApart, List.pairwise_flatMap]
        refine ⟨?_, hnodup.imp ?_⟩
        · intro s _
          cases hv : l.step? s <;> cases hw : r.step? s
          case some.some v w =>
            refine PairwiseApart.under ?_ s
            exact ih v.size (hn ▸ size_lt_of_step? hv) (hl.step? hv) (hr.step? hw) rfl
          case none.none => exact .nil
          all_goals exact List.pairwise_singleton _ _
        · intro s t hne d hd e he
          obtain ⟨p, hp⟩ := path_of_mem_beneath hd
          obtain ⟨q, hq⟩ := path_of_mem_beneath he
          rw [hp, hq]
          exact FieldPath.apart_of_ne hne p q
      · rw [differences_of_not_sameContainer (Bool.not_eq_true _ ▸ hsame) hc]
        exact List.pairwise_singleton _ _

/-! ## What a difference shows -/

/-- A difference shows what both sides have at its path. -/
theorem reports_of_mem_differences {l r : Value} (hl : l.WellFormed) (hr : r.WellFormed)
    {d : Difference} (hd : d ∈ differences l r) : d.Reports (l.at? d.path) (r.at? d.path) := by
  induction hn : l.size using Nat.strongRecOn generalizing l r d with
  | ind n ih =>
      by_cases hsame : l.sameValue .sensitive r = true
      · rw [differences_of_sameValue hsame] at hd
        cases hd
      by_cases hc : SameContainer l r
      · obtain ⟨s, hs⟩ := (mem_differences hl hr hc).mp hd
        cases hv : l.step? s <;> cases hw : r.step? s <;> rw [hv, hw] at hs
        case none.none => cases hs
        case some.some v w =>
          obtain ⟨e, he, rfl⟩ := List.mem_map.mp hs
          have hreports := ih v.size (hn ▸ size_lt_of_step? hv) (hl.step? hv) (hr.step? hw) he rfl
          rw [Difference.under_path, at?_cons, at?_cons, hv, hw]
          exact ⟨hreports.left, hreports.right, hreports.differ, hreports.atomic⟩
        case none.some w =>
          cases List.mem_singleton.mp hs
          simp only [at?_cons, hv, hw, Option.bind_none, Option.bind_some, at?_nil]
          exact ⟨rfl, rfl, id, fun _ _ h => (nomatch h)⟩
        case some.none v =>
          cases List.mem_singleton.mp hs
          simp only [at?_cons, hv, hw, Option.bind_none, Option.bind_some, at?_nil]
          exact ⟨rfl, rfl, id, fun _ _ _ h => (nomatch h)⟩
      · rw [differences_of_not_sameContainer (Bool.not_eq_true _ ▸ hsame) hc] at hd
        cases List.mem_singleton.mp hd
        refine ⟨rfl, rfl, hsame, ?_⟩
        rintro v w ⟨⟩ ⟨⟩
        exact hc

theorem mem_valueChanges {l r : Value} {d : Difference} :
    d ∈ l.changes r ↔ d ∈ differences l r := (Difference.sortByPath_perm _).mem_iff

/-- The listed differences of two values increase, and no two of them lie on one path. -/
theorem ordered_changes {l r : Value} (hl : l.WellFormed) (hr : r.WellFormed) :
    Difference.Ordered (l.changes r) :=
  (pairwiseApart_differences hl hr).ordered

end Value

namespace Document

/-- Documents are compared as the values they are. -/
theorem changes_eq (left right : Document) :
    left.changes right = left.value.changes right.value := by
  by_cases hsame : left.value.sameValue .sensitive right.value = true
  · rw [changes_eq_nil_iff.mpr hsame, Value.changes, Value.differences_of_sameValue hsame]
    rfl
  · rw [changes, Value.changes, Value.differences.eq_def, if_neg hsame]
    rfl

theorem path_ne_nil_of_mem_changes {left right : Document} {d : Difference}
    (hd : d ∈ left.changes right) : d.path ≠ [] := by
  obtain ⟨s, hs⟩ := (Value.mem_differences left.wellFormed_value right.wellFormed_value trivial).mp
    (mem_changes.mp hd)
  obtain ⟨p, hp⟩ := Value.path_of_mem_beneath hs
  rw [hp]
  exact List.cons_ne_nil s p

theorem get?_of_ne_nil {d : Document} {p : FieldPath} (h : p ≠ []) : d.get? p = d.value.at? p := by
  rw [get?, if_neg (by rwa [List.isEmpty_iff])]

/-- Every difference has an address of its own, where it shows what both documents have. One side at
least is there; if both are, they have different values and are not containers of one kind. -/
theorem changes_addressed (left right : Document) :
    (left.changes right).Pairwise
      (fun d e => compare d.path e.path = .lt ∧ d.path.Apart e.path) ∧
    ∀ d ∈ left.changes right,
      d.left = left.get? d.path ∧ d.right = right.get? d.path ∧
      ¬ (d.left = none ∧ d.right = none) ∧
      ∀ v w, d.left = some v → d.right = some w →
        v.sameValue .sensitive w = false ∧ ¬ Value.SameContainer v w := by
  refine ⟨?_, fun d hd => ?_⟩
  · rw [changes_eq]
    exact Value.ordered_changes left.wellFormed_value right.wellFormed_value
  · have hreports := Value.reports_of_mem_differences left.wellFormed_value
      right.wellFormed_value (mem_changes.mp hd)
    rw [← get?_of_ne_nil (path_ne_nil_of_mem_changes hd),
      ← get?_of_ne_nil (path_ne_nil_of_mem_changes hd)] at hreports
    have hdiffer := hreports.differ
    rw [← hreports.left, ← hreports.right] at hdiffer
    refine ⟨hreports.left, hreports.right, ?_, ?_⟩
    · rintro ⟨hl, hr⟩
      rw [hl, hr] at hdiffer
      exact hdiffer trivial
    · intro v w hv hw
      rw [hv, hw] at hdiffer
      exact ⟨Bool.eq_false_iff.mpr hdiffer,
        hreports.atomic v w (hreports.left ▸ hv) (hreports.right ▸ hw)⟩

end Document

end DatasetCatalog
