import DatasetCatalog.OrderedMap
import Mathlib.Data.List.Sort

/-!
# Equality of maps

Maps in which every key finds the same are the same: a map lists its entries in strictly increasing
order, so there is only one way to list them. So a map is made again from its entries.
-/

namespace DatasetCatalog.OrderedMap

variable {κ α : Type} [Ord κ] [Std.LawfulEqOrd κ] [Std.TransOrd κ]

theorem ext_find? {m n : OrderedMap κ α} (h : ∀ k, m.find? k = n.find? k) : m = n := by
  have hirrefl : Std.Irrefl fun a b : κ × α => compare a.1 b.1 = .lt :=
    ⟨fun a ha => by simp at ha⟩
  have hantisymm : Std.Antisymm fun a b : κ × α => compare a.1 b.1 = .lt :=
    ⟨fun a b hab hba => (Std.OrientedCmp.not_lt_of_lt hab hba).elim⟩
  refine ext_entries (List.Pairwise.eq_of_mem_iff m.sorted n.sorted ?_)
  rintro ⟨k, a⟩
  rw [← find?_eq_some_iff, ← find?_eq_some_iff, h k]

theorem contains_insert {m : OrderedMap κ α} {k l : κ} {a : α} :
    (m.insert k a).contains l = true ↔ l = k ∨ m.contains l = true := by
  rw [contains, contains, find?_insert]
  split
  next hl => simp [Std.LawfulEqOrd.eq_of_compare hl]
  next hl =>
    have hne : l ≠ k := fun h => hl (h ▸ Std.ReflOrd.compare_self)
    simp [hne]

omit [Std.LawfulEqOrd κ] [Std.TransOrd κ] in
theorem Entries.length_insert {k : κ} {a : α} {entries : List (κ × α)}
    (h : find? k entries = none) : (insert k a entries).length = entries.length + 1 := by
  induction entries with
  | nil => rfl
  | cons e entries ih =>
      rw [find?] at h
      rw [insert]
      split at h
      next => cases h
      next hne =>
        split
        next => rfl
        next heq => exact (hne heq).elim
        next => rw [List.length_cons, List.length_cons, ih h]

/-- A new key makes the map larger by one. -/
theorem size_insert {m : OrderedMap κ α} {k : κ} {a : α} (h : m.contains k = false) :
    (m.insert k a).size = m.size + 1 :=
  Entries.length_insert (Option.isSome_eq_false_iff.mp h |> Option.isNone_iff_eq_none.mp)

/-- A set is what it contains. -/
theorem ext_contains {m n : OrderedMap κ Unit} (h : ∀ k, m.contains k = n.contains k) : m = n := by
  apply ext_find?
  intro k
  have hk := h k
  rw [contains, contains] at hk
  cases hm : m.find? k <;> cases hn : n.find? k <;> simp_all

omit [Std.TransOrd κ] in
theorem nodup_keys (m : OrderedMap κ α) : m.keys.Nodup := by
  refine List.pairwise_map.mpr (m.sorted.imp fun {a b} hlt hsame => ?_)
  rw [hsame, Std.ReflOrd.compare_self] at hlt
  cases hlt

/-- Distinct keys find what they are listed with. -/
theorem ofList_entries (m : OrderedMap κ α) : ofList m.entries = m := by
  refine ext_find? fun k => ?_
  cases hk : m.find? k with
  | none =>
      rw [ofList, find?_foldl_insert_of_ne, find?_empty]
      rintro ⟨l, a⟩ hp rfl
      cases hk.symm.trans (find?_eq_some_iff.mpr hp)
  | some a =>
      obtain ⟨b, hb, hfind⟩ :=
        find?_foldl_insert_of_mem empty ⟨(k, a), find?_eq_some_iff.mp hk, rfl⟩
      rw [ofList, hfind, ← find?_eq_some_iff.mpr hb, hk]

/-- When all keys are different, each of them finds the value that it came with. -/
theorem find?_ofList_of_mem {pairs : List (κ × α)} (h : (pairs.map Prod.fst).Nodup) {k : κ} {a : α}
    (hp : (k, a) ∈ pairs) : (ofList pairs).find? k = some a := by
  obtain ⟨b, hb, hfind⟩ := find?_foldl_insert_of_mem empty ⟨(k, a), hp, rfl⟩
  cases List.inj_on_of_nodup_map h hp hb rfl
  exact hfind

/-- Pairs whose keys are all different lose no value. -/
theorem mem_values_ofList {pairs : List (κ × α)} (h : (pairs.map Prod.fst).Nodup) {a : α} :
    a ∈ (ofList pairs).values ↔ a ∈ pairs.map Prod.snd := by
  rw [mem_values_iff]
  constructor
  · rintro ⟨k, hk⟩
    exact List.mem_map.mpr ⟨(k, a), mem_of_find?_ofList hk, rfl⟩
  · intro ha
    obtain ⟨⟨k, _⟩, hp, rfl⟩ := List.mem_map.mp ha
    exact ⟨k, find?_ofList_of_mem h hp⟩

/-- The same keys, each with what `f` makes of its value. -/
def mapValues {β : Type} (f : α → β) (m : OrderedMap κ α) : OrderedMap κ β where
  entries := m.entries.map fun e => (e.1, f e.2)
  sorted := by
    rw [Entries.Sorted, List.pairwise_map]
    exact m.sorted

omit [Std.LawfulEqOrd κ] [Std.TransOrd κ] in
theorem Entries.find?_map {β : Type} (f : α → β) (k : κ) (entries : List (κ × α)) :
    find? k (entries.map fun e => (e.1, f e.2)) = (find? k entries).map f := by
  induction entries with
  | nil => rfl
  | cons e entries ih =>
      rw [List.map_cons, find?, find?, ih]
      split <;> rfl

omit [Std.LawfulEqOrd κ] [Std.TransOrd κ] in
@[simp] theorem find?_mapValues {β : Type} (f : α → β) (m : OrderedMap κ α) (k : κ) :
    (m.mapValues f).find? k = (m.find? k).map f :=
  Entries.find?_map f k m.entries

omit [Std.LawfulEqOrd κ] [Std.TransOrd κ] in
@[simp] theorem contains_mapValues {β : Type} (f : α → β) (m : OrderedMap κ α) (k : κ) :
    (m.mapValues f).contains k = m.contains k := by
  rw [contains, contains, find?_mapValues, Option.isSome_map]

theorem mapValues_insert {β : Type} (f : α → β) (m : OrderedMap κ α) (k : κ) (a : α) :
    (m.insert k a).mapValues f = (m.mapValues f).insert k (f a) := by
  refine ext_find? fun l => ?_
  simp only [find?_mapValues, find?_insert]
  split <;> rfl

theorem mapValues_ofList {β : Type} (f : α → β) (pairs : List (κ × α)) :
    (ofList pairs).mapValues f = ofList (pairs.map fun p => (p.1, f p.2)) := by
  have hfold : ∀ m : OrderedMap κ α,
      (pairs.foldl (fun m p => m.insert p.1 p.2) m).mapValues f =
        (pairs.map fun p => (p.1, f p.2)).foldl (fun m p => m.insert p.1 p.2) (m.mapValues f) := by
    induction pairs with
    | nil => exact fun _ => rfl
    | cons p pairs ih =>
        intro m
        rw [List.map_cons, List.foldl_cons, List.foldl_cons, ih, mapValues_insert]
  exact hfold empty

/-- The later of two values for a key is kept. -/
theorem insert_insert (m : OrderedMap κ α) (k : κ) (a b : α) :
    (m.insert k a).insert k b = m.insert k b := by
  apply ext_find?
  intro l
  simp only [find?_insert]
  split <;> rfl

theorem insert_comm (m : OrderedMap κ α) {k l : κ} {a b : α} (h : k = l → a = b) :
    (m.insert k a).insert l b = (m.insert l b).insert k a := by
  apply ext_find?
  intro x
  simp only [find?_insert]
  split
  next hl =>
    split
    next hk =>
      have hsame := (Std.LawfulEqOrd.eq_of_compare hk).symm.trans (Std.LawfulEqOrd.eq_of_compare hl)
      rw [h hsame]
    next => rfl
  next => rfl

/-- Two changes at one key are one. -/
theorem adjust_adjust (m : OrderedMap κ α) (k : κ) (f g : α → α) :
    (m.adjust k f).adjust k g = m.adjust k fun a => g (f a) := by
  refine ext_find? fun l => ?_
  simp only [find?_adjust]
  split
  next => rw [Option.map_map]; rfl
  next => rfl

theorem adjust_comm (m : OrderedMap κ α) {k l : κ} (h : k ≠ l) (f g : α → α) :
    (m.adjust k f).adjust l g = (m.adjust l g).adjust k f := by
  apply ext_find?
  intro x
  simp only [find?_adjust]
  split
  next hl =>
    have hk : compare x k ≠ .eq := fun hk =>
      h ((Std.LawfulEqOrd.eq_of_compare hk).symm.trans (Std.LawfulEqOrd.eq_of_compare hl))
    rw [if_neg hk, if_neg hk]
  next => rfl

/-- A change matters only at the value that it is made to. -/
theorem adjust_congr {m : OrderedMap κ α} {k : κ} {a : α} (h : m.find? k = some a) {f g : α → α}
    (hfg : f a = g a) : m.adjust k f = m.adjust k g := by
  refine ext_find? fun l => ?_
  simp only [find?_adjust]
  split
  next hl =>
    rw [Std.LawfulEqOrd.eq_of_compare hl, h, Option.map_some, Option.map_some, hfg]
  next => rfl

end DatasetCatalog.OrderedMap
