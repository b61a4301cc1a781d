/-!
# Finite maps in key order

A map is its list of entries in strictly increasing key order, so equal maps have equal
entries and every listing is sorted. `find?_insert` and `find?_adjust` say what the
operations do to look-up, `mem_keys_iff` and `mem_values_iff` what it says of the listings.
-/

namespace DatasetCatalog

variable {κ α β : Type}

namespace OrderedMap.Entries

variable [Ord κ]

def find? (k : κ) : List (κ × α) → Option α
  | [] => none
  | (l, a) :: rest => if compare k l = .eq then some a else find? k rest

def insert (k : κ) (a : α) : List (κ × α) → List (κ × α)
  | [] => [(k, a)]
  | (l, b) :: rest =>
    match compare k l with
    | .lt => (k, a) :: (l, b) :: rest
    | .eq => (k, a) :: rest
    | .gt => (l, b) :: insert k a rest

def adjust (k : κ) (f : α → α) : List (κ × α) → List (κ × α)
  | [] => []
  | (l, b) :: rest => (l, if compare k l = .eq then f b else b) :: adjust k f rest

/-- Strictly increasing keys. -/
def Sorted (entries : List (κ × α)) : Prop :=
  entries.Pairwise fun a b => compare a.1 b.1 = .lt

theorem keys_adjust (k : κ) (f : α → α) (entries : List (κ × α)) :
    (adjust k f entries).map Prod.fst = entries.map Prod.fst := by
  induction entries with
  | nil => rfl
  | cons e rest ih => simp [adjust, ih]

theorem sorted_iff_keys (entries : List (κ × α)) :
    Sorted entries ↔ (entries.map Prod.fst).Pairwise fun a b => compare a b = .lt := by
  simp [Sorted, List.pairwise_map]

theorem sorted_adjust {k : κ} {f : α → α} {entries : List (κ × α)} (h : Sorted entries) :
    Sorted (adjust k f entries) := by
  rw [sorted_iff_keys, keys_adjust, ← sorted_iff_keys]
  exact h

variable [Std.LawfulEqOrd κ]

theorem mem_keys_insert {k : κ} {a : α} {entries : List (κ × α)} {e : κ × α}
    (h : e ∈ insert k a entries) : e.1 = k ∨ e ∈ entries := by
  induction entries with
  | nil => simp_all [insert]
  | cons d rest ih =>
    simp only [insert] at h
    split at h <;> simp_all <;> grind

theorem find?_insert (k l : κ) (a : α) (entries : List (κ × α)) :
    find? l (insert k a entries) = if compare l k = .eq then some a else find? l entries := by
  induction entries with
  | nil => simp [insert, find?]
  | cons d rest ih =>
    obtain ⟨m, b⟩ := d
    simp only [insert]
    split
    next => simp [find?]
    next hk =>
      have : k = m := Std.LawfulEqOrd.eq_of_compare hk
      subst this
      simp only [find?]
      split <;> simp_all
    next hk =>
      simp only [find?, ih]
      split
      next hl =>
        have : l = m := Std.LawfulEqOrd.eq_of_compare hl
        subst this
        have : compare l k ≠ .eq := by
          intro h
          have : l = k := Std.LawfulEqOrd.eq_of_compare h
          subst this
          simp at hk
        simp [this]
      next => rfl

theorem find?_eq_some_iff {k : κ} {a : α} {entries : List (κ × α)} (h : Sorted entries) :
    find? k entries = some a ↔ (k, a) ∈ entries := by
  induction entries with
  | nil => simp [find?]
  | cons d rest ih =>
    obtain ⟨l, b⟩ := d
    obtain ⟨hl, hrest⟩ := List.pairwise_cons.1 h
    simp only [find?]
    split
    next hk =>
      have : k = l := Std.LawfulEqOrd.eq_of_compare hk
      subst this
      constructor
      · rintro ⟨⟩; simp
      · intro hmem
        rcases List.mem_cons.1 hmem with hmem | hmem
        · injection hmem with _ hab; rw [hab]
        · have := hl _ hmem
          simp at this
    next hk =>
      rw [ih hrest]
      constructor
      · exact List.mem_cons_of_mem _
      · intro hmem
        rcases List.mem_cons.1 hmem with hmem | hmem
        · injection hmem with hkl _
          subst hkl
          simp at hk
        · exact hmem

variable [Std.TransOrd κ]

theorem sorted_insert {k : κ} {a : α} {entries : List (κ × α)} (h : Sorted entries) :
    Sorted (insert k a entries) := by
  induction entries with
  | nil => simp [insert, Sorted]
  | cons d rest ih =>
    obtain ⟨l, b⟩ := d
    obtain ⟨hl, hrest⟩ := List.pairwise_cons.1 h
    simp only [insert]
    split
    next hk =>
      refine List.pairwise_cons.2 ⟨?_, h⟩
      intro e he
      rcases List.mem_cons.1 he with rfl | he
      · exact hk
      · exact Std.TransCmp.lt_trans hk (hl e he)
    next hk =>
      have : k = l := Std.LawfulEqOrd.eq_of_compare hk
      subst this
      exact List.pairwise_cons.2 ⟨hl, hrest⟩
    next hk =>
      refine List.pairwise_cons.2 ⟨?_, ih hrest⟩
      intro e he
      rcases mem_keys_insert he with he | he
      · rw [he]
        exact Std.OrientedCmp.lt_of_gt hk
      · exact hl e he

theorem find?_adjust (k l : κ) (f : α → α) (entries : List (κ × α)) :
    find? l (adjust k f entries) =
      if compare l k = .eq then (find? l entries).map f else find? l entries := by
  induction entries with
  | nil => simp [adjust, find?]
  | cons d rest ih =>
    obtain ⟨m, b⟩ := d
    simp only [adjust, find?, ih]
    split
    next hm =>
      have : l = m := Std.LawfulEqOrd.eq_of_compare hm
      subst this
      by_cases h : compare l k = .eq
      · have : l = k := Std.LawfulEqOrd.eq_of_compare h
        subst this
        simp
      · have : compare k l ≠ .eq := fun h' => h (Std.OrientedCmp.eq_symm h')
        simp [h, this]
    next => rfl

end OrderedMap.Entries

/-- A finite map, listed in strictly increasing key order. -/
structure OrderedMap (κ α : Type) [Ord κ] where
  entries : List (κ × α)
  sorted : OrderedMap.Entries.Sorted entries

namespace OrderedMap

variable [Ord κ]

theorem ext_entries {m n : OrderedMap κ α} (h : m.entries = n.entries) : m = n := by
  cases m; cases n; cases h; rfl

instance [DecidableEq κ] [DecidableEq α] : DecidableEq (OrderedMap κ α) := fun m n =>
  decidable_of_iff (m.entries = n.entries) ⟨ext_entries, fun h => h ▸ rfl⟩

def empty : OrderedMap κ α := ⟨[], .nil⟩

instance : Inhabited (OrderedMap κ α) := ⟨empty⟩

def keys (m : OrderedMap κ α) : List κ := m.entries.map Prod.fst

def values (m : OrderedMap κ α) : List α := m.entries.map Prod.snd

def size (m : OrderedMap κ α) : Nat := m.entries.length

def isEmpty (m : OrderedMap κ α) : Bool := m.entries.isEmpty

def find? (m : OrderedMap κ α) (k : κ) : Option α := Entries.find? k m.entries

def contains (m : OrderedMap κ α) (k : κ) : Bool := (m.find? k).isSome

/-- Applies `f` to the value at `k`, if there is one. -/
def adjust (m : OrderedMap κ α) (k : κ) (f : α → α) : OrderedMap κ α :=
  ⟨Entries.adjust k f m.entries, Entries.sorted_adjust m.sorted⟩

theorem contains_iff {m : OrderedMap κ α} {k : κ} :
    m.contains k = true ↔ ∃ a, m.find? k = some a := Option.isSome_iff_exists

@[simp] theorem find?_empty (k : κ) : (empty : OrderedMap κ α).find? k = none := rfl

variable [Std.LawfulEqOrd κ]

theorem find?_eq_some_iff {m : OrderedMap κ α} {k : κ} {a : α} :
    m.find? k = some a ↔ (k, a) ∈ m.entries :=
  Entries.find?_eq_some_iff m.sorted

theorem mem_keys_iff {m : OrderedMap κ α} {k : κ} : k ∈ m.keys ↔ ∃ a, m.find? k = some a := by
  simp only [keys, List.mem_map, Prod.exists, find?_eq_some_iff]
  exact ⟨fun ⟨_, a, h, hk⟩ => ⟨a, hk ▸ h⟩, fun ⟨a, h⟩ => ⟨k, a, h, rfl⟩⟩

theorem mem_values_iff {m : OrderedMap κ α} {a : α} : a ∈ m.values ↔ ∃ k, m.find? k = some a := by
  simp only [values, List.mem_map, Prod.exists, exists_eq_right, find?_eq_some_iff]

variable [Std.TransOrd κ]

/-- Sets the value at `k`, whatever was there. -/
def insert (m : OrderedMap κ α) (k : κ) (a : α) : OrderedMap κ α :=
  ⟨Entries.insert k a m.entries, Entries.sorted_insert m.sorted⟩

/-- Later pairs win over earlier ones with the same key. -/
def ofList (pairs : List (κ × α)) : OrderedMap κ α :=
  pairs.foldl (fun m p => m.insert p.1 p.2) empty

theorem find?_insert (m : OrderedMap κ α) (k l : κ) (a : α) :
    (m.insert k a).find? l = if compare l k = .eq then some a else m.find? l :=
  Entries.find?_insert k l a m.entries

theorem find?_adjust (m : OrderedMap κ α) (k l : κ) (f : α → α) :
    (m.adjust k f).find? l = if compare l k = .eq then (m.find? l).map f else m.find? l :=
  Entries.find?_adjust k l f m.entries

@[simp] theorem find?_insert_self (m : OrderedMap κ α) (k : κ) (a : α) :
    (m.insert k a).find? k = some a := by
  simp [find?_insert]

theorem find?_insert_of_ne (m : OrderedMap κ α) {k l : κ} (a : α) (h : l ≠ k) :
    (m.insert k a).find? l = m.find? l := by
  have : compare l k ≠ .eq := fun e => h (Std.LawfulEqOrd.eq_of_compare e)
  simp [find?_insert, this]

theorem find?_foldl_insert_of_ne {pairs : List (κ × α)} (m : OrderedMap κ α) {k : κ}
    (h : ∀ p ∈ pairs, p.1 ≠ k) :
    (pairs.foldl (fun m p => m.insert p.1 p.2) m).find? k = m.find? k := by
  induction pairs generalizing m with
  | nil => rfl
  | cons p pairs ih =>
    rw [List.foldl_cons, ih _ fun q hq => h q (List.mem_cons_of_mem _ hq)]
    exact find?_insert_of_ne m _ (Ne.symm (h p List.mem_cons_self))

/-- A key that is set has a value that it was set to. -/
theorem find?_foldl_insert_of_mem {pairs : List (κ × α)} (m : OrderedMap κ α) {k : κ}
    (h : ∃ p ∈ pairs, p.1 = k) :
    ∃ a, (k, a) ∈ pairs ∧ (pairs.foldl (fun m p => m.insert p.1 p.2) m).find? k = some a := by
  induction pairs generalizing m with
  | nil => simp at h
  | cons p pairs ih =>
    by_cases hlater : ∃ q ∈ pairs, q.1 = k
    · obtain ⟨a, ha, hfind⟩ := ih (m.insert p.1 p.2) hlater
      exact ⟨a, List.mem_cons_of_mem _ ha, hfind⟩
    · have hp : p.1 = k := by
        obtain ⟨q, hq, hk⟩ := h
        rcases List.mem_cons.1 hq with rfl | hq
        · exact hk
        · exact (hlater ⟨q, hq, hk⟩).elim
      refine ⟨p.2, hp ▸ List.mem_cons_self, ?_⟩
      rw [List.foldl_cons, find?_foldl_insert_of_ne _ fun q hq hk => hlater ⟨q, hq, hk⟩, ← hp]
      exact find?_insert_self m p.1 p.2

theorem mem_of_find?_ofList {pairs : List (κ × α)} {k : κ} {a : α}
    (h : (ofList pairs).find? k = some a) : (k, a) ∈ pairs := by
  by_cases hk : ∃ p ∈ pairs, p.1 = k
  · obtain ⟨b, hb, hfind⟩ := find?_foldl_insert_of_mem empty hk
    cases h.symm.trans hfind
    exact hb
  · rw [ofList, find?_foldl_insert_of_ne _ fun p hp he => hk ⟨p, hp, he⟩] at h
    cases h

theorem mem_keys_ofList {pairs : List (κ × α)} {k : κ} :
    k ∈ (ofList pairs).keys ↔ ∃ a, (k, a) ∈ pairs := by
  rw [mem_keys_iff]
  constructor
  · rintro ⟨a, ha⟩
    exact ⟨a, mem_of_find?_ofList ha⟩
  · rintro ⟨a, ha⟩
    obtain ⟨b, -, hb⟩ := find?_foldl_insert_of_mem empty ⟨(k, a), ha, rfl⟩
    exact ⟨b, hb⟩

end OrderedMap

end DatasetCatalog
