import DatasetCatalog.Proofs.Batch.Restoration
import Mathlib.Data.List.Perm.Subperm
import Mathlib.Logic.Relation

/-!
# What a derived set holds

The search for what is derived from a dataset goes through the catalog level by level. `Explored` is
what holds between two levels: everything at most `n` derivations away is found, once each and
nearest first, and the level is what is exactly `n` away. The next level is then what is exactly
`n + 1` away, and the search ends with the first empty one. It need not be cut off, because every
level but the last holds a dataset that was not found before. The search is the one by a queue, each
dataset being taken up in the order in which it was found (`WorkedOff`).
-/

namespace DatasetCatalog

namespace Catalog

/-- No look-up meets a record whose product is not registered. -/
def Readable (c : Catalog) : Prop := ∀ id, ∃ found, c.get? id = .ok found

/-- `b` is among what is derived from `a` at first hand. -/
def Derives (c : Catalog) (a b : Identity) : Prop :=
  ∃ es, c.getDerived a = .ok es ∧ b ∈ es.map Entry.id

/-- A chain of that many derivations leads from `root` to the dataset. -/
inductive Reaches (c : Catalog) (root : Identity) : Nat → Identity → Prop
  | start : Reaches c root 0 root
  | step {n : Nat} {a b : Identity} : Reaches c root n a → c.Derives a b → Reaches c root (n + 1) b

/-- No shorter chain leads there. -/
def Distance (c : Catalog) (root id : Identity) (n : Nat) : Prop :=
  c.Reaches root n id ∧ ∀ m, c.Reaches root m id → n ≤ m

/-- Every entry is at least as near to the root as those after it. -/
def NearestFirst (c : Catalog) (root : Identity) (es : List Entry) : Prop :=
  es.Pairwise fun e f => ∀ m n, c.Distance root e.id m → c.Distance root f.id n → m ≤ n

/-- Those of the entries whose identity is not among the found ones. -/
def unseen (found es : List Entry) : List Entry :=
  es.filter fun d => !found.any fun f => f.id == d.id

/-- Taking the first of the queue, and putting at its end what is derived from it and not yet found,
empties the queue and leaves these entries found. -/
inductive WorkedOff (c : Catalog) : List Identity → List Entry → List Entry → Prop
  | done {found : List Entry} : WorkedOff c [] found found
  | next {id : Identity} {queue : List Identity} {found derived out : List Entry} :
    c.getDerived id = .ok derived →
    WorkedOff c (queue ++ (unseen found derived).map Entry.id) (found ++ unseen found derived) out →
    WorkedOff c (id :: queue) found out

variable {c : Catalog} {root id : Identity} {n : Nat} {found level next out : List Entry}

theorem mem_unseen {es : List Entry} {e : Entry} :
    e ∈ unseen found es ↔ e ∈ es ∧ e.id ∉ found.map Entry.id := by
  rw [unseen, List.mem_filter, Bool.not_eq_true', List.any_eq_false]
  refine and_congr_right fun _ => ⟨fun hnone hmem => ?_, fun hnew f hf hsame => ?_⟩
  · obtain ⟨f, hf, hsame⟩ := List.mem_map.mp hmem
    exact hnone f hf (beq_iff_eq.mpr hsame)
  · exact hnew (List.mem_map.mpr ⟨f, hf, beq_iff_eq.mp hsame⟩)

theorem nodup_append_unseen {es : List Entry} (hfound : (found.map Entry.id).Nodup)
    (hes : (es.map Entry.id).Nodup) : ((found ++ unseen found es).map Entry.id).Nodup := by
  rw [List.map_append, List.nodup_append]
  refine ⟨hfound, hes.sublist (List.filter_sublist.map _), ?_⟩
  rintro id hid _ hnew rfl
  obtain ⟨e, he, rfl⟩ := List.mem_map.mp hnew
  exact (mem_unseen.mp he).2 hid

/-! ## Look-ups -/

theorem readable_of_registered (h : ∀ d ∈ c.datasets.values, (c.product? d.product).isSome) :
    c.Readable := by
  intro id
  rw [get?]
  split
  next => exact ⟨none, rfl⟩
  next d hd =>
    obtain ⟨p, hp⟩ := Option.isSome_iff_exists.mp (h d (OrderedMap.mem_values_iff.mpr ⟨id, hd⟩))
    rw [entry, hp]
    exact ⟨_, rfl⟩

theorem Readable.entry (h : c.Readable) {d : StoredDataset} (hd : c.datasets.find? id = some d) :
    ∃ e, c.entry d = .ok e ∧ c.get id = .ok e := by
  obtain ⟨found, hfound⟩ := h id
  have hget := hfound
  rw [get?, hd] at hfound
  obtain ⟨e, he, rfl⟩ := map_eq_ok.mp hfound
  exact ⟨e, he, bind_eq_ok.mpr ⟨_, hget, rfl⟩⟩

theorem get_of_unknown (h : c.datasets.contains id = false) : c.get id = .error (.notFound id) := by
  have hnone : c.datasets.find? id = none :=
    Option.not_isSome_iff_eq_none.mp (Bool.eq_false_iff.mp h)
  rw [get, get?, hnone]
  rfl

/-- What is derived from a dataset is listed by identity, without those that are not recorded. -/
theorem ids_of_getDerived {es : List Entry} (h : c.getDerived id = .ok es) :
    es.map Entry.id =
      (((c.derived.find? id).map OrderedMap.keys).getD []).filter c.datasets.contains := by
  rw [getDerived] at h
  split at h
  next hnone =>
    cases h
    rw [hnone]
    rfl
  next wanted hwanted =>
    rw [hwanted, Option.map_some, Option.getD_some]
    have hids : List.Forall₂ (· = ·)
        ((wanted.keys.filterMap c.datasets.find?).map StoredDataset.id) (es.map Entry.id) := by
      rw [List.forall₂_map_left_iff, List.forall₂_map_right_iff]
      exact (mapM_eq_ok.mp h).imp fun _ _ hentry => (entry_id hentry).symm
    rw [List.forall₂_eq_eq_eq] at hids
    rw [← hids]
    induction wanted.keys with
    | nil => rfl
    | cons key keys ih =>
        cases hd : c.datasets.find? key with
        | none =>
            rw [List.filterMap_cons_none hd, ih, List.filter_cons_of_neg]
            simp [OrderedMap.contains, hd]
        | some d =>
            rw [List.filterMap_cons_some hd, List.map_cons, ih, c.keyed key d hd,
              List.filter_cons_of_pos]
            exact OrderedMap.contains_iff.mpr ⟨d, hd⟩

theorem nodup_ids_of_getDerived {es : List Entry} (h : c.getDerived id = .ok es) :
    (es.map Entry.id).Nodup := by
  rw [ids_of_getDerived h]
  refine List.Nodup.filter _ ?_
  cases c.derived.find? id with
  | none => exact List.nodup_nil
  | some wanted => exact wanted.nodup_keys

theorem Readable.getDerived (h : c.Readable) (id : Identity) :
    ∃ es, c.getDerived id = .ok es ∧ ∀ e ∈ es, c.get e.id = .ok e := by
  have hexists : ∃ es, c.getDerived id = .ok es := by
    rw [Catalog.getDerived]
    split
    next => exact ⟨[], rfl⟩
    next wanted _ =>
      apply exists_mapM_ok
      intro d hd
      obtain ⟨key, -, hkey⟩ := List.mem_filterMap.mp hd
      obtain ⟨e, hentry, -⟩ := h.entry hkey
      exact ⟨e, hentry⟩
  obtain ⟨es, hes⟩ := hexists
  exact ⟨es, hes, get_of_getDerived hes⟩

/-! ## Distances -/

theorem Reaches.exists_distance (h : c.Reaches root n id) : ∃ m ≤ n, c.Distance root id m := by
  classical
  have hex : ∃ m, c.Reaches root m id := ⟨n, h⟩
  exact ⟨Nat.find hex, Nat.find_min' hex h, Nat.find_spec hex, fun _ hm => Nat.find_min' hex hm⟩

theorem Distance.unique {m : Nat} (h : c.Distance root id n) (h' : c.Distance root id m) : n = m :=
  Nat.le_antisymm (h.2 m h'.1) (h'.2 n h.1)

/-- What is `n + 1` away is derived from something `n` away, and is nothing nearer. -/
theorem distance_succ_iff : c.Distance root id (n + 1) ↔
    (¬ ∃ m ≤ n, c.Reaches root m id) ∧ ∃ a, c.Distance root a n ∧ c.Derives a id := by
  constructor
  · rintro ⟨hreach, hleast⟩
    refine ⟨fun ⟨m, hm, hnear⟩ => ?_, ?_⟩
    · have hle := hleast m hnear
      omega
    · cases hreach with
      | @step _ a _ ha hderives =>
          refine ⟨a, ⟨ha, fun m hm => ?_⟩, hderives⟩
          have hle := hleast (m + 1) (.step hm hderives)
          omega
  · rintro ⟨hfar, a, ha, hderives⟩
    refine ⟨.step ha.1 hderives, fun m hm => ?_⟩
    by_contra hlt
    exact hfar ⟨m, by omega, hm⟩

/-- If nothing is at one distance, nothing is farther away. -/
theorem reaches_le_of_no_distance (h : ∀ id, ¬ c.Distance root id n) {m : Nat}
    (hreach : c.Reaches root m id) : ∃ k ≤ n, c.Reaches root k id := by
  induction hreach with
  | start => exact ⟨0, Nat.zero_le n, .start⟩
  | @step _ a b _ hderives ih =>
      obtain ⟨k, hk, ha⟩ := ih
      obtain ⟨near, hnear, hdistance⟩ := ha.exists_distance
      have hne : near ≠ n := by
        rintro rfl
        exact h a hdistance
      exact ⟨near + 1, by omega, .step hdistance.1 hderives⟩

theorem reaches_iff_reflTransGen :
    (∃ n, c.Reaches root n id) ↔ Relation.ReflTransGen c.Derives root id := by
  constructor
  · rintro ⟨n, hreach⟩
    induction hreach with
    | start => exact .refl
    | step _ hderives ih => exact ih.tail hderives
  · intro h
    induction h with
    | refl => exact ⟨0, .start⟩
    | tail _ hderives ih =>
        obtain ⟨n, hreach⟩ := ih
        exact ⟨n + 1, hreach.step hderives⟩

/-! ## One level -/

theorem exists_nextLevel (h : c.Readable) (level : List Entry)
    (hnodup : ((found ++ next).map Entry.id).Nodup) (hreads : ∀ e ∈ next, c.get e.id = .ok e) :
    ∃ out, c.nextLevel found level next = .ok out ∧ ((found ++ out).map Entry.id).Nodup ∧
      (∀ e ∈ out, c.get e.id = .ok e) ∧
      ∀ id, id ∈ (found ++ out).map Entry.id ↔
        id ∈ (found ++ next).map Entry.id ∨ ∃ a ∈ level.map Entry.id, c.Derives a id := by
  induction level generalizing next with
  | nil => exact ⟨next, rfl, hnodup, hreads, by simp⟩
  | cons e level ih =>
      obtain ⟨derived, hderived, hread⟩ := h.getDerived e.id
      have hnodup' := nodup_append_unseen hnodup (nodup_ids_of_getDerived hderived)
      rw [List.append_assoc] at hnodup'
      have hreads' : ∀ d ∈ next ++ unseen (found ++ next) derived, c.get d.id = .ok d := by
        intro d hd
        rcases List.mem_append.mp hd with hd | hd
        · exact hreads d hd
        · exact hread d (mem_unseen.mp hd).1
      obtain ⟨out, hout, hdistinct, hall, hmem⟩ := ih hnodup' hreads'
      refine ⟨out, bind_eq_ok.mpr ⟨derived, hderived, hout⟩, hdistinct, hall, fun id => ?_⟩
      have hfirst : c.Derives e.id id ↔ id ∈ derived.map Entry.id := by
        refine ⟨?_, fun hid => ⟨derived, hderived, hid⟩⟩
        rintro ⟨_, hsame, hid⟩
        cases hderived.symm.trans hsame
        exact hid
      have hunseen : id ∈ (found ++ (next ++ unseen (found ++ next) derived)).map Entry.id ↔
          id ∈ (found ++ next).map Entry.id ∨ c.Derives e.id id := by
        rw [hfirst, ← List.append_assoc, List.map_append, List.mem_append]
        simp only [List.mem_map, mem_unseen]
        constructor
        · rintro (hid | ⟨d, ⟨hd, -⟩, rfl⟩)
          · exact .inl hid
          · exact .inr ⟨d, hd, rfl⟩
        · rintro (hid | ⟨d, hd, rfl⟩)
          · exact .inl hid
          · by_cases hseen : d.id ∈ (found ++ next).map Entry.id
            · exact .inl (List.mem_map.mp hseen)
            · exact .inr ⟨d, ⟨hd, fun hs => hseen (List.mem_map.mpr hs)⟩, rfl⟩
      rw [hmem id, hunseen, or_assoc, List.map_cons, List.exists_mem_cons_iff]

/-! ## All levels -/

/-- Everything at most `n` away has been found, and the level is what is `n` away. -/
structure Explored (c : Catalog) (root : Identity) (n : Nat) (found level : List Entry) : Prop where
  reads : ∀ e ∈ found, c.get e.id = .ok e
  nodup : (found.map Entry.id).Nodup
  mem_found : ∀ id, id ∈ found.map Entry.id ↔ ∃ m ≤ n, c.Reaches root m id
  mem_level : ∀ id, id ∈ level.map Entry.id ↔ c.Distance root id n
  ordered : c.NearestFirst root found

theorem explored_start {target : Entry} (h : c.get root = .ok target) :
    Explored c root 0 [target] [target] := by
  have hid := id_of_get h
  refine ⟨?_, List.nodup_singleton _, ?_, ?_, List.pairwise_singleton _ _⟩
  · intro e he
    rw [List.mem_singleton.mp he, hid, h]
  · intro id
    rw [List.map_singleton, List.mem_singleton, hid]
    constructor
    · rintro rfl
      exact ⟨0, Nat.le_refl 0, .start⟩
    · rintro ⟨m, hm, hreach⟩
      cases hreach with
      | start => rfl
      | step => omega
  · intro id
    rw [List.map_singleton, List.mem_singleton, hid]
    constructor
    · rintro rfl
      exact ⟨.start, fun m _ => Nat.zero_le m⟩
    · rintro ⟨hreach, -⟩
      cases hreach
      rfl

/-- A level finds exactly what is one derivation farther away. -/
theorem Explored.exists_next (h : Explored c root n found level) (hread : c.Readable) :
    ∃ next, c.nextLevel found level [] = .ok next ∧
      Explored c root (n + 1) (found ++ next) next := by
  obtain ⟨next, hnext, hnodup, hreads, hmem⟩ :=
    exists_nextLevel hread level (by rw [List.append_nil]; exact h.nodup)
      fun e he => (List.not_mem_nil he).elim
  have hlevel : ∀ id, id ∈ next.map Entry.id ↔ c.Distance root id (n + 1) := by
    intro id
    have hid := hmem id
    have hapart : id ∈ next.map Entry.id → id ∉ found.map Entry.id := by
      intro hnew hold
      rw [List.map_append, List.nodup_append] at hnodup
      exact hnodup.2.2 id hold id hnew rfl
    have hderived : (∃ a ∈ level.map Entry.id, c.Derives a id) ↔
        ∃ a, c.Distance root a n ∧ c.Derives a id := by
      simp only [h.mem_level]
    rw [List.append_nil, List.map_append, List.mem_append, hderived] at hid
    rw [distance_succ_iff, ← h.mem_found]
    constructor
    · exact fun hnew => ⟨hapart hnew, (hid.mp (.inr hnew)).resolve_left (hapart hnew)⟩
    · exact fun ⟨hnew, hfrom⟩ => (hid.mpr (.inr hfrom)).resolve_left hnew
  refine ⟨next, hnext, ?_, hnodup, ?_, hlevel, ?_⟩
  · intro e he
    rcases List.mem_append.mp he with he | he
    · exact h.reads e he
    · exact hreads e he
  · intro id
    rw [List.map_append, List.mem_append, h.mem_found, hlevel]
    constructor
    · rintro (⟨m, hm, hreach⟩ | hdistance)
      · exact ⟨m, Nat.le_succ_of_le hm, hreach⟩
      · exact ⟨n + 1, Nat.le_refl _, hdistance.1⟩
    · rintro ⟨m, hm, hreach⟩
      obtain ⟨k, hk, hdistance⟩ := hreach.exists_distance
      rcases Nat.lt_or_ge n k with hlt | hle
      · have hsame : k = n + 1 := by omega
        exact .inr (hsame ▸ hdistance)
      · exact .inl ⟨k, hle, hdistance.1⟩
  · refine List.pairwise_append.mpr ⟨h.ordered, ?_, ?_⟩
    · refine List.pairwise_of_forall_mem_list fun e he f hf m k hm hk => ?_
      rw [hm.unique ((hlevel e.id).mp (List.mem_map_of_mem he)),
        hk.unique ((hlevel f.id).mp (List.mem_map_of_mem hf))]
    · intro e he f hf m k hm hk
      obtain ⟨near, hnear, hreach⟩ := (h.mem_found e.id).mp (List.mem_map_of_mem he)
      have hle := hm.2 near hreach
      rw [hk.unique ((hlevel f.id).mp (List.mem_map_of_mem hf))]
      omega

/-- There are no more found entries than datasets. -/
theorem Explored.length_le (h : Explored c root n found level) : found.length ≤ c.size := by
  have hsub : found.map Entry.id ⊆ c.datasets.keys := by
    intro id hid
    obtain ⟨e, he, rfl⟩ := List.mem_map.mp hid
    exact OrderedMap.mem_keys_iff.mpr (OrderedMap.contains_iff.mp (contains_of_get (h.reads e he)))
  have hle := (h.nodup.subperm hsub).length_le
  rwa [List.length_map, OrderedMap.keys, List.length_map] at hle

/-- Once a level is empty, everything that can be reached is found. -/
theorem Explored.complete (h : Explored c root n found []) (id : Identity) :
    id ∈ found.map Entry.id ↔ Relation.ReflTransGen c.Derives root id := by
  rw [h.mem_found, ← reaches_iff_reflTransGen]
  refine ⟨fun ⟨m, _, hreach⟩ => ⟨m, hreach⟩, fun ⟨m, hreach⟩ => ?_⟩
  refine reaches_le_of_no_distance (fun id hdistance => ?_) hreach
  exact List.not_mem_nil ((h.mem_level id).mpr hdistance)

/-- A level is what stands first in the queue, the next level what has been put behind it. -/
theorem WorkedOff.of_nextLevel {after : List Entry} (h : c.nextLevel found level next = .ok after)
    (hrest : WorkedOff c (after.map Entry.id) (found ++ after) out) :
    WorkedOff c ((level ++ next).map Entry.id) (found ++ next) out := by
  induction level generalizing next with
  | nil =>
      cases h
      exact hrest
  | cons e level ih =>
      obtain ⟨derived, hderived, h⟩ := bind_eq_ok.mp h
      have hqueue := ih h
      rw [← List.append_assoc, ← List.append_assoc, List.map_append] at hqueue
      exact .next hderived hqueue

/-- With more levels than datasets are missing the search is not cut off: it ends with an empty
level. -/
theorem Explored.exists_levels (hread : c.Readable) {levels : Nat}
    (h : Explored c root n found level) (hlevels : c.size < levels + found.length) :
    ∃ out m, c.derivedLevels levels found level = .ok out ∧ Explored c root m out [] ∧
      WorkedOff c (level.map Entry.id) found out := by
  induction levels generalizing n found level with
  | zero =>
      have hle := h.length_le
      omega
  | succ levels ih =>
      obtain ⟨next, hnext, hexplored⟩ := h.exists_next hread
      have hqueue : ∀ {out}, WorkedOff c (next.map Entry.id) (found ++ next) out →
          WorkedOff c (level.map Entry.id) found out := by
        intro out hrest
        have hall := WorkedOff.of_nextLevel hnext hrest
        rwa [List.append_nil, List.append_nil] at hall
      cases next with
      | nil =>
          rw [List.append_nil] at hexplored hqueue
          exact ⟨found, n + 1, bind_eq_ok.mpr ⟨[], hnext, rfl⟩, hexplored, hqueue .done⟩
      | cons e next =>
          have hmore : c.size < levels + (found ++ e :: next).length := by
            rw [List.length_append, List.length_cons]
            omega
          obtain ⟨out, m, hout, hdone, hrest⟩ := ih hexplored hmore
          exact ⟨out, m, bind_eq_ok.mpr ⟨e :: next, hnext, hout⟩, hdone, hqueue hrest⟩

theorem Readable.exists_derivedSet (h : c.Readable) (hrecorded : c.datasets.contains id = true) :
    ∃ es, c.derivedSet id = .ok es ∧
      ∀ other, other ∈ es.map Entry.id ↔ Relation.ReflTransGen c.Derives id other := by
  obtain ⟨d, hd⟩ := OrderedMap.contains_iff.mp hrecorded
  obtain ⟨target, -, htarget⟩ := h.entry hd
  obtain ⟨es, m, hes, hdone, -⟩ :=
    (explored_start htarget).exists_levels h (Nat.lt_succ_self c.size)
  exact ⟨es, bind_eq_ok.mpr ⟨target, htarget, hes⟩, hdone.complete⟩

/-- The derived set of a recorded dataset begins with it and goes on with the other datasets that
derivations lead to, each once and none before a nearer one; working off a queue finds the same.
An unknown dataset has none. -/
theorem derivedSet_eq_reachable (hread : c.Readable) (root : Identity) :
    (c.datasets.contains root = false → c.derivedSet root = .error (.notFound root)) ∧
      (c.datasets.contains root = true → ∃ target rest,
        c.derivedSet root = .ok (target :: rest) ∧
          WorkedOff c [root] [target] (target :: rest) ∧ target.id = root ∧
          (∀ e ∈ target :: rest, c.get e.id = .ok e) ∧
          ((target :: rest).map Entry.id).Nodup ∧
          (∀ id, id ∈ rest.map Entry.id ↔ id ≠ root ∧ Relation.TransGen c.Derives root id) ∧
          c.NearestFirst root (target :: rest)) := by
  constructor
  · intro hunknown
    rw [derivedSet, get_of_unknown hunknown]
    rfl
  · intro hrecorded
    obtain ⟨d, hd⟩ := OrderedMap.contains_iff.mp hrecorded
    obtain ⟨target, -, htarget⟩ := hread.entry hd
    obtain ⟨out, m, hout, hdone, hqueue⟩ :=
      (explored_start htarget).exists_levels hread (Nat.lt_succ_self c.size)
    have hset : c.derivedSet root = .ok out := bind_eq_ok.mpr ⟨target, htarget, hout⟩
    obtain ⟨⟨first, rest, rfl, hfirst⟩, -⟩ := derivedSet_eq_ok hset
    cases htarget.symm.trans (hfirst ▸ hdone.reads first List.mem_cons_self)
    rw [List.map_singleton, hfirst] at hqueue
    refine ⟨target, rest, hset, hqueue, hfirst, hdone.reads, hdone.nodup, fun id => ?_,
      hdone.ordered⟩
    have hid := hdone.complete id
    have hnew : id ∈ rest.map Entry.id → id ≠ root := by
      rintro hmem rfl
      have hnodup := hdone.nodup
      rw [List.map_cons, hfirst] at hnodup
      exact (List.nodup_cons.mp hnodup).1 hmem
    rw [List.map_cons, List.mem_cons, hfirst, Relation.reflTransGen_iff_eq_or_transGen] at hid
    constructor
    · intro hmem
      exact ⟨hnew hmem, (hid.mp (.inr hmem)).resolve_left (hnew hmem)⟩
    · rintro ⟨hne, hreach⟩
      exact (hid.mpr (.inr hreach)).resolve_left hne

section Ring

/-- Datasets 2 and 3 come from dataset 1, dataset 4 from both of them, and dataset 1 from dataset 4.
What is said to be derived from dataset 2 includes a dataset that is not recorded. -/
def ringCatalog : Catalog :=
  let recorded := [Cascade.windowRecord ⟨1⟩ [("back", ⟨4⟩)] 0,
    Cascade.windowRecord ⟨2⟩ [("a", ⟨1⟩)] 0, Cascade.windowRecord ⟨3⟩ [("a", ⟨1⟩), ("b", ⟨1⟩)] 0,
    Cascade.windowRecord ⟨4⟩ [("a", ⟨2⟩), ("b", ⟨3⟩)] 0].foldl insert
      { empty with products := [⟨"window", none, .empty, []⟩] }
  { recorded with derived := addDerived recorded.derived ⟨2⟩ ⟨9⟩ }

theorem derivedSet_ring :
    ringCatalog.Readable ∧ ringCatalog.datasets.contains ⟨1⟩ = true ∧
      ∃ target rest, ringCatalog.derivedSet ⟨1⟩ = .ok (target :: rest) ∧
        rest.map Entry.id = [⟨2⟩, ⟨3⟩, ⟨4⟩] ∧
        (∀ id, id ∈ rest.map Entry.id ↔
          id ≠ ⟨1⟩ ∧ Relation.TransGen ringCatalog.Derives ⟨1⟩ id) ∧
        ringCatalog.NearestFirst ⟨1⟩ (target :: rest) := by
  have hread : ringCatalog.Readable := readable_of_registered (by decide)
  have hrecorded : ringCatalog.datasets.contains ⟨1⟩ = true := by
    rfl
  have hids : (ringCatalog.derivedSet ⟨1⟩).map (List.map Entry.id) = .ok [⟨1⟩, ⟨2⟩, ⟨3⟩, ⟨4⟩] := by
    rfl
  obtain ⟨target, rest, hset, -, -, -, -, hmem, hordered⟩ :=
    (derivedSet_eq_reachable hread ⟨1⟩).2 hrecorded
  rw [hset] at hids
  exact ⟨hread, hrecorded, target, rest, hset, (List.cons.inj (Except.ok.inj hids)).2, hmem,
    hordered⟩

end Ring

end Catalog

end DatasetCatalog
