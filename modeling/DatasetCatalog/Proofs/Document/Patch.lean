import DatasetCatalog.Proofs.Document.Addressing
import Mathlib.Data.List.Induction

/-!
# Carrying out differences

`Difference.patch` puts the right sides of differences into a value: first those that are there, in
path order, so that sequences grow at their end; then it takes out what the right side lacks, from
the last path on, so that no element moves before its turn. Behind one step of a container a patch
does what the differences below that step do there (`foldl_apply`), and these are again the
differences of the two parts (`below_changes`). So the patch of all differences leads from the left
value to the right one.
-/

namespace DatasetCatalog

namespace Value

/-- Puts a value behind one step: under a key, in place of an element, or after the last one. -/
def assign : Value → Step → Value → Value
  | .mapping fields, .key k, w => .mapping (Fields.put fields k w)
  | .sequence items, .index i, w =>
    .sequence (if i < items.length then items.set i w else items ++ [w])
  | v, _, _ => v

/-- Takes out what is behind one step; later elements of a sequence move up. -/
def discard : Value → Step → Value
  | .mapping fields, .key k => .mapping (Fields.erase fields k)
  | .sequence items, .index i => .sequence (items.eraseIdx i)
  | v, _ => v

/-- Changes what is behind one step, where there may be nothing before or afterwards. -/
def alter (v : Value) (s : Step) (f : Option Value → Option Value) : Value :=
  match f (v.step? s) with
  | some w => v.assign s w
  | none => v.discard s

end Value

namespace Difference

/-- Puts a right side at a path, or takes out what is there. -/
def settle (right : Option Value) : FieldPath → Option Value → Option Value
  | [], _ => right
  | s :: rest, v => v.map fun v => v.alter s (settle right rest)

def apply (v : Option Value) (d : Difference) : Option Value := settle d.right d.path v

/-- The order in which differences are carried out. -/
def script (ds : List Difference) : List Difference :=
  ds.filter (fun d => d.right.isSome) ++ (ds.filter fun d => !d.right.isSome).reverse

/-- The value with the right side of every difference at its path. -/
def patch (ds : List Difference) (v : Option Value) : Option Value := (script ds).foldl apply v

/-- A difference below one step, seen from there. -/
def strip? (s : Step) (d : Difference) : Option Difference :=
  match d.path with
  | [] => none
  | t :: rest => if t = s then some { d with path := rest } else none

/-- The differences below one step, seen from there. -/
def below (s : Step) (ds : List Difference) : List Difference := ds.filterMap (strip? s)

end Difference

namespace Value

variable {v w : Value} {s t : Step} {f : Option Value → Option Value}

/-- The step is of the kind that leads into this container. -/
def Accepts : Value → Step → Prop
  | .mapping _, .key _ => True
  | .sequence _, .index _ => True
  | _, _ => False

theorem Accepts.of_sameContainer (h : Accepts v s) (hc : SameContainer v w) : Accepts w s := by
  cases v <;> cases w <;> cases s <;> trivial

theorem accepts_of_step? (h : v.step? s = some w) : Accepts v s := by
  cases v <;> cases s <;> trivial

theorem SameContainer.trans {u : Value} (h : SameContainer u v) (h' : SameContainer v w) :
    SameContainer u w := by
  cases u <;> cases v <;> cases w <;> trivial

theorem SameContainer.symm (h : SameContainer v w) : SameContainer w v := by
  cases v <;> cases w <;> trivial

theorem isSome_step?_index {i : Nat} (hs : Accepts v (.index i)) :
    ∃ n, ∀ j, (v.step? (.index j)).isSome = decide (j < n) := by
  cases v <;> simp only [Accepts] at hs
  case sequence items =>
    refine ⟨items.length, fun j => ?_⟩
    by_cases hj : j < items.length <;> simp [step?, hj]

theorem sameContainer_alter (hs : Accepts v s) : SameContainer v (v.alter s f) := by
  cases v <;> cases s <;> simp only [Accepts] at hs <;>
    (rw [alter]; split <;> trivial)

theorem WellFormed.assign (hv : v.WellFormed) (hw : w.WellFormed) : (v.assign s w).WellFormed := by
  cases v <;> cases s <;> try exact hv
  case sequence.index items i =>
    refine allWellFormed_iff.mpr fun x hx => ?_
    split at hx
    · rcases List.mem_or_eq_of_mem_set hx with hx | rfl
      · exact allWellFormed_iff.mp hv x hx
      · exact hw
    · rcases List.mem_append.mp hx with hx | hx
      · exact allWellFormed_iff.mp hv x hx
      · cases List.mem_singleton.mp hx
        exact hw
  case mapping.key fields k => exact Fields.WellFormed.put hv k hw

theorem WellFormed.discard (hv : v.WellFormed) : (v.discard s).WellFormed := by
  cases v <;> cases s <;> try exact hv
  case sequence.index items i =>
    exact allWellFormed_iff.mpr fun x hx => allWellFormed_iff.mp hv x (List.mem_of_mem_eraseIdx hx)
  case mapping.key fields k => exact Fields.WellFormed.erase hv k

theorem WellFormed.alter (hv : v.WellFormed) (hf : ∀ w ∈ f (v.step? s), w.WellFormed) :
    (v.alter s f).WellFormed := by
  rw [Value.alter]
  split
  next w hw => exact hv.assign (hf w hw)
  next => exact hv.discard

/-- Elements are appended after the last one and taken out from the last one on. -/
def InTurn (v : Value) (s : Step) (o : Option Value) : Prop :=
  ∀ i j, s = .index i → (if o.isSome then j < i else i < j) →
    (v.step? (.index j)).isSome = o.isSome

/-- What comes in place of something, or nothing in place of nothing, is always in turn. -/
theorem inTurn_of_isSome_eq {o : Option Value} (hs : Accepts v s)
    (h : o.isSome = (v.step? s).isSome) : InTurn v s o := by
  rintro i j rfl hij
  obtain ⟨n, hn⟩ := isSome_step?_index hs
  rw [hn] at h
  rw [hn, h]
  rw [h] at hij
  split at hij <;> simp_all <;> omega

theorem InTurn.le_length {items : List Value} {i : Nat}
    (h : InTurn (.sequence items) (.index i) (some w)) : i ≤ items.length := by
  by_contra hlt
  have hsome := h i items.length rfl (by simpa using hlt)
  simp [step?] at hsome

theorem InTurn.length_le {items : List Value} {i : Nat}
    (h : InTurn (.sequence items) (.index i) none) : items.length ≤ i + 1 := by
  have hnone := h i (i + 1) rfl (by simp)
  simpa [step?] using hnone

theorem getElem?_assigned {items : List Value} {i : Nat} (hi : i ≤ items.length) (w : Value)
    (j : Nat) : (if i < items.length then items.set i w else items ++ [w])[j]? =
      if j = i then some w else items[j]? := by
  split
  next hlt =>
    rw [List.getElem?_set]
    by_cases hij : i = j
    · subst hij
      rw [if_pos rfl, if_pos rfl, if_pos hlt]
    · rw [if_neg hij, if_neg (Ne.symm hij)]
  next hlt =>
    obtain rfl : i = items.length := by omega
    by_cases hj : j = items.length
    · subst hj
      rw [if_pos rfl, List.getElem?_concat_length]
    · rw [if_neg hj, List.getElem?_append]
      split
      next => rfl
      next =>
        rw [List.getElem?_eq_none (by rw [List.length_singleton]; omega),
          List.getElem?_eq_none (by omega)]

theorem getElem?_discarded {items : List Value} {i : Nat} (hi : items.length ≤ i + 1) (j : Nat) :
    (items.eraseIdx i)[j]? = if j = i then none else items[j]? := by
  rw [List.getElem?_eraseIdx]
  split
  next hlt => rw [if_neg (Nat.ne_of_lt hlt)]
  next hle =>
    rw [List.getElem?_eq_none (by omega)]
    split
    · rfl
    · rw [List.getElem?_eq_none (by omega)]

/-- A change behind one step shows there and nowhere else. -/
theorem step?_alter (hv : v.WellFormed) (hs : Accepts v s) (hturn : InTurn v s (f (v.step? s)))
    (t : Step) : (v.alter s f).step? t = if t = s then f (v.step? s) else v.step? t := by
  rw [alter]
  generalize f (v.step? s) = o at hturn
  cases v <;> cases s <;> simp only [Accepts] at hs
  case mapping.key fields k =>
    cases t with
    | index i => cases o <;> simp [assign, discard, step?]
    | key l =>
        cases o with
        | some w => simp only [assign, step?, Fields.find?_put, Step.key.injEq, eq_comm]
        | none => simp only [discard, step?, Fields.find?_erase hv.keys_nodup, Step.key.injEq]
  case sequence.index items i =>
    cases t with
    | key l => cases o <;> simp [assign, discard, step?]
    | index j =>
        cases o with
        | some w => simp only [assign, step?, getElem?_assigned hturn.le_length, Step.index.injEq]
        | none => simp only [discard, step?, getElem?_discarded hturn.length_le, Step.index.injEq]

end Value

theorem FieldPath.compare_cons (s : Step) (p q : FieldPath) :
    compare (s :: p) (s :: q) = compare p q := by
  rw [List.compare_eq_compareLex, List.compareLex_cons_cons, Std.ReflOrd.compare_self]
  rfl

theorem FieldPath.compare_index (i j : Nat) :
    compare ([.index i] : FieldPath) [.index j] = compare i j := by
  rw [List.compare_eq_compareLex, List.compareLex_cons_cons, Step.compare_index]
  cases compare i j <;> rfl

namespace Difference

open Value (Accepts InTurn SameContainer)

variable {ds es : List Difference} {d e : Difference} {s : Step}

theorem under_injective (s : Step) : Function.Injective (under s) := by
  rintro ⟨p, l, r⟩ ⟨q, l', r'⟩ h
  cases h
  rfl

/-! ## Below one step -/

theorem strip?_eq_some : d.strip? s = some e ↔ d = e.under s := by
  constructor
  · intro h
    rw [strip?] at h
    split at h
    next => cases h
    next t rest hpath =>
      split at h
      next hts =>
        cases h
        rw [under, ← hts, ← hpath]
      next => cases h
  · rintro rfl
    simp [strip?, under]

theorem mem_below : d ∈ below s ds ↔ d.under s ∈ ds := by
  simp only [below, List.mem_filterMap, strip?_eq_some, exists_eq_right]

theorem below_append : below s (ds ++ es) = below s ds ++ below s es := List.filterMap_append

theorem below_singleton_of_path {p : FieldPath} (h : d.path = s :: p) :
    below s [d] = [{ d with path := p }] := by
  simp [below, strip?, h]

theorem below_singleton_of_ne {t : Step} {p : FieldPath} (h : d.path = t :: p) (hne : s ≠ t) :
    below s [d] = [] := by
  simp [below, strip?, h, hne.symm]

theorem below_filter (present : Option Value → Bool) :
    below s (ds.filter fun d => present d.right) =
      (below s ds).filter fun d => present d.right := by
  induction ds with
  | nil => rfl
  | cons d ds ih =>
      rw [← List.singleton_append (l := ds), List.filter_append, below_append, below_append,
        List.filter_append, ih]
      congr 1
      cases hp : d.path with
      | nil => by_cases hd : present d.right <;> simp [below, strip?, hp, hd]
      | cons t rest =>
          by_cases hts : t = s <;> by_cases hd : present d.right <;>
            simp [below, strip?, hp, hd, hts]

theorem below_script : below s (script ds) = script (below s ds) := by
  rw [script, script, below_append, ← below_filter Option.isSome,
    ← below_filter fun right => !right.isSome]
  congr 1
  exact List.filterMap_reverse

/-! ## Carrying out a list of differences -/

theorem wellFormed_settle {right v : Option Value} (hright : ∀ w ∈ right, w.WellFormed)
    (hv : ∀ w ∈ v, w.WellFormed) (path : FieldPath) :
    ∀ w ∈ settle right path v, w.WellFormed := by
  induction path generalizing v with
  | nil => exact hright
  | cons s rest ih =>
      intro w hw
      obtain ⟨u, hu, rfl⟩ := Option.map_eq_some_iff.mp hw
      exact (hv u hu).alter (ih fun x hx => (hv u hu).step? hx)

theorem isSome_settle_cons (right v : Option Value) (s : Step) (path : FieldPath) :
    (settle right (s :: path) v).isSome = v.isSome := Option.isSome_map ..

/-- Whether there is something at the end is decided at the root, if it is touched at all. -/
theorem isSome_foldl_apply {v : Option Value} {there : Bool}
    (hes : ∀ e ∈ es, e.path = [] → e.right.isSome = there)
    (h : v.isSome = there ∨ ∃ e ∈ es, e.path = []) : (es.foldl apply v).isSome = there := by
  induction es generalizing v with
  | nil => exact h.resolve_right (by simp)
  | cons e es ih =>
      refine ih (fun d hd => hes d (List.mem_cons_of_mem _ hd)) ?_
      cases hp : e.path with
      | nil =>
          left
          rw [apply, hp]
          exact hes e List.mem_cons_self hp
      | cons s path =>
          rw [apply, hp, isSome_settle_cons]
          refine h.imp_right ?_
          rintro ⟨d, hd, hroot⟩
          rcases List.mem_cons.mp hd with rfl | hd
          · cases hp.symm.trans hroot
          · exact ⟨d, hd, hroot⟩

/-- Differences in a container act behind each step as those below that step. An element must be
appended or taken out when its turn comes; all other changes leave the indices alone. -/
theorem foldl_apply {v : Value} (hv : v.WellFormed) (hc : SameContainer v v)
    (hpath : ∀ e ∈ es, ∃ s p, e.path = s :: p ∧ Accepts v s)
    (hright : ∀ e ∈ es, ∀ w ∈ e.right, w.WellFormed)
    (hturn : ∀ before e after i, es = before ++ e :: after → e.path = [.index i] →
      ∀ j, (if e.right.isSome then j < i else i < j) →
        ((below (.index j) before).foldl apply (v.step? (.index j))).isSome = e.right.isSome) :
    ∃ w, es.foldl apply (some v) = some w ∧ w.WellFormed ∧ SameContainer v w ∧
      ∀ s, w.step? s = (below s es).foldl apply (v.step? s) := by
  induction es using List.reverseRecOn with
  | nil => exact ⟨v, rfl, hv, hc, fun _ => rfl⟩
  | append_singleton es e ih =>
      obtain ⟨w, hrun, hw, hvw, hstep⟩ := ih
        (fun d hd => hpath d (List.mem_append_left _ hd))
        (fun d hd => hright d (List.mem_append_left _ hd))
        fun before d after i hsplit => hturn before d (after ++ [e]) i (by rw [hsplit]; simp)
      have he : e ∈ es ++ [e] := List.mem_append_right _ (List.mem_singleton_self e)
      obtain ⟨s, p, hp, hs⟩ := hpath e he
      have hws := hs.of_sameContainer hvw
      have hinTurn : InTurn w s (settle e.right p (w.step? s)) := by
        cases p with
        | nil =>
            rintro i j rfl hij
            rw [hstep]
            exact hturn es e [] i rfl hp j hij
        | cons t q => exact Value.inTurn_of_isSome_eq hws (isSome_settle_cons ..)
      refine ⟨w.alter s (settle e.right p), ?_, ?_, hvw.trans (Value.sameContainer_alter hws), ?_⟩
      · rw [List.foldl_append, hrun, List.foldl_cons, List.foldl_nil, apply, hp]
        rfl
      · exact hw.alter (wellFormed_settle (hright e he) (fun u hu => hw.step? hu) p)
      · intro t
        rw [Value.step?_alter hw hws hinTurn, below_append, List.foldl_append, ← hstep]
        split
        next hts =>
          subst hts
          rw [below_singleton_of_path hp]
          rfl
        next hne =>
          rw [below_singleton_of_ne hp hne]
          rfl

/-! ## Ordered differences -/

/-- `d` is carried out before `e`. -/
def Precedes (d e : Difference) : Prop :=
  if e.right.isSome then d.right.isSome = true ∧ compare d.path e.path = .lt
  else d.right.isSome = false → compare e.path d.path = .lt

theorem Precedes.index (h : Precedes d e) {i j : Nat} (hd : d.path = [.index i])
    (he : e.path = [.index j]) (hsame : d.right.isSome = e.right.isSome) :
    if d.right.isSome then i < j else j < i := by
  rw [Precedes, ← hsame, hd, he, FieldPath.compare_index, FieldPath.compare_index,
    Nat.compare_eq_lt, Nat.compare_eq_lt] at h
  cases hright : d.right.isSome with
  | true =>
      rw [hright] at h
      exact h.2
  | false =>
      rw [hright] at h
      exact h rfl

theorem mem_script : d ∈ script ds ↔ d ∈ ds := by
  cases hd : d.right.isSome <;> simp only [script, List.mem_append, List.mem_filter,
    List.mem_reverse, hd, Bool.not_true, Bool.not_false, and_true, Bool.false_eq_true, and_false,
    or_false, false_or]

theorem Ordered.script (h : Ordered ds) : (script ds).Pairwise Precedes := by
  have hputs := h.filter fun d => d.right.isSome
  have htakes := h.filter fun d => !d.right.isSome
  refine List.pairwise_append.mpr ⟨?_, List.pairwise_reverse.mpr ?_, ?_⟩
  · refine hputs.imp_of_mem fun {d e} hd he hlt => ?_
    rw [Precedes, if_pos (List.mem_filter.mp he).2]
    exact ⟨(List.mem_filter.mp hd).2, hlt.1⟩
  · refine htakes.imp_of_mem fun {d e} hd he hlt => ?_
    rw [Precedes, if_neg (by simpa using (List.mem_filter.mp hd).2)]
    exact fun _ => hlt.1
  · intro d hd e he
    have hnone := (List.mem_filter.mp (List.mem_reverse.mp he)).2
    rw [Precedes, if_neg (by simpa using hnone), (List.mem_filter.mp hd).2]
    exact fun h => (nomatch h)

theorem Ordered.below (h : Ordered ds) (s : Step) : Ordered (below s ds) := by
  rw [Ordered, Difference.below, List.pairwise_filterMap]
  refine h.imp fun {d e} hde d' hd' e' he' => ?_
  rw [strip?_eq_some.mp hd', strip?_eq_some.mp he', under_path, under_path,
    FieldPath.compare_cons] at hde
  exact ⟨hde.1, hde.2.tail⟩

theorem Ordered.nodup (h : Ordered ds) : ds.Nodup := by
  refine h.imp fun {d e} hde heq => ?_
  rw [heq, Std.ReflOrd.compare_self] at hde
  exact nomatch hde.1

/-- Ordered differences are determined by which ones they are. -/
theorem Ordered.ext (hds : Ordered ds) (hes : Ordered es) (h : ∀ d, d ∈ ds ↔ d ∈ es) : ds = es := by
  refine List.Perm.eq_of_pairwise ?_ hds hes
    ((List.perm_ext_iff_of_nodup hds.nodup hes.nodup).mpr h)
  intro d e _ _ hde hed
  exact (Std.OrientedCmp.not_lt_of_lt hde.1 hed.1).elim

end Difference

namespace Value

/-- The differences between two sides, either of which may be missing. -/
def differencesBetween : Option Value → Option Value → List Difference
  | none, none => []
  | some l, some r => l.changes r
  | l, r => [⟨[], l, r⟩]

theorem mem_differencesBetween {a b : Option Value} {d : Difference} (s : Step) :
    d ∈ differencesBetween a b ↔ d.under s ∈ beneath s a b := by
  cases a <;> cases b
  case none.none => exact ⟨fun h => (nomatch h), fun h => (nomatch h)⟩
  case some.some l r =>
    rw [differencesBetween, beneath, mem_valueChanges,
      List.mem_map_of_injective (Difference.under_injective s)]
  all_goals
    simp only [differencesBetween, beneath, List.mem_singleton]
    exact ((Difference.under_injective s).eq_iff (b := ⟨[], _, _⟩)).symm

theorem ordered_differencesBetween {a b : Option Value} (ha : ∀ v ∈ a, v.WellFormed)
    (hb : ∀ v ∈ b, v.WellFormed) : Difference.Ordered (differencesBetween a b) := by
  cases a <;> cases b
  case some.some l r => exact ordered_changes (ha l rfl) (hb r rfl)
  case none.none => exact .nil
  all_goals exact List.pairwise_singleton _ _

/-- Below a step the differences of two containers are those of the parts behind it. -/
theorem below_changes {l r : Value} (hl : l.WellFormed) (hr : r.WellFormed)
    (hc : SameContainer l r) (s : Step) :
    Difference.below s (l.changes r) = differencesBetween (l.step? s) (r.step? s) := by
  have hparts := ordered_differencesBetween (fun v hv => hl.step? (s := s) hv)
    fun w hw => hr.step? (s := s) hw
  refine ((ordered_changes hl hr).below s).ext hparts fun d => ?_
  rw [mem_differencesBetween s, Difference.mem_below, mem_valueChanges, mem_differences hl hr hc]
  refine ⟨?_, fun h => ⟨s, h⟩⟩
  rintro ⟨t, ht⟩
  obtain ⟨p, hp⟩ := path_of_mem_beneath ht
  cases hp
  exact ht

theorem accepts_of_mem_changes {l r : Value} (hl : l.WellFormed) (hr : r.WellFormed)
    (hc : SameContainer l r) {d : Difference} (hd : d ∈ l.changes r) :
    ∃ s p, d.path = s :: p ∧ Accepts l s := by
  obtain ⟨s, hs⟩ := (mem_differences hl hr hc).mp (mem_valueChanges.mp hd)
  obtain ⟨p, hp⟩ := path_of_mem_beneath hs
  refine ⟨s, p, hp, ?_⟩
  cases hv : l.step? s with
  | some v => exact accepts_of_step? hv
  | none =>
      cases hw : r.step? s with
      | some w => exact (accepts_of_step? hw).of_sameContainer hc.symm
      | none => rw [hv, hw] at hs; cases hs

/-- Where one side has something and the other nothing, this is a difference. -/
theorem mem_differencesBetween_self {a b : Option Value} (h : a.isSome ≠ b.isSome) :
    ⟨[], a, b⟩ ∈ differencesBetween a b := by
  cases a <;> cases b
  case none.none => exact (h rfl).elim
  case some.some => exact (h rfl).elim
  all_goals exact List.mem_singleton_self _

/-- In the script of two containers every element is appended or taken out when its turn comes. -/
theorem inTurn_script {l r : Value} (hl : l.WellFormed) (hr : r.WellFormed)
    (hc : SameContainer l r) {before after : List Difference} {e : Difference} {i j : Nat}
    (hsplit : Difference.script (l.changes r) = before ++ e :: after)
    (hpath : e.path = [.index i]) (hij : if e.right.isSome then j < i else i < j) :
    ((Difference.below (.index j) before).foldl Difference.apply (l.step? (.index j))).isSome =
      e.right.isSome := by
  have hmem : ∀ d ∈ before ++ e :: after, d ∈ l.changes r := fun d hd =>
    Difference.mem_script.mp (hsplit ▸ hd)
  have hright : ∀ d ∈ before ++ e :: after, d.right = r.at? d.path := fun d hd =>
    (reports_of_mem_differences hl hr (mem_valueChanges.mp (hmem d hd))).right
  have hthere : (r.step? (.index j)).isSome = e.right.isSome := by
    have he : e ∈ before ++ e :: after := List.mem_append_right _ List.mem_cons_self
    obtain ⟨s, p, hp, hs⟩ := accepts_of_mem_changes hl hr hc (hmem e he)
    cases hpath.symm.trans hp
    obtain ⟨n, hn⟩ := isSome_step?_index (hs.of_sameContainer hc)
    have hei : e.right.isSome = decide (i < n) := by
      rw [hright e he, hpath, at?_cons, ← hn]
      cases r.step? (.index i) <;> rfl
    rw [hei] at hij
    rw [hn, hei]
    by_cases hin : i < n <;> simp [hin] at hij ⊢ <;> omega
  refine Difference.isSome_foldl_apply ?_ ?_
  · intro d hd hroot
    have hbefore := hright _ (List.mem_append_left _ (Difference.mem_below.mp hd))
    rw [Difference.under_path, hroot, at?_cons, Difference.under_right] at hbefore
    rw [← hthere, hbefore]
    cases r.step? (.index j) <;> rfl
  · -- If the two sides differ at `j`, that difference has been carried out before.
    by_cases hsame : (l.step? (.index j)).isSome = e.right.isSome
    · exact .inl hsame
    rw [← hthere] at hsame
    refine .inr ⟨⟨[], l.step? (.index j), r.step? (.index j)⟩, Difference.mem_below.mpr ?_, rfl⟩
    have hd := mem_differencesBetween_self hsame
    rw [← below_changes hl hr hc, Difference.mem_below, ← Difference.mem_script, hsplit] at hd
    have horder := (ordered_changes hl hr).script
    rw [hsplit] at horder
    rcases List.mem_append.mp hd with hbefore | hlater
    · exact hbefore
    rcases List.mem_cons.mp hlater with heq | hafter
    · rw [← heq] at hpath
      cases hpath
      split at hij <;> omega
    · have hprecedes := (List.pairwise_cons.mp (List.pairwise_append.mp horder).2.1).1 _ hafter
      have hji := hprecedes.index hpath rfl hthere.symm
      split at hji
      next hput => rw [if_pos hput] at hij; omega
      next htake => rw [if_neg htake] at hij; omega

/-- Carrying out the differences of the left side leads to the right one. -/
theorem agree_patch {l r : Value} (hl : l.WellFormed) (hr : r.WellFormed) :
    Agree .sensitive (Difference.patch (l.changes r) (some l)) (some r) := by
  induction hn : l.size using Nat.strongRecOn generalizing l r with
  | ind n ih =>
      by_cases hsame : l.sameValue .sensitive r = true
      · rw [changes, differences_of_sameValue hsame]
        exact hsame
      by_cases hc : SameContainer l r
      · obtain ⟨w, hrun, hw, hlw, hstep⟩ := Difference.foldl_apply hl (hc.trans hc.symm)
          (fun e he => accepts_of_mem_changes hl hr hc (Difference.mem_script.mp he))
          (fun e he u hu => by
            have hreports := reports_of_mem_differences hl hr
              (mem_valueChanges.mp (Difference.mem_script.mp he))
            exact hr.at? (hreports.right.symm.trans hu))
          fun before e after i hsplit hpath j hij => inTurn_script hl hr hc hsplit hpath hij
        rw [Difference.patch, hrun]
        refine (sameValue_iff_step? hw hr (hlw.symm.trans hc)).mpr fun s => ?_
        rw [hstep, Difference.below_script, below_changes hl hr hc]
        cases hv : l.step? s <;> cases hw : r.step? s
        case some.some u v =>
          exact ih u.size (hn ▸ size_lt_of_step? hv) (hl.step? hv) (hr.step? hw) rfl
        case none.some v => exact sameValue_refl (hr.step? hw)
        all_goals trivial
      · rw [changes, differences_of_not_sameContainer (Bool.not_eq_true _ ▸ hsame) hc]
        exact sameValue_refl hr

end Value

namespace Document

/-- The differences determine the right document: carried out on the left one they lead to its
value. There are none exactly when the two have the same value, and they are those of the values. -/
theorem changes_determine (left right : Document) :
    (∃ v, Difference.patch (left.changes right) (some left.value) = some v ∧
      v.sameValue .sensitive right.value = true) ∧
    (left.changes right = [] ↔ left.value.sameValue .sensitive right.value = true) ∧
    left.changes right = left.value.changes right.value := by
  refine ⟨?_, changes_eq_nil_iff, changes_eq left right⟩
  have hagree := Value.agree_patch left.wellFormed_value right.wellFormed_value
  rw [← changes_eq] at hagree
  cases hrun : Difference.patch (left.changes right) (some left.value) with
  | none =>
      rw [hrun] at hagree
      exact hagree.elim
  | some v =>
      rw [hrun] at hagree
      exact ⟨v, rfl, hagree⟩

end Document

end DatasetCatalog
