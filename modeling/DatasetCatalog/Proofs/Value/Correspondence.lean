import DatasetCatalog.Proofs.Document.Containment
import DatasetCatalog.Proofs.Number.Rational
import Mathlib.Data.Set.Basic

/-!
# Values that correspond path by path

Two values correspond if they reach the same paths and are alike at each of them: of one kind, and
the same as far as scalars go, with numbers left to a relation of their own. Comparing values is
comparing them in this way with `Number.sameValue` for the numbers. How far that is equality of the
rational numbers denoted is settled number by number: an integer may be taken for a binary64 number
next to it, which is also the only way in which the comparison fails to be transitive.
-/

namespace DatasetCatalog

namespace Value

/-- Of one kind, and the same scalar; numbers as the relation says. -/
def Alike (numbers : Number → Number → Prop) : Value → Value → Prop
  | .null, .null => True
  | .boolean a, .boolean b => a = b
  | .number m, .number n => numbers m n
  | .text s, .text t => s = t
  | .sequence _, .sequence _ => True
  | .mapping _, .mapping _ => True
  | _, _ => False

/-- Alike at every path that either of them reaches. The order of fields plays no part. -/
def Corresponds (numbers : Number → Number → Prop) (a b : Value) : Prop :=
  ∀ p, Option.Rel (Alike numbers) (a.at? p) (b.at? p)

/-- No integer stands at the path of a binary64 number unless a binary64 number denotes it too. -/
def Commensurable (a b : Value) : Prop :=
  ∀ p m n, a.at? p = some (.number m) → b.at? p = some (.number n) → m.Commensurable n

variable {numbers : Number → Number → Prop} {a b c : Value}

theorem Alike.symm (hsymm : ∀ m n, numbers m n → numbers n m) (h : Alike numbers a b) :
    Alike numbers b a := by
  cases a <;> cases b <;> first | exact h.elim | skip
  case null => trivial
  case boolean => exact Eq.symm h
  case number m n => exact hsymm m n h
  case text => exact Eq.symm h
  case sequence => trivial
  case mapping => trivial

theorem Alike.trans (htrans : ∀ l m n, numbers l m → numbers m n → numbers l n)
    (hab : Alike numbers a b) (hbc : Alike numbers b c) : Alike numbers a c := by
  cases a <;> cases b <;> first | exact hab.elim | skip
  all_goals cases c <;> first | exact hbc.elim | skip
  case null => trivial
  case boolean => exact Eq.trans hab hbc
  case number => exact htrans _ _ _ hab hbc
  case text => exact Eq.trans hab hbc
  case sequence => trivial
  case mapping => trivial

namespace Corresponds

theorem symm (hsymm : ∀ m n, numbers m n → numbers n m) (h : Corresponds numbers a b) :
    Corresponds numbers b a := by
  intro p
  have hp := h p
  cases hv : a.at? p <;> cases hw : b.at? p <;> rw [hv, hw] at hp <;> cases hp
  case none.none => exact .none
  case some.some hp => exact .some (hp.symm hsymm)

theorem trans (htrans : ∀ l m n, numbers l m → numbers m n → numbers l n)
    (hab : Corresponds numbers a b) (hbc : Corresponds numbers b c) :
    Corresponds numbers a c := by
  intro p
  have hab := hab p
  have hbc := hbc p
  cases hu : a.at? p <;> cases hv : b.at? p <;> cases hw : c.at? p <;>
    rw [hu, hv] at hab <;> rw [hv, hw] at hbc <;> cases hab <;> cases hbc
  case none.none.none => exact .none
  case some.some.some hab hbc => exact .some (hab.trans htrans hbc)

theorem root (h : Corresponds numbers a b) : Alike numbers a b := by
  cases h []
  assumption

theorem step? (h : Corresponds numbers a b) (s : Step) :
    Option.Rel (Corresponds numbers) (a.step? s) (b.step? s) := by
  have hs := fun p => h (s :: p)
  simp only [at?_cons] at hs
  cases hv : a.step? s <;> cases hw : b.step? s <;> rw [hv, hw] at hs
  case none.none => exact .none
  case some.some => exact .some hs
  all_goals exact nomatch hs []

/-- Another relation may take the place of `numbers` if it holds wherever two numbers meet. -/
theorem imp {numbers' : Number → Number → Prop} (h : Corresponds numbers a b)
    (himp : ∀ p m n, a.at? p = some (.number m) → b.at? p = some (.number n) →
      numbers m n → numbers' m n) : Corresponds numbers' a b := by
  intro p
  have hp := h p
  have himp := himp p
  cases hv : a.at? p <;> cases hw : b.at? p <;> rw [hv, hw] at hp himp <;> cases hp
  case none.none => exact .none
  case some.some v w hp =>
    refine .some ?_
    cases v <;> cases w <;> first | exact hp | skip
    exact himp _ _ rfl rfl hp

end Corresponds

theorem alike_of_sameValue (h : a.sameValue .sensitive b = true) :
    Alike (fun m n => m.sameValue n = true) a b := by
  cases a <;> cases b <;> simp_all [sameValue, sameBy, Alike, CaseMode.sameText]

theorem corresponds_of_sameValue (ha : a.WellFormed) (hb : b.WellFormed)
    (h : a.sameValue .sensitive b = true) : Corresponds (fun m n => m.sameValue n = true) a b := by
  intro p
  have hp := agree_at? ha hb h p
  cases hv : a.at? p <;> cases hw : b.at? p <;> rw [hv, hw] at hp
  case none.none => exact .none
  case some.some => exact .some (alike_of_sameValue hp)
  all_goals exact hp.elim

theorem sameValue_of_corresponds (ha : a.WellFormed) (hb : b.WellFormed)
    (h : Corresponds (fun m n => m.sameValue n = true) a b) : a.sameValue .sensitive b = true := by
  induction hn : a.size using Nat.strongRecOn generalizing a b with
  | ind n ih =>
      have hparts : SameContainer a b → a.sameValue .sensitive b = true := by
        intro hc
        rw [sameValue_iff_step? ha hb hc]
        intro s
        have hs := h.step? s
        cases hv : a.step? s <;> cases hw : b.step? s <;> rw [hv, hw] at hs <;> cases hs
        case none.none => trivial
        case some.some v w hs =>
          exact ih v.size (hn ▸ size_lt_of_step? hv) (ha.step? hv) (hb.step? hw) hs rfl
      have halike := h.root
      cases a <;> cases b <;> first | exact halike.elim | skip
      case null => rfl
      case boolean => exact beq_iff_eq.mpr halike
      case number => exact halike
      case text => exact beq_iff_eq.mpr halike
      case sequence => exact hparts trivial
      case mapping => exact hparts trivial

/-- Two values are the same exactly if they correspond with all their numbers the same. -/
theorem sameValue_iff_corresponds (ha : a.WellFormed) (hb : b.WellFormed) :
    a.sameValue .sensitive b = true ↔ Corresponds (fun m n => m.sameValue n = true) a b :=
  ⟨corresponds_of_sameValue ha hb, sameValue_of_corresponds ha hb⟩

theorem sameValue_symm (ha : a.WellFormed) (hb : b.WellFormed)
    (h : a.sameValue .sensitive b = true) : b.sameValue .sensitive a = true :=
  sameValue_of_corresponds hb ha
    ((corresponds_of_sameValue ha hb h).symm fun _ _ => Number.sameValue_symm)

/-! ## Equality of the rational numbers denoted -/

theorem sameValue_iff_sameRounded (ha : a.WellFormed) (hb : b.WellFormed) :
    a.sameValue .sensitive b = true ↔ Corresponds Number.SameRounded a b := by
  rw [sameValue_iff_corresponds ha hb]
  constructor
  · exact fun h => h.imp fun _ _ _ _ _ => Number.sameValue_iff_sameRounded.mp
  · exact fun h => h.imp fun _ _ _ _ _ => Number.sameValue_iff_sameRounded.mpr

theorem Commensurable.sameValue_iff (h : a.Commensurable b) (ha : a.WellFormed)
    (hb : b.WellFormed) :
    a.sameValue .sensitive b = true ↔ Corresponds Number.SameRational a b := by
  rw [sameValue_iff_sameRounded ha hb]
  constructor
  · exact fun hsame => hsame.imp fun p m n hm hn => (h p m n hm hn).sameRounded_iff.mp
  · exact fun hsame => hsame.imp fun _ _ _ _ _ => Number.SameRational.sameRounded

theorem Exact.commensurable (ha : a.Exact) (hb : b.Exact) : a.Commensurable b :=
  fun p m n hm hn => (ha p m hm).representable.commensurable (hb p n hn).representable

/-- Whatever is the same in two steps is the same, if nothing had to be rounded on the way. -/
theorem Commensurable.sameValue_trans (hab : a.Commensurable b) (hbc : b.Commensurable c)
    (hac : a.Commensurable c) (ha : a.WellFormed) (hb : b.WellFormed) (hc : c.WellFormed)
    (hsame : a.sameValue .sensitive b = true) (hsame' : b.sameValue .sensitive c = true) :
    a.sameValue .sensitive c = true := by
  rw [hab.sameValue_iff ha hb] at hsame
  rw [hbc.sameValue_iff hb hc] at hsame'
  rw [hac.sameValue_iff ha hc]
  exact hsame.trans (fun _ _ _ => Eq.trans) hsame'

/-- Values are the same exactly if they correspond with their numbers equal, where an integer beside
a binary64 number stands for the binary64 number that is nearest to it. So they are equal as trees of
rational numbers if no integer has to be rounded for that, and among values of which this is true of
any two, to be the same is an equivalence. -/
theorem sameValue_exact_unless_rounded (values : Set Value) (hwf : ∀ v ∈ values, v.WellFormed) :
    (∀ a ∈ values, ∀ b ∈ values,
      (a.sameValue .sensitive b = true ↔ Corresponds Number.SameRounded a b) ∧
      (a.Commensurable b →
        (a.sameValue .sensitive b = true ↔ Corresponds Number.SameRational a b))) ∧
    ((∀ a ∈ values, ∀ b ∈ values, a.Commensurable b) →
      Equivalence fun a b : values => a.1.sameValue .sensitive b.1 = true) := by
  refine ⟨fun a ha b hb => ⟨?_, ?_⟩, fun hall => ⟨fun a => ?_, fun {a b} => ?_, fun {a b c} => ?_⟩⟩
  · exact sameValue_iff_sameRounded (hwf a ha) (hwf b hb)
  · exact fun h => h.sameValue_iff (hwf a ha) (hwf b hb)
  · exact sameValue_refl (hwf a a.2)
  · exact sameValue_symm (hwf a a.2) (hwf b b.2)
  · exact (hall a a.2 b b.2).sameValue_trans (hall b b.2 c c.2) (hall a a.2 c c.2)
      (hwf a a.2) (hwf b b.2) (hwf c c.2)

section Gain

/-- The gain of an instrument. -/
def gain (n : Number) : Value := .mapping [("gain", .number n), ("unit", .text "dB")]

/-- The integer `7` and the binary64 number `7.0`. -/
def seven : Number := .integer 7 (by decide)

def sevenFloat : Number := .float ⟨false, 7 * Nat.pow 2 50, -50, by decide⟩

theorem wellFormed_gain (n : Number) : (gain n).WellFormed := by
  simp [gain, WellFormed, FieldsWellFormed]

theorem exact_gain {n : Number} (h : n.Exact) : (gain n).Exact := by
  refine exact_mapping fun f hf => ?_
  simp only [List.mem_cons, List.not_mem_nil, or_false] at hf
  rcases hf with rfl | rfl
  · rintro (_ | ⟨s, rest⟩) m hm
    · cases hm
      exact h
    · cases s <;> cases hm
  · exact exact_text "dB"

theorem gain_seven_exact :
    (gain seven).sameValue .sensitive (gain sevenFloat) = true ∧
      Corresponds Number.SameRational (gain seven) (gain sevenFloat) ∧
      Equivalence fun a b : {v : Value | v.WellFormed ∧ v.Exact} =>
        a.1.sameValue .sensitive b.1 = true := by
  have hseven : seven.Exact := by
    change Int.natAbs 7 < 2 ^ 53
    decide
  have hexact : (gain seven).Exact ∧ (gain sevenFloat).Exact :=
    ⟨exact_gain hseven, exact_gain trivial⟩
  have hsame : (gain seven).sameValue .sensitive (gain sevenFloat) = true := by decide +kernel
  obtain ⟨hpairs, hequivalence⟩ := sameValue_exact_unless_rounded
    {v : Value | v.WellFormed ∧ v.Exact} fun v hv => hv.1
  have hpair := hpairs (gain seven) ⟨wellFormed_gain _, hexact.1⟩ (gain sevenFloat)
    ⟨wellFormed_gain _, hexact.2⟩
  refine ⟨hsame, (hpair.2 (hexact.1.commensurable hexact.2)).mp hsame, ?_⟩
  exact hequivalence fun a ha b hb => ha.2.commensurable hb.2

/-- `2 ^ 53 + 1`, the first natural number that is not a binary64 number, and what is around it. -/
def oddCount : Number := .integer 9007199254740993 (by decide)

def evenCount : Number := .integer 9007199254740992 (by decide)

def evenFloat : Number := .float ⟨false, Nat.pow 2 52, 1, by decide⟩

/-- An integer is taken for the binary64 number that it is rounded to, though they differ by one; and
that number is the same as another integer. -/
theorem gain_odd_rounded :
    (gain oddCount).sameValue .sensitive (gain evenFloat) = true ∧
      ¬ Corresponds Number.SameRational (gain oddCount) (gain evenFloat) ∧
      (gain evenFloat).sameValue .sensitive (gain evenCount) = true ∧
      (gain oddCount).sameValue .sensitive (gain evenCount) = false := by
  refine ⟨by decide +kernel, fun h => ?_, by decide +kernel, by decide +kernel⟩
  have hgain : Alike Number.SameRational (.number oddCount) (.number evenFloat) := by
    cases h [.key "gain"]
    assumption
  have hvalue : oddCount.value = evenFloat.value := hgain
  norm_num [oddCount, evenFloat, Number.value, Binary64.value, Binary64.magnitude] at hvalue

end Gain

end Value

end DatasetCatalog
