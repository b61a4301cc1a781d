import DatasetCatalog.Product.Matching
import DatasetCatalog.Proofs.Value.Agreement

/-!
# How many rules hold

A match is decided by the number of rules that hold. `matchDocument_eq` says so for a single rule
and for several in the same words; the two differ only in how they report that none holds. Which
rules hold does not depend on their order, so the order matters only where several are listed.
-/

namespace DatasetCatalog

theorem Fields.contains_eq_decide (fields : Fields) (k : String) :
    fields.contains k = decide (k ∈ fields.keys) := by
  rw [Bool.eq_iff_iff, decide_eq_true_iff, mem_keys_iff, contains]

/-- A document is cut down to the fields of another, in their own order. -/
theorem Document.eq_filterKeys_contains_iff {d e relevant : Document} :
    relevant = d.filterKeys e.fields.contains ↔
      relevant.fields = d.fields.filter fun f => decide (f.1 ∈ e.fields.keys) := by
  simp only [← Fields.contains_eq_decide]
  constructor
  · rintro rfl
    rfl
  · exact fun h => ext_fields h

namespace Matcher

variable {m m' : Matcher} {d : Document}

/-- The number of rules whose signature the document contains. A rule that is listed twice counts
twice. -/
def hits (m : Matcher) (d : Document) : Nat :=
  m.rules.countP fun rule => d.contains m.mode rule.signature

/-- How it is reported that no rule holds. -/
def miss (m : Matcher) (d : Document) : MatchError :=
  match m.rules with
  | [rule] =>
    .signatureMismatch rule.product.name (d.filterKeys rule.signature.fields.contains) rule.signature
  | _ => .noMatch (m.label d)

/-- Two outcomes that differ at most in the order in which several products are listed. -/
inductive Alike : Except MatchError Product → Except MatchError Product → Prop
  | same (outcome : Except MatchError Product) : Alike outcome outcome
  | reordered (label : String) {names names' : List String} : names.Perm names' →
    Alike (.error (.ambiguous label names)) (.error (.ambiguous label names'))

theorem length_holding (m : Matcher) (d : Document) : (m.holding d).length = m.hits d :=
  List.countP_eq_length_filter.symm

theorem mem_holding {rule : ProductRule} :
    rule ∈ m.holding d ↔ rule ∈ m.rules ∧ d.contains m.mode rule.signature = true := List.mem_filter

/-- The outcome as the rules that hold decide it. -/
theorem matchDocument_eq (m : Matcher) (d : Document) : m.matchDocument d =
    match m.holding d with
    | [] => .error (m.miss d)
    | [rule] => .ok rule.product
    | several => .error (.ambiguous (m.label d) (several.map fun rule => rule.product.name)) := by
  rw [matchDocument]
  split
  next rule hrules =>
    rw [holding, matchSingle, miss, hrules]
    cases hholds : rule.holds m.mode d <;> simp [hholds]
  next hrules =>
    have hmiss : m.miss d = .noMatch (m.label d) := by
      rw [miss]
      split
      next rule hrule => exact (hrules rule hrule).elim
      next => rfl
    rw [hmiss]
    rcases m.holding d with _ | ⟨rule, _ | ⟨next, more⟩⟩ <;> rfl

/-! ## The four outcomes -/

/-- A product is found exactly if one rule holds, and it is that rule's. -/
theorem matchDocument_eq_ok_iff {p : Product} : m.matchDocument d = .ok p ↔ m.hits d = 1 ∧
    ∃ rule ∈ m.rules, d.contains m.mode rule.signature = true ∧ rule.product = p := by
  have hheld : (∃ rule ∈ m.rules, d.contains m.mode rule.signature = true ∧ rule.product = p) ↔
      ∃ rule ∈ m.holding d, rule.product = p := by
    simp only [mem_holding, and_assoc]
  rw [hheld, matchDocument_eq, ← length_holding]
  rcases m.holding d with _ | ⟨rule, _ | ⟨next, more⟩⟩
  · simp
  · simp
  · simp

theorem miss_of_several (h : 2 ≤ m.rules.length) : m.miss d = .noMatch (m.label d) := by
  rw [miss]
  split
  next rule hrules => rw [hrules] at h; simp at h
  next => rfl

theorem exists_rule_of_few (h : ¬ 2 ≤ m.rules.length) : ∃ rule, m.rules = [rule] := by
  have hpositive := List.length_pos_iff.mpr m.nonempty
  exact List.length_eq_one_iff.mp (by omega)

theorem miss_eq_noMatch_iff {label : String} :
    m.miss d = .noMatch label ↔ label = m.label d ∧ 2 ≤ m.rules.length := by
  by_cases hseveral : 2 ≤ m.rules.length
  · simp [miss_of_several hseveral, hseveral, eq_comm]
  · obtain ⟨rule, hrules⟩ := exists_rule_of_few hseveral
    simp [miss, hrules]

theorem miss_ne_ambiguous (label : String) (names : List String) :
    m.miss d ≠ .ambiguous label names := by
  rw [miss]
  split
  · nofun
  · nofun

theorem miss_eq_signatureMismatch_iff {product : String} {relevant signature : Document} :
    m.miss d = .signatureMismatch product relevant signature ↔ ∃ rule, m.rules = [rule] ∧
      product = rule.product.name ∧ signature = rule.signature ∧
      relevant.fields = d.fields.filter fun f => decide (f.1 ∈ rule.signature.fields.keys) := by
  by_cases hseveral : 2 ≤ m.rules.length
  · rw [miss_of_several hseveral]
    refine ⟨nofun, ?_⟩
    rintro ⟨rule, hrules, -⟩
    rw [hrules] at hseveral
    simp at hseveral
  · obtain ⟨rule, hrules⟩ := exists_rule_of_few hseveral
    simp only [miss, hrules, MatchError.signatureMismatch.injEq, List.cons.injEq, and_true,
      exists_eq_left']
    constructor
    · rintro ⟨rfl, hrelevant, rfl⟩
      exact ⟨rfl, rfl, Document.eq_filterKeys_contains_iff.mp hrelevant.symm⟩
    · rintro ⟨rfl, rfl, hrelevant⟩
      exact ⟨rfl, (Document.eq_filterKeys_contains_iff.mpr hrelevant).symm, rfl⟩

theorem hits_eq_zero_iff :
    m.hits d = 0 ↔ ∀ rule ∈ m.rules, d.contains m.mode rule.signature = false := by
  simp [hits, List.countP_eq_zero]

theorem matchDocument_eq_noMatch_iff {label : String} :
    m.matchDocument d = .error (.noMatch label) ↔
      label = m.label d ∧ 2 ≤ m.rules.length ∧ m.hits d = 0 := by
  rw [matchDocument_eq, ← length_holding]
  rcases m.holding d with _ | ⟨rule, _ | ⟨next, more⟩⟩
  · simp [miss_eq_noMatch_iff]
  · simp
  · simp

theorem matchDocument_eq_signatureMismatch_iff {product : String} {relevant signature : Document} :
    m.matchDocument d = .error (.signatureMismatch product relevant signature) ↔ m.hits d = 0 ∧
      ∃ rule, m.rules = [rule] ∧ product = rule.product.name ∧ signature = rule.signature ∧
        relevant.fields = d.fields.filter fun f => decide (f.1 ∈ rule.signature.fields.keys) := by
  rw [← miss_eq_signatureMismatch_iff, matchDocument_eq, ← length_holding]
  rcases m.holding d with _ | ⟨rule, _ | ⟨next, more⟩⟩
  · simp
  · simp
  · simp

/-- Several products are found exactly if several rules hold, each listed once for each rule. -/
theorem matchDocument_eq_ambiguous_iff {label : String} {names : List String} :
    m.matchDocument d = .error (.ambiguous label names) ↔ label = m.label d ∧ 2 ≤ m.hits d ∧
      names = (m.rules.filter fun rule => d.contains m.mode rule.signature).map
        fun rule => rule.product.name := by
  have hheld : (m.rules.filter fun rule => d.contains m.mode rule.signature) = m.holding d := rfl
  rw [hheld, matchDocument_eq, ← length_holding]
  rcases m.holding d with _ | ⟨rule, _ | ⟨next, more⟩⟩
  · simp [miss_ne_ambiguous]
  · simp
  · simp [eq_comm]

/-! ## Reordering the rules -/

theorem label_of_layout (hlayout : m'.layout = m.layout) : m'.label d = m.label d := by
  rw [label, label, hlayout]

theorem miss_of_perm (hlayout : m'.layout = m.layout) (hrules : m'.rules.Perm m.rules) :
    m'.miss d = m.miss d := by
  by_cases hseveral : 2 ≤ m.rules.length
  · rw [miss_of_several hseveral, miss_of_several (hrules.length_eq ▸ hseveral),
      label_of_layout hlayout]
  · obtain ⟨rule, hrule⟩ := exists_rule_of_few hseveral
    have hrule' : m'.rules = [rule] := List.perm_singleton.mp (hrule ▸ hrules)
    rw [miss, miss, hrule, hrule']

theorem holding_perm (hmode : m'.mode = m.mode) (hrules : m'.rules.Perm m.rules) :
    (m'.holding d).Perm (m.holding d) := by
  rw [holding, holding, hmode]
  exact hrules.filter _

theorem alike_of_perm (hmode : m'.mode = m.mode) (hlayout : m'.layout = m.layout)
    (hrules : m'.rules.Perm m.rules) : Alike (m.matchDocument d) (m'.matchDocument d) := by
  have hperm : (m'.holding d).Perm (m.holding d) := holding_perm hmode hrules
  have hlength := hperm.length_eq
  rw [matchDocument_eq m d, matchDocument_eq m' d, miss_of_perm hlayout hrules,
    label_of_layout hlayout]
  generalize m.holding d = held at hperm hlength
  generalize m'.holding d = held' at hperm hlength
  match held, held', hperm, hlength with
  | [], [], _, _ => exact .same _
  | [rule], [rule'], hperm, _ =>
    cases List.perm_singleton.mp hperm
    exact .same _
  | _ :: _ :: _, _ :: _ :: _, hperm, _ => exact .reordered _ (hperm.symm.map _)

/-! ## The outcome of a match -/

/-- The number of rules that hold decides the outcome, whatever their order. -/
theorem outcome_decided_by_hits (m : Matcher) (d : Document) :
    (∀ p, m.matchDocument d = .ok p ↔ m.hits d = 1 ∧
      ∃ rule ∈ m.rules, d.contains m.mode rule.signature = true ∧ rule.product = p) ∧
    (2 ≤ m.rules.length →
      (∀ label, m.matchDocument d = .error (.noMatch label) ↔ label = m.label d ∧
        ∀ rule ∈ m.rules, d.contains m.mode rule.signature = false) ∧
      (∀ label names, m.matchDocument d = .error (.ambiguous label names) ↔ label = m.label d ∧
        2 ≤ m.hits d ∧ names = (m.rules.filter fun rule => d.contains m.mode rule.signature).map
          fun rule => rule.product.name)) ∧
    (∀ rule, m.rules = [rule] → d.contains m.mode rule.signature = false →
      ∃ relevant : Document,
        relevant.fields = (d.fields.filter fun f => decide (f.1 ∈ rule.signature.fields.keys)) ∧
        m.matchDocument d =
          .error (.signatureMismatch rule.product.name relevant rule.signature)) ∧
    (∀ m' : Matcher, m'.mode = m.mode → m'.layout = m.layout → m'.rules.Perm m.rules →
      Alike (m.matchDocument d) (m'.matchDocument d)) := by
  refine ⟨fun p => matchDocument_eq_ok_iff, fun hseveral => ⟨fun label => ?_, fun label names => ?_⟩,
    fun rule hrules hmiss => ?_, fun m' => alike_of_perm⟩
  · rw [matchDocument_eq_noMatch_iff, hits_eq_zero_iff, and_iff_right hseveral]
  · exact matchDocument_eq_ambiguous_iff
  · have hnone : m.hits d = 0 := hits_eq_zero_iff.mpr (by simpa [hrules] using hmiss)
    have hrelevant := Document.eq_filterKeys_contains_iff.mp
      (rfl : _ = d.filterKeys rule.signature.fields.contains)
    exact ⟨_, hrelevant, matchDocument_eq_signatureMismatch_iff.mpr
      ⟨hnone, rule, hrules, rfl, rfl, hrelevant⟩⟩

section Habitats

/-- Products by habitat, without description or measurements. -/
def habitatProduct (name habitat : String) : Product :=
  ⟨name, none, .ofFields [("habitat", .text habitat)], []⟩

def habitatRule (product habitat : String) : ProductRule :=
  .ofProduct (habitatProduct product habitat)

/-- Two of the three rules hold for a reef. -/
def habitats : Matcher where
  rules := [habitatRule "forest" "land", habitatRule "coral" "sea", habitatRule "kelp" "sea"]
  mode := .sensitive
  layout := { sources := .ofKeys ["sources"] }
  nonempty := by simp

def habitatsReversed : Matcher := { habitats with
  rules := habitats.rules.reverse
  nonempty := by simp [habitats] }

def forests : Matcher := { habitats with
  rules := [habitatRule "forest" "land"]
  nonempty := by simp }

def reef : Document := .ofFields [("name", .text "outer"), ("habitat", .text "sea")]

/-- The two products are listed in the order of the rules; a single rule reports the habitat. -/
theorem reef_outcomes :
    habitats.matchDocument reef = .error (.ambiguous "<missing id>" ["coral", "kelp"]) ∧
    Alike (habitats.matchDocument reef) (habitatsReversed.matchDocument reef) ∧
    ∃ relevant : Document, relevant.fields = [("habitat", .text "sea")] ∧
      forests.matchDocument reef = .error (.signatureMismatch "forest" relevant
        (habitatRule "forest" "land").signature) := by
  obtain ⟨-, hseveral, -, hperm⟩ := outcome_decided_by_hits habitats reef
  obtain ⟨-, -, hsingle, -⟩ := outcome_decided_by_hits forests reef
  obtain ⟨-, hambiguous⟩ := hseveral (by decide)
  exact ⟨(hambiguous _ _).mpr ⟨rfl, by decide, rfl⟩,
    hperm habitatsReversed rfl rfl (List.reverse_perm _), hsingle _ rfl rfl⟩

end Habitats

end Matcher

end DatasetCatalog
