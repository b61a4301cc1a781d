import DatasetCatalog.Proofs.Catalog.Curation
import DatasetCatalog.Proofs.Catalog.Opening

/-!
# Several products for one document

A match counts rules, and the rules of a catalog are one for each product, or one for each name that
is asked for. Products have different names in every catalog that comes about by use, so without
names a match is ambiguous exactly if two products fit. A name that is asked for twice makes two
rules, though: then a single product is enough for several rules to hold.
-/

namespace DatasetCatalog

theorem two_le_length_iff {α : Type} [DecidableEq α] {xs : List α} : 2 ≤ xs.length ↔
    (∃ x ∈ xs, ∃ y ∈ xs, x ≠ y) ∨ ∃ x ∈ xs, 2 ≤ xs.count x := by
  constructor
  · intro hlength
    match xs with
    | x :: y :: rest =>
      by_cases hsame : x = y
      · subst hsame
        exact .inr ⟨x, List.mem_cons_self, by simp⟩
      · exact .inl ⟨x, List.mem_cons_self, y, by simp, hsame⟩
  · rintro (⟨x, hx, y, hy, hne⟩ | ⟨x, -, hcount⟩)
    · match xs with
      | [only] =>
        cases List.mem_singleton.mp hx
        cases List.mem_singleton.mp hy
        exact (hne rfl).elim
      | _ :: _ :: _ => simp
    · exact hcount.trans List.count_le_length

namespace Catalog

variable {c : Catalog} {names : List String} {products : List Product} {mode : CaseMode}
  {d : Document} {p : Product}

/-! ## Names of products -/

theorem invariant_nodup_names :
    Invariant (fun _ => True) (fun _ => True) fun c => (c.products.map Product.name).Nodup where
  empty := List.nodup_nil
  resolved _ := trivial
  outcome w _ _ h hdone := by
    rcases w.products hdone with hsame | ⟨p, hnew, hmore⟩
    · rwa [hsame]
    · rw [hmore, List.map_append, List.nodup_append]
      refine ⟨h, List.nodup_singleton _, ?_⟩
      rintro name hname _ hp rfl
      obtain ⟨q, hq, rfl⟩ := List.mem_map.mp hname
      simp only [List.map_cons, List.map_nil, List.mem_singleton] at hp
      have hmissing := List.find?_eq_none.mp hnew q hq
      exact hmissing (beq_iff_eq.mpr hp)
  reopened h hc := by rwa [products_of_restore hc]

theorem distinct_of_nodup (h : (c.products.map Product.name).Nodup) : c.Distinct := by
  intro p hp
  have hsome : (c.product? p.name).isSome := List.find?_isSome.mpr ⟨p, hp, beq_self_eq_true _⟩
  obtain ⟨q, hq⟩ := Option.isSome_iff_exists.mp hsome
  have hsame : q = p :=
    List.inj_on_of_nodup_map h (List.mem_of_find?_eq_some hq) hp (product?_name hq)
  rwa [hsame] at hq

/-! ## Products by name -/

/-- The products that are named, each as often as its name, or every product once. -/
structure Selects (c : Catalog) (names : List String) (products : List Product) : Prop where
  registers : ∀ p ∈ products, c.Registers p
  mem_iff : ∀ p, p ∈ products ↔ p ∈ c.products ∧ (names = [] ∨ p.name ∈ names)
  repeats : ∀ name, 2 ≤ (products.map Product.name).count name ↔ 2 ≤ names.count name

theorem Registers.mem (h : c.Registers p) : p ∈ c.products := List.mem_of_find?_eq_some h

theorem Registers.inj {q : Product} (hp : c.Registers p) (hq : c.Registers q)
    (hname : p.name = q.name) : p = q := by
  rw [Registers, hname] at hp
  exact Option.some.inj (hp.symm.trans hq)

theorem selects_all (h : (c.products.map Product.name).Nodup) : c.Selects [] c.products where
  registers := distinct_of_nodup h
  mem_iff p := by simp
  repeats name := by
    have hfew := List.nodup_iff_count_le_one.mp h name
    simp only [List.count_nil]
    omega

theorem selects_named (hdistinct : c.Distinct) (hsome : names ≠ [])
    (hnames : products.map Product.name = names) (hregisters : ∀ p ∈ products, c.Registers p) :
    c.Selects names products where
  registers := hregisters
  mem_iff p := by
    rw [or_iff_right hsome, ← hnames]
    constructor
    · exact fun hp => ⟨(hregisters p hp).mem, List.mem_map_of_mem hp⟩
    · rintro ⟨hp, hname⟩
      obtain ⟨q, hq, hsame⟩ := List.mem_map.mp hname
      exact (hregisters q hq).inj (hdistinct p hp) hsame ▸ hq
  repeats name := by rw [hnames]

theorem selects_of_rules {rules : List ProductRule} (h : (c.products.map Product.name).Nodup)
    (hrules : c.rules names = .ok rules) :
    ∃ products, products ≠ [] ∧ rules = products.map .ofProduct ∧ c.Selects names products := by
  obtain ⟨products, hsome, hmade, ⟨rfl, rfl⟩ | ⟨hnamed, hnames, hregisters⟩⟩ := rules_eq_ok hrules
  · exact ⟨_, hsome, hmade, selects_all h⟩
  · exact ⟨products, hsome, hmade, selects_named (distinct_of_nodup h) hnamed hnames hregisters⟩

/-! ## Products that fit -/

/-- The product is among those that are named, and the document contains its signature. -/
structure Fits (c : Catalog) (names : List String) (mode : CaseMode) (d : Document) (p : Product) :
    Prop where
  registered : p ∈ c.products
  named : names = [] ∨ p.name ∈ names
  contained : d.contains mode p.metadata = true

namespace Selects

theorem fits_iff (h : c.Selects names products) :
    c.Fits names mode d p ↔ p ∈ products ∧ d.contains mode p.metadata = true := by
  rw [h.mem_iff]
  exact ⟨fun hp => ⟨⟨hp.registered, hp.named⟩, hp.contained⟩, fun hp => ⟨hp.1.1, hp.1.2, hp.2⟩⟩

theorem eq_of_name (h : c.Selects names products) {q : Product} (hp : c.Fits names mode d p)
    (hq : c.Fits names mode d q) (hname : p.name = q.name) : p = q :=
  (h.registers p (h.fits_iff.mp hp).1).inj (h.registers q (h.fits_iff.mp hq).1) hname

/-- All that is listed under the name of a product that fits is the product itself. -/
theorem count_fitting (h : c.Selects names products) (hp : c.Fits names mode d p) :
    ((products.filter fun q => d.contains mode q.metadata).map Product.name).count p.name =
      (products.map Product.name).count p.name := by
  obtain ⟨hmem, hcontained⟩ := h.fits_iff.mp hp
  rw [List.count_eq_countP, List.count_eq_countP, List.countP_map, List.countP_map,
    List.countP_filter]
  apply List.countP_congr
  intro q hq
  simp only [Function.comp_apply, Bool.and_eq_true, beq_iff_eq, and_iff_left_iff_imp]
  intro hname
  rwa [(h.registers q hq).inj (h.registers p hmem) hname]

theorem hits_eq (products : List Product) {m : Matcher} (hrules : m.rules = products.map .ofProduct) :
    m.hits d = (products.filter fun p => d.contains m.mode p.metadata).length := by
  rw [Matcher.hits, hrules, List.countP_map, List.countP_eq_length_filter]
  rfl

theorem several_hold_iff (h : c.Selects names products) {m : Matcher}
    (hrules : m.rules = products.map .ofProduct) : 2 ≤ m.hits d ↔
      (∃ p q, c.Fits names m.mode d p ∧ c.Fits names m.mode d q ∧ p.name ≠ q.name) ∨
        ∃ p, c.Fits names m.mode d p ∧ 2 ≤ names.count p.name := by
  have hfits : ∀ name, name ∈ (products.filter fun p => d.contains m.mode p.metadata).map
      Product.name ↔ ∃ p, c.Fits names m.mode d p ∧ p.name = name := by
    intro name
    simp only [List.mem_map, List.mem_filter, h.fits_iff]
  rw [hits_eq products hrules, ← List.length_map Product.name, two_le_length_iff]
  simp only [hfits]
  constructor
  · rintro (⟨_, ⟨p, hp, rfl⟩, _, ⟨q, hq, rfl⟩, hne⟩ | ⟨_, ⟨p, hp, rfl⟩, hcount⟩)
    · exact .inl ⟨p, q, hp, hq, hne⟩
    · rw [h.count_fitting hp, h.repeats] at hcount
      exact .inr ⟨p, hp, hcount⟩
  · rintro (⟨p, q, hp, hq, hne⟩ | ⟨p, hp, hcount⟩)
    · exact .inl ⟨p.name, ⟨p, hp, rfl⟩, q.name, ⟨q, hq, rfl⟩, hne⟩
    · refine .inr ⟨p.name, ⟨p, hp, rfl⟩, ?_⟩
      rwa [h.count_fitting hp, h.repeats]

theorem matchDocument_eq_ok_iff (h : c.Selects names products) {m : Matcher}
    (hrules : m.rules = products.map .ofProduct) : m.matchDocument d = .ok p ↔
      c.Fits names m.mode d p ∧ names.count p.name ≤ 1 ∧ ∀ q, c.Fits names m.mode d q → q = p := by
  have hheld : (∃ rule ∈ m.rules, d.contains m.mode rule.signature = true ∧ rule.product = p) ↔
      c.Fits names m.mode d p := by
    rw [hrules, h.fits_iff]
    simp [ProductRule.ofProduct]
  have hpositive : c.Fits names m.mode d p → 0 < m.hits d := by
    intro hp
    obtain ⟨rule, hrule, hcontains, -⟩ := hheld.mpr hp
    exact List.countP_pos_iff.mpr ⟨rule, hrule, hcontains⟩
  have hone : m.hits d = 1 ↔ 0 < m.hits d ∧ ¬ 2 ≤ m.hits d := by omega
  rw [Matcher.matchDocument_eq_ok_iff, hheld, hone, h.several_hold_iff hrules]
  constructor
  · rintro ⟨⟨-, hfew⟩, hp⟩
    refine ⟨hp, ?_, fun q hq => ?_⟩
    · by_contra hmany
      exact hfew (.inr ⟨p, hp, by omega⟩)
    · by_contra hne
      exact hfew (.inl ⟨q, p, hq, hp, fun hname => hne (h.eq_of_name hq hp hname)⟩)
  · rintro ⟨hp, honce, honly⟩
    refine ⟨⟨hpositive hp, ?_⟩, hp⟩
    rintro (⟨q, r, hq, hr, hne⟩ | ⟨q, hq, hmany⟩)
    · exact hne (by rw [honly q hq, honly r hr])
    · rw [honly q hq] at hmany
      omega

end Selects

end Catalog

open Catalog in
/-- A match with the rules of a catalog is ambiguous exactly if two of the named products fit, or one
that is named twice. A product is found exactly if no other one fits and it is not named twice. -/
theorem Session.match_of_named_products (actions : List Action) {names : List String}
    {rules : List ProductRule} (hrules : (run actions).catalog.rules names = .ok rules)
    (mode : CaseMode) (layout : Layout) (d : Document) :
    ∃ m, Matcher.ofRules rules mode layout = .ok m ∧
      (∀ p, m.matchDocument d = .ok p ↔ (run actions).catalog.Fits names mode d p ∧
        names.count p.name ≤ 1 ∧ ∀ q, (run actions).catalog.Fits names mode d q → q = p) ∧
      ((∃ label found, m.matchDocument d = .error (.ambiguous label found)) ↔
        (∃ p q, (run actions).catalog.Fits names mode d p ∧
          (run actions).catalog.Fits names mode d q ∧ p.name ≠ q.name) ∨
        ∃ p, (run actions).catalog.Fits names mode d p ∧ 2 ≤ names.count p.name) := by
  obtain ⟨products, hsome, rfl, hselects⟩ :=
    selects_of_rules (invariant_run invariant_nodup_names actions) hrules
  have hnonempty : products.map ProductRule.ofProduct ≠ [] := by simpa using hsome
  refine ⟨⟨_, mode, layout, hnonempty⟩, dif_pos hnonempty,
    fun p => hselects.matchDocument_eq_ok_iff rfl, ?_⟩
  rw [← hselects.several_hold_iff (m := ⟨_, mode, layout, hnonempty⟩) rfl]
  simp [Matcher.matchDocument_eq_ambiguous_iff]

section Habitats

open Matcher Session

def habitatActions : List Action :=
  [.addProduct (habitatProduct "forest" "land"), .addProduct (habitatProduct "coral" "sea")]

theorem fits_reef_iff {names : List String} (hnamed : "coral" ∈ names) (p : Product) :
    (run habitatActions).catalog.Fits names .sensitive reef p ↔ p = habitatProduct "coral" "sea" := by
  constructor
  · rintro ⟨hp, -, hcontained⟩
    rcases List.mem_cons.mp hp with rfl | hp
    · cases hcontained
    · exact List.mem_singleton.mp hp
  · rintro rfl
    exact ⟨List.mem_cons_of_mem _ List.mem_cons_self, .inr hnamed, rfl⟩

/-- Of two products that are named once each, the one that fits is found. -/
theorem reef_matched_by_name :
    (run habitatActions).catalog.rules ["coral", "forest"] =
      .ok [habitatRule "coral" "sea", habitatRule "forest" "land"] ∧
    ∃ m, ofRules [habitatRule "coral" "sea", habitatRule "forest" "land"] .sensitive
      habitats.layout = .ok m ∧ m.matchDocument reef = .ok (habitatProduct "coral" "sea") := by
  have hrules : (run habitatActions).catalog.rules ["coral", "forest"] =
      .ok [habitatRule "coral" "sea", habitatRule "forest" "land"] := rfl
  have hfits := fits_reef_iff (List.mem_cons_self : "coral" ∈ ["coral", "forest"])
  obtain ⟨m, hm, hok, -⟩ :=
    match_of_named_products habitatActions hrules .sensitive habitats.layout reef
  have hmatch := (hok _).mpr ⟨(hfits _).mpr rfl, by decide, fun q hq => (hfits q).mp hq⟩
  exact ⟨hrules, m, hm, hmatch⟩

/-- The one product that fits is listed twice if it is named twice. -/
theorem reef_ambiguous_by_repeated_name :
    (run habitatActions).catalog.rules ["coral", "coral"] =
      .ok [habitatRule "coral" "sea", habitatRule "coral" "sea"] ∧
    (∃ m, ofRules [habitatRule "coral" "sea", habitatRule "coral" "sea"] .sensitive
      habitats.layout = .ok m ∧
      m.matchDocument reef = .error (.ambiguous "<missing id>" ["coral", "coral"])) ∧
    ∀ p, (run habitatActions).catalog.Fits ["coral", "coral"] .sensitive reef p ↔
      p = habitatProduct "coral" "sea" :=
  ⟨rfl, ⟨_, rfl, rfl⟩, fits_reef_iff List.mem_cons_self⟩

end Habitats

end DatasetCatalog
