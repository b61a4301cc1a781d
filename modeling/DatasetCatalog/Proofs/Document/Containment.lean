import DatasetCatalog.Document.Containment
import DatasetCatalog.Proofs.Document.Difference
import DatasetCatalog.Proofs.Number.Integer

/-!
# Which changes leave a signature contained

A document that contains a signature still does after any change that passes the signature by: that
neither replaces nor removes something the signature speaks about, nor reaches into one of its
sequences. `Value.spoiledBy` says which changes do; what follows from there is one induction on the
signature, since within it mappings are the only values that are looked into. At the scalars and
sequences containment is carried from the old value to the new one, for which numbers have to be
the same in the transitive sense, and that takes exact integers.
-/

namespace DatasetCatalog

namespace Value

variable {mode : CaseMode}

/-- Every integer in the value is the only one with its binary64 number. -/
def Exact (v : Value) : Prop := ∀ p n, v.at? p = some (.number n) → n.Exact

theorem Exact.step? {v w : Value} {s : Step} (h : v.Exact) (hw : v.step? s = some w) : w.Exact := by
  intro p n hn
  refine h (s :: p) n ?_
  rw [at?_cons, hw]
  exact hn

theorem exact_text (s : String) : (text s).Exact := by
  rintro (_ | ⟨t, rest⟩) n hn
  · cases hn
  · cases t <;> cases hn

theorem exact_mapping {fields : Fields} (h : ∀ f ∈ fields, f.2.Exact) : (mapping fields).Exact := by
  rintro (_ | ⟨k | i, rest⟩) n hn
  · cases hn
  · obtain ⟨w, hw, hn⟩ := Option.bind_eq_some_iff.mp hn
    exact h (k, w) (Fields.mem_of_find? hw) rest n hn
  · cases hn

/-- What is the same as before the change is the same as after it, if the change does not tell. -/
theorem sameValue_trans {v w s : Value} (hv : v.WellFormed) (hw : w.WellFormed)
    (hs : s.WellFormed) (hexact : s.Exact) (hvs : v.sameValue mode s = true)
    (hvw : v.sameValue .sensitive w = true) : w.sameValue mode s = true := by
  induction hn : s.size using Nat.strongRecOn generalizing v w s with
  | ind n ih =>
      -- Of two containers every part of the signature is smaller than the signature.
      have hparts : SameContainer v s → SameContainer v w → SameContainer w s →
          w.sameValue mode s = true := by
        intro hcvs hcvw hcws
        rw [sameValue_iff_step? hw hs hcws]
        intro t
        have hvs' := (sameValue_iff_step? hv hs hcvs).mp hvs t
        have hvw' := (sameValue_iff_step? hv hw hcvw).mp hvw t
        cases hvt : v.step? t <;> cases hwt : w.step? t <;> cases hst : s.step? t <;>
          rw [hvt] at hvs' hvw' <;> rw [hst] at hvs' <;> rw [hwt] at hvw'
        case none.none.none => trivial
        case some.some.some v' w' s' =>
          exact ih s'.size (hn ▸ size_lt_of_step? hst) (hv.step? hvt) (hw.step? hwt)
            (hs.step? hst) (hexact.step? hst) hvs' hvw' rfl
        all_goals first | exact hvs'.elim | exact hvw'.elim
      cases v <;> cases s <;> simp only [sameValue, sameBy, Bool.false_eq_true] at hvs <;>
        cases w <;> simp only [sameValue, sameBy, Bool.false_eq_true] at hvw
      case null => rfl
      case boolean => exact beq_iff_eq.mpr ((beq_iff_eq.mp hvw).symm.trans (beq_iff_eq.mp hvs))
      case number => exact Number.sameValue_trans (hexact [] _ rfl) hvs hvw
      case text =>
        cases beq_iff_eq.mp hvw
        exact hvs
      case sequence => exact hparts trivial trivial trivial
      case mapping => exact hparts trivial trivial trivial

/-- Whether a change can undo that this signature is contained, given the change's path and what
was there before. What is added undoes nothing, unless it is added to a sequence. -/
def spoiledBy (before : Option Value) : Value → FieldPath → Bool
  | _, [] => before.isSome
  | .mapping fields, .key k :: rest =>
    match Fields.find? fields k with
    | some wanted => wanted.spoiledBy before rest
    | none => false
  | .sequence _, _ => true
  | _, _ => false

theorem fieldsWithin_iff {wanted : List (String × Value)} {fields : Fields} :
    fieldsWithin mode wanted fields = true ↔
      ∀ f ∈ wanted, ∃ v, fields.find? f.1 = some v ∧ f.2.within mode v = true := by
  induction wanted with
  | nil => simp [fieldsWithin]
  | cons f wanted ih =>
      obtain ⟨k, w⟩ := f
      simp only [fieldsWithin, Bool.and_eq_true, ih, List.forall_mem_cons]
      cases fields.find? k <;> simp

/-- Unequal values of different kinds are a difference at the root, which spoils any signature. -/
theorem sameContainer_of_spared {s l r : Value} (hdiffer : ¬ l.sameValue .sensitive r = true)
    (hspared : ∀ d ∈ differences l r, s.spoiledBy d.left d.path = false) : SameContainer l r := by
  by_contra hc
  have hroot := hspared ⟨[], some l, some r⟩ (by
    rw [differences_of_not_sameContainer (Bool.not_eq_true _ ▸ hdiffer) hc]
    exact List.mem_singleton_self _)
  rw [spoiledBy] at hroot
  cases hroot

/-- Every difference of two sequences spoils a sequence of the signature. -/
theorem spoiledBy_sequence {items ls rs : List Value} (hl : (sequence ls).WellFormed)
    (hr : (sequence rs).WellFormed) {d : Difference}
    (hd : d ∈ differences (sequence ls) (sequence rs)) :
    (sequence items).spoiledBy d.left d.path = true := by
  obtain ⟨i, rest, hpath⟩ := path_of_mem_differences_sequence hl hr hd
  rw [hpath]
  rfl

/-- A scalar or sequence of the signature keeps its value. -/
theorem sameValue_of_spared {s l r : Value} (hs : s.isMapping = false) (hl : l.WellFormed)
    (hr : r.WellFormed) (hsame : l.sameValue mode s = true)
    (hspared : ∀ d ∈ differences l r, s.spoiledBy d.left d.path = false) :
    l.sameValue .sensitive r = true := by
  by_contra hdiffer
  have hc := sameContainer_of_spared hdiffer hspared
  cases l <;> cases r <;> simp only [SameContainer] at hc
  case sequence.sequence ls rs =>
    cases s <;> simp only [sameValue, sameBy, Bool.false_eq_true] at hsame
    refine hdiffer ((differences_eq_nil_iff hl hr).mp ?_)
    rw [List.eq_nil_iff_forall_not_mem]
    intro d hd
    have hspared := hspared d hd
    rw [spoiledBy_sequence hl hr hd] at hspared
    cases hspared
  case mapping.mapping =>
    cases s
    case mapping => cases hs
    all_goals cases hsame

theorem isMapping_eq_of_sameValue {l r : Value} (h : l.sameValue mode r = true) :
    l.isMapping = r.isMapping := by
  cases l <;> cases r <;> first | rfl | cases h

/-- Outside mappings, to contain is to be the same. -/
theorem within_iff_sameValue {s v : Value} (hv : v.isMapping = false) :
    s.within mode v = true ↔ s.isMapping = false ∧ v.sameValue mode s = true := by
  cases s <;> cases v <;> simp_all [within, isMapping, sameValue, sameBy]

/-- A change that spares a signature leaves it contained. -/
theorem within_of_spared {s l r : Value} (hs : s.WellFormed) (hl : l.WellFormed)
    (hr : r.WellFormed) (hexact : s.Exact)
    (hspared : ∀ d ∈ differences l r, s.spoiledBy d.left d.path = false)
    (h : s.within mode l = true) : s.within mode r = true := by
  induction hn : s.size using Nat.strongRecOn generalizing s l r with
  | ind n ih =>
      cases hmapping : l.isMapping with
      | false =>
          obtain ⟨hscalar, hsame⟩ := (within_iff_sameValue hmapping).mp h
          have hkept := sameValue_of_spared hscalar hl hr hsame hspared
          rw [within_iff_sameValue (isMapping_eq_of_sameValue hkept ▸ hmapping)]
          exact ⟨hscalar, sameValue_trans hl hr hs hexact hsame hkept⟩
      | true =>
          obtain ⟨ls, rfl⟩ : ∃ ls, l = .mapping ls := by
            cases l <;> first | exact ⟨_, rfl⟩ | cases hmapping
          obtain ⟨rs, rfl⟩ : ∃ rs, r = .mapping rs := by
            have hc : (mapping ls).sameValue .sensitive r = true ∨ SameContainer (mapping ls) r :=
              or_iff_not_imp_left.mpr fun hdiffer => sameContainer_of_spared hdiffer hspared
            cases r <;> first | exact ⟨_, rfl⟩ | exact (hc.elim nofun id).elim
          cases s with
          | null => rfl
          | mapping wanted =>
              rw [within, fieldsWithin_iff] at h ⊢
              rintro ⟨k, w⟩ hf
              obtain ⟨v, hv, hwithin⟩ := h (k, w) hf
              have hw : Fields.find? wanted k = some w := (Fields.mem_iff_find? hs.keys_nodup).mp hf
              -- A difference behind the key `k` is a difference of the two mappings.
              have hbehind : ∀ d ∈ beneath (.key k) (some v) (Fields.find? rs k),
                  (mapping wanted).spoiledBy d.left d.path = false := by
                intro d hd
                rw [← show (mapping ls).step? (.key k) = some v from hv] at hd
                exact hspared d ((mem_differences hl hr trivial).mpr ⟨.key k, hd⟩)
              cases hx : Fields.find? rs k with
              | none =>
                  rw [hx] at hbehind
                  have hremoved := hbehind _ (List.mem_singleton_self _)
                  rw [spoiledBy, hw] at hremoved
                  cases hremoved
              | some x =>
                  rw [hx] at hbehind
                  refine ⟨x, rfl, ih w.size (hn ▸ size_lt_of_mem_fields hf)
                    (hs.step? (s := .key k) hw) (hl.step? (s := .key k) hv)
                    (hr.step? (s := .key k) hx) (hexact.step? (s := .key k) hw) ?_ hwithin rfl⟩
                  intro d hd
                  have hunder := hbehind (d.under (.key k)) (List.mem_map_of_mem hd)
                  rwa [Difference.under_path, Difference.under_left, spoiledBy, hw] at hunder
          | _ => cases h

end Value

namespace Document

/-- Containment survives every change of the document that does not spoil the signature. -/
theorem contains_of_spared {mode : CaseMode} {signature before after : Document}
    (hexact : signature.value.Exact)
    (hspared : ∀ d ∈ before.changes after, signature.value.spoiledBy d.left d.path = false)
    (h : before.contains mode signature = true) : after.contains mode signature = true :=
  Value.within_of_spared (s := signature.value) (l := before.value) (r := after.value)
    signature.wellFormed_value before.wellFormed_value after.wellFormed_value hexact
    (fun d hd => hspared d (mem_changes.mpr hd)) h

end Document

end DatasetCatalog
