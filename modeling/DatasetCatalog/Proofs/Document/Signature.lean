import DatasetCatalog.Proofs.Document.Addressing
import DatasetCatalog.Proofs.Document.Containment

/-!
# What a signature asks, path by path

Containment is decided by one recursion over the signature, in which null and mappings are cases of
their own. Seen from outside it is a statement about paths of keys: wherever the signature has a value,
the document has one that answers it. So whatever leaves an answer at every such path leaves the
signature contained: fields that are added to the document or dropped from the signature, and a mapping
of the signature that becomes null. `Fields.Trims` is all of these at any depth outside sequences.
-/

namespace DatasetCatalog

/-- The second mapping is the first one with fewer fields, in the mapping itself or in mappings inside
it, sequences apart; if `blanking`, some of these mappings may also have become null. -/
inductive Fields.Trims (blanking : Bool) : Fields → Fields → Prop
  | nil : Trims blanking [] []
  | keep (f : String × Value) {fields fewer : Fields} :
    Trims blanking fields fewer → Trims blanking (f :: fields) (f :: fewer)
  | drop (f : String × Value) {fields fewer : Fields} :
    Trims blanking fields fewer → Trims blanking (f :: fields) fewer
  | inside (k : String) {inner left fields fewer : Fields} :
    Trims blanking inner left → Trims blanking fields fewer →
    Trims blanking ((k, .mapping inner) :: fields) ((k, .mapping left) :: fewer)
  | blank (k : String) (inner : Fields) {fields fewer : Fields} :
    blanking = true → Trims blanking fields fewer →
    Trims blanking ((k, .mapping inner) :: fields) ((k, .null) :: fewer)

namespace Value

/-- Whether a value answers what the signature has at its path: a mapping asks for a mapping, null for
a mapping or null, and everything else for the same value. -/
def Answers (mode : CaseMode) (v : Value) : Value → Prop
  | .mapping _ => v.isMapping = true
  | .null => v.isMapping = true ∨ v = .null
  | wanted => v.sameValue mode wanted = true

/-- What trimming makes of a single value. -/
inductive Trims (blanking : Bool) : Value → Value → Prop
  | same (v : Value) : Trims blanking v v
  | inside {inner left : Fields} :
    Fields.Trims blanking inner left → Trims blanking (.mapping inner) (.mapping left)
  | blank (inner : Fields) : blanking = true → Trims blanking (.mapping inner) .null

variable {mode : CaseMode} {blanking : Bool}

/-! ## Answers -/

theorem answers_of_within {s v : Value} (h : s.within mode v = true) : v.Answers mode s := by
  cases s <;> cases v <;> simp_all [within, Answers, isMapping, sameValue, sameBy]

/-- Outside mappings there is nothing further to ask. -/
theorem within_of_answers {s v : Value} (hs : s.isMapping = false) (h : v.Answers mode s) :
    s.within mode v = true := by
  cases s <;> cases v <;> simp_all [within, Answers, isMapping, sameValue, sameBy]

/-- A mapping is contained key by key in a mapping, and in nothing else. -/
theorem within_mapping_iff {wanted : Fields} (hwanted : wanted.keys.Nodup) {v : Value} :
    (mapping wanted).within mode v = true ↔ ∃ fields : Fields, v = .mapping fields ∧
      ∀ k w, wanted.find? k = some w → ∃ x, fields.find? k = some x ∧ w.within mode x = true := by
  cases v with
  | mapping fields =>
      rw [within, fieldsWithin_iff]
      constructor
      · intro h
        exact ⟨fields, rfl, fun k w hw => h (k, w) (Fields.mem_of_find? hw)⟩
      · rintro ⟨_, ⟨⟩, h⟩ ⟨k, w⟩ hf
        exact h k w ((Fields.mem_iff_find? hwanted).mp hf)
  | null | boolean | number | text | sequence =>
      constructor
      · intro h
        cases h
      · rintro ⟨_, ⟨⟩, -⟩

/-- A signature is contained exactly when it is answered at each of its paths of keys. -/
theorem within_iff_answers {s v : Value} (hs : s.WellFormed) :
    s.within mode v = true ↔ ∀ keys e, s.at? (.ofKeys keys) = some e →
      ∃ a, v.at? (.ofKeys keys) = some a ∧ a.Answers mode e := by
  induction hn : s.size using Nat.strongRecOn generalizing s v with
  | ind n ih =>
      constructor
      · rintro h (_ | ⟨k, keys⟩) e he
        · cases he
          exact ⟨v, rfl, answers_of_within h⟩
        · obtain ⟨w, hw, hbelow⟩ := Option.bind_eq_some_iff.mp he
          cases s with
          | mapping wanted =>
              obtain ⟨fields, rfl, hfields⟩ := (within_mapping_iff hs.keys_nodup).mp h
              obtain ⟨x, hx, hwithin⟩ := hfields k w hw
              have hsmaller := hn ▸ size_lt_of_mem_fields (Fields.mem_of_find? hw)
              obtain ⟨a, ha, hanswers⟩ :=
                (ih w.size hsmaller (hs.step? (s := .key k) hw) rfl).mp hwithin keys e hbelow
              exact ⟨a, Option.bind_eq_some_iff.mpr ⟨x, hx, ha⟩, hanswers⟩
          | null | boolean | number | text | sequence => cases hw
      · intro h
        obtain ⟨_, ⟨⟩, hroot⟩ := h [] s rfl
        cases s with
        | mapping wanted =>
            obtain ⟨fields, rfl⟩ : ∃ fields : Fields, v = .mapping fields := by
              cases v with
              | mapping fields => exact ⟨fields, rfl⟩
              | null | boolean | number | text | sequence => cases hroot
            refine (within_mapping_iff hs.keys_nodup).mpr ⟨fields, rfl, fun k w hw => ?_⟩
            -- The answers behind the key `k` are answers to the field at `k`.
            have hbehind : ∀ keys e, w.at? (.ofKeys keys) = some e → ∃ x a,
                fields.find? k = some x ∧ x.at? (.ofKeys keys) = some a ∧ a.Answers mode e := by
              intro keys e he
              obtain ⟨a, ha, hanswers⟩ := h (k :: keys) e (Option.bind_eq_some_iff.mpr ⟨w, hw, he⟩)
              obtain ⟨x, hx, ha⟩ := Option.bind_eq_some_iff.mp ha
              exact ⟨x, a, hx, ha, hanswers⟩
            obtain ⟨x, -, hx, -, -⟩ := hbehind [] w rfl
            have hsmaller := hn ▸ size_lt_of_mem_fields (Fields.mem_of_find? hw)
            refine ⟨x, hx, (ih w.size hsmaller (hs.step? (s := .key k) hw) rfl).mpr ?_⟩
            intro keys e he
            obtain ⟨y, a, hy, ha, hanswers⟩ := hbehind keys e he
            cases hx.symm.trans hy
            exact ⟨a, ha, hanswers⟩
        | null | boolean | number | text | sequence => exact within_of_answers rfl hroot

/-! ## Trimming -/

/-- A first field that is kept in some form is either the one looked for or none of its business. -/
theorem find?_cons_of_trims {fields fewer : Fields} {k l : String} {x y w : Value}
    (hfirst : Trims blanking x y) (hw : Fields.find? ((l, y) :: fewer) k = some w)
    (hrest : fewer.find? k = some w → ∃ v, fields.find? k = some v ∧ Trims blanking v w) :
    ∃ v, Fields.find? ((l, x) :: fields) k = some v ∧ Trims blanking v w := by
  rw [Fields.find?_cons] at hw ⊢
  split at hw
  next hl =>
    cases hw
    exact ⟨x, if_pos hl, hfirst⟩
  next hl =>
    rw [if_neg hl]
    exact hrest hw

theorem find?_of_trims {fields fewer : Fields} (h : fields.Trims blanking fewer)
    (hnodup : fields.keys.Nodup) {k : String} {w : Value} (hw : fewer.find? k = some w) :
    ∃ v, fields.find? k = some v ∧ Trims blanking v w := by
  induction h with
  | nil => cases hw
  | keep f _ ih => exact find?_cons_of_trims (.same f.2) hw (ih hnodup.of_cons)
  | drop f _ ih =>
      obtain ⟨v, hv, htrims⟩ := ih hnodup.of_cons hw
      have hkey : f.1 ≠ k := by
        rintro rfl
        exact (List.nodup_cons.mp hnodup).1 (Fields.mem_keys_iff.mpr (by rw [hv]; rfl))
      exact ⟨v, (if_neg hkey).trans hv, htrims⟩
  | inside l hinner _ _ ih => exact find?_cons_of_trims (.inside hinner) hw (ih hnodup.of_cons)
  | blank l inner hblanking _ ih => exact find?_cons_of_trims (.blank inner hblanking) hw (ih hnodup.of_cons)

/-- What is left at a path was there before trimming, or more was. -/
theorem Trims.at? {v w : Value} (h : Trims blanking v w) (hv : v.WellFormed) {keys : List String}
    {e : Value} (he : w.at? (.ofKeys keys) = some e) :
    ∃ a, v.at? (.ofKeys keys) = some a ∧ Trims blanking a e := by
  induction keys generalizing v w with
  | nil =>
      cases he
      exact ⟨v, rfl, h⟩
  | cons k keys ih =>
      cases h with
      | same => exact ⟨e, he, .same e⟩
      | inside hfields =>
          obtain ⟨w', hw', he⟩ := Option.bind_eq_some_iff.mp he
          obtain ⟨v', hv', htrims⟩ := find?_of_trims hfields hv.keys_nodup hw'
          obtain ⟨a, ha, htrims⟩ := ih htrims (hv.step? (s := .key k) hv') he
          exact ⟨a, Option.bind_eq_some_iff.mpr ⟨v', hv', ha⟩, htrims⟩
      | blank => cases he

/-- A value with more fields gives no worse an answer. -/
theorem Answers.of_wider {a b e : Value} (h : a.Answers mode e) (hwider : Trims false b a) :
    b.Answers mode e := by
  cases hwider with
  | same => exact h
  | inside => cases e <;> simp_all [Answers, isMapping, sameValue, sameBy]
  | blank _ hblanking => cases hblanking

/-- A trimmed value asks for no more. -/
theorem Answers.of_looser {a e e' : Value} (h : a.Answers mode e) (hlooser : Trims blanking e e') :
    a.Answers mode e' := by
  cases hlooser with
  | same => exact h
  | inside => exact h
  | blank => exact .inl h

theorem within_of_trims {s s' v v' : Value} (hs : s.WellFormed) (hs' : s'.WellFormed)
    (hv' : v'.WellFormed) (hlooser : Trims true s s') (hwider : Trims false v' v)
    (h : s.within mode v = true) : s'.within mode v' = true := by
  rw [within_iff_answers hs']
  intro keys e' he'
  obtain ⟨e, he, hasked⟩ := hlooser.at? hs he'
  obtain ⟨a, ha, hanswers⟩ := (within_iff_answers hs).mp h keys e he
  obtain ⟨b, hb, hmore⟩ := hwider.at? hv' ha
  exact ⟨b, hb, (hanswers.of_wider hmore).of_looser hasked⟩

end Value

namespace Document

variable {mode : CaseMode}

theorem contains_eq_within (d s : Document) : d.contains mode s = s.value.within mode d.value := rfl

/-- A document contains a signature exactly when it answers it at every path of keys. So fields that are
added to the document outside its sequences leave the signature contained, and so does what makes the
signature ask for less: fields dropped and mappings replaced by null outside its sequences. -/
theorem contains_iff_answered (mode : CaseMode) (d s : Document) :
    (d.contains mode s = true ↔ ∀ keys e, s.get? (.ofKeys keys) = some e →
      ∃ a, d.get? (.ofKeys keys) = some a ∧ a.Answers mode e) ∧
    (d.contains mode s = true →
      (∀ wider : Document, wider.fields.Trims false d.fields → wider.contains mode s = true) ∧
      ∀ looser : Document, s.fields.Trims true looser.fields → d.contains mode looser = true) := by
  simp only [contains_eq_within]
  refine ⟨?_, fun h => ⟨fun wider hwider => ?_, fun looser hlooser => ?_⟩⟩
  · rw [Value.within_iff_answers s.wellFormed_value]
    -- At the root both are mappings, so the empty path never matters.
    constructor
    · rintro h (_ | ⟨k, keys⟩) e he
      · cases he
      · exact h (k :: keys) e he
    · rintro h (_ | ⟨k, keys⟩) e he
      · cases he
        exact ⟨d.value, rfl, rfl⟩
      · exact h (k :: keys) e he
  · exact Value.within_of_trims s.wellFormed_value s.wellFormed_value wider.wellFormed_value
      (.same s.value) (.inside hwider) h
  · exact Value.within_of_trims s.wellFormed_value looser.wellFormed_value d.wellFormed_value
      (.inside hlooser) (.same d.value) h

section OrbitScene

/-- What a platform flew over, seen with or without its orbit. -/
def orbitScene (orbit : Fields) : Document := .ofFields
  [("bands", .sequence [.text "red", .null]), ("platform", .mapping (("code", .text "LS8") :: orbit))]

def platformSignature : Document := .ofFields
  [("platform", .mapping [("code", .text "LS8")]), ("bands", .sequence [.text "red", .null])]

def looseSignature : Document := .ofFields [("platform", .null)]

/-- An orbit that is added to the platform does no harm, and neither does a signature that no longer
says which platform it is. -/
theorem orbitScene_contains_signature :
    (orbitScene []).contains .sensitive platformSignature = true ∧
      (orbitScene [("orbit", .null)]).contains .sensitive platformSignature = true ∧
      (orbitScene [("orbit", .null)]).contains .sensitive looseSignature = true ∧
      ∃ a, (orbitScene []).get? (.ofKeys ["platform"]) = some a ∧
        a.Answers .sensitive (.mapping [("code", .text "LS8")]) := by
  have hcontains : (orbitScene []).contains .sensitive platformSignature = true := by
    rfl
  have hwider : (orbitScene [("orbit", .null)]).fields.Trims false (orbitScene []).fields :=
    .keep _ (.inside "platform" (.keep _ (.drop _ .nil)) .nil)
  have hlooser : platformSignature.fields.Trims true looseSignature.fields :=
    .blank "platform" _ rfl (.drop _ .nil)
  obtain ⟨hanswered, htrimmed⟩ := contains_iff_answered .sensitive (orbitScene []) platformSignature
  have hwide := (htrimmed hcontains).1 _ hwider
  refine ⟨hcontains, hwide, ?_, hanswered.mp hcontains ["platform"] _ rfl⟩
  exact ((contains_iff_answered .sensitive _ platformSignature).2 hwide).2 _ hlooser

end OrbitScene

end Document

end DatasetCatalog
