import DatasetCatalog.Document.Layout
import DatasetCatalog.Proofs.Document.ChangeRules
import DatasetCatalog.Proofs.Document.Difference

/-!
# Taking fields out of documents

What has been taken out is not there any more, nor is anything below it, and everything apart from it
reads as before. A document without its lineage therefore has nothing at the sources path: the field
is gone, and taking out the mappings that this leaves empty only removes more of what leads to it.
-/

namespace DatasetCatalog

namespace Value

theorem step?_replace {v w : Value} {s : Step} (h : v.step? s = some w) (u : Value) :
    (v.replace s u).step? s = some u := by
  cases v <;> cases s <;> simp only [step?, reduceCtorEq] at h
  case sequence.index items i =>
    exact List.getElem?_set_self (List.getElem?_eq_some_iff.mp h).1
  case mapping.key fields k =>
    rw [replace, step?, Fields.find?_put, if_pos rfl]

theorem step?_replace_of_ne {v : Value} {s t : Step} (h : t ≠ s) (u : Value) :
    (v.replace s u).step? t = v.step? t := by
  cases v <;> cases s <;> cases t <;> try rfl
  case mapping.key.key fields k l =>
    have hkeys : k ≠ l := fun he => h (he ▸ rfl)
    rw [replace, step?, Fields.find?_put, if_neg hkeys]
    rfl
  case sequence.index.index items i j =>
    have hindices : i ≠ j := fun he => h (he ▸ rfl)
    exact List.getElem?_set_ne hindices

theorem take?_cons_cons (v : Value) (s next : Step) (more : FieldPath) :
    v.take? (s :: next :: more) = (v.step? s).bind fun w =>
      (w.take? (next :: more)).map fun taken => (taken.1, v.replace s taken.2) := by
  cases s <;> rfl

theorem at?_of_take? {v : Value} (hv : v.WellFormed) {path : FieldPath} {taken : Value × Value}
    (h : v.take? path = some taken) : taken.2.at? path = none := by
  induction path generalizing v taken with
  | nil => cases h
  | cons s rest ih =>
      cases rest with
      | nil =>
          cases v <;> cases s <;> simp only [take?, reduceCtorEq] at h
          case mapping.key fields k =>
            obtain ⟨w, -, rfl⟩ := Option.map_eq_some_iff.mp h
            rw [at?_cons, step?, Fields.find?_erase hv.keys_nodup, if_pos rfl]
            rfl
      | cons next more =>
          obtain ⟨w, hw, h⟩ := Option.bind_eq_some_iff.mp h
          obtain ⟨inner, hinner, rfl⟩ := Option.map_eq_some_iff.mp h
          rw [at?_cons, step?_replace hw]
          exact ih (hv.step? hw) hinner

/-- Everything that does not lead through what is taken out reads as before. -/
theorem at?_of_take?_of_apart {v : Value} (hv : v.WellFormed) {p q : FieldPath}
    {taken : Value × Value} (h : v.take? p = some taken) (hpq : p.Apart q) :
    taken.2.at? q = v.at? q := by
  induction p generalizing v taken q with
  | nil => cases h
  | cons s rest ih =>
      cases q with
      | nil => exact (hpq.2 List.nil_prefix).elim
      | cons t q =>
          cases rest with
          | nil =>
              have hne : t ≠ s := by
                rintro rfl
                exact hpq.1 ⟨q, rfl⟩
              cases v <;> cases s <;> simp only [take?, reduceCtorEq] at h
              case mapping.key fields k =>
                obtain ⟨w, -, rfl⟩ := Option.map_eq_some_iff.mp h
                cases t with
                | index i => rfl
                | key l =>
                    have hkeys : l ≠ k := fun he => hne (he ▸ rfl)
                    rw [at?_cons, at?_cons, step?, Fields.find?_erase hv.keys_nodup, if_neg hkeys]
                    rfl
          | cons next more =>
              rw [take?_cons_cons] at h
              obtain ⟨w, hw, h⟩ := Option.bind_eq_some_iff.mp h
              obtain ⟨inner, hinner, rfl⟩ := Option.map_eq_some_iff.mp h
              rw [at?_cons, at?_cons]
              by_cases hts : t = s
              · subst hts
                rw [step?_replace hw, hw]
                exact ih (hv.step? hw) hinner hpq.tail
              · rw [step?_replace_of_ne hts]

/-- What is taken out is what was there. -/
theorem at?_eq_of_take? {v : Value} {path : FieldPath} {taken : Value × Value}
    (h : v.take? path = some taken) : v.at? path = some taken.1 := by
  induction path generalizing v taken with
  | nil => cases h
  | cons s rest ih =>
      cases rest with
      | nil =>
          cases v <;> cases s <;> simp only [take?, reduceCtorEq] at h
          case mapping.key fields k =>
            obtain ⟨w, hw, rfl⟩ := Option.map_eq_some_iff.mp h
            rw [at?_cons, step?, hw]
            rfl
      | cons next more =>
          rw [take?_cons_cons] at h
          obtain ⟨w, hw, h⟩ := Option.bind_eq_some_iff.mp h
          obtain ⟨inner, hinner, rfl⟩ := Option.map_eq_some_iff.mp h
          rw [at?_cons, hw]
          exact (ih hinner : w.at? (next :: more) = some inner.1)

/-- Where a key cannot be taken out, nothing is there. -/
theorem at?_of_take?_eq_none {v : Value} {path : FieldPath} {k : String}
    (hlast : path.getLast? = some (.key k)) (h : v.take? path = none) : v.at? path = none := by
  induction path generalizing v with
  | nil => cases hlast
  | cons s rest ih =>
      cases rest with
      | nil =>
          cases hlast
          cases v with
          | mapping fields =>
              rw [at?_cons, step?, Option.map_eq_none_iff.mp h]
              rfl
          | _ => rfl
      | cons next more =>
          rw [at?_cons]
          cases hw : v.step? s with
          | none => rfl
          | some w =>
              rw [take?_cons_cons, hw] at h
              exact ih hlast (Option.map_eq_none_iff.mp h)

/-- A mapping from which a field is taken out is a mapping. -/
theorem isMapping_of_take? {fields : Fields} {path : FieldPath} {taken : Value × Value}
    (h : (mapping fields).take? path = some taken) : ∃ rest, taken.2 = mapping rest := by
  cases path with
  | nil => cases h
  | cons s path =>
      cases path with
      | nil =>
          cases s with
          | index i => cases h
          | key k =>
              obtain ⟨w, -, rfl⟩ := Option.map_eq_some_iff.mp h
              exact ⟨_, rfl⟩
      | cons next more =>
          obtain ⟨w, -, h⟩ := Option.bind_eq_some_iff.mp h
          obtain ⟨inner, -, rfl⟩ := Option.map_eq_some_iff.mp h
          cases s with
          | index i => exact ⟨_, rfl⟩
          | key k => exact ⟨_, rfl⟩

end Value

namespace Document

variable {d e : Document} {p q : FieldPath} {v : Value}

theorem remove?_eq_some (h : d.remove? p = some (v, e)) : d.value.take? p = some (v, e.value) := by
  rw [remove?] at h
  split at h
  next hv =>
    cases h
    exact hv
  next => cases h

theorem take?_of_remove?_eq_none (h : d.remove? p = none) : d.value.take? p = none := by
  rw [remove?] at h
  split at h
  next => cases h
  next hother =>
    cases ht : d.value.take? p with
    | none => rfl
    | some taken =>
        obtain ⟨rest, hrest⟩ := Value.isMapping_of_take? ht
        exact (hother taken.1 rest (by rw [ht, ← hrest])).elim

theorem remove?_eq_none (h : d.value.take? p = none) : d.remove? p = none := by
  cases hremove : d.remove? p with
  | none => rfl
  | some taken => cases h.symm.trans (remove?_eq_some hremove)

/-- Nothing is left at a path through which a field was taken out. -/
theorem get?_of_remove? (h : d.remove? p = some (v, e)) (hpq : p <+: q) : e.get? q = none := by
  obtain ⟨rest, rfl⟩ := hpq
  have hgone := Value.at?_of_take? d.wellFormed (remove?_eq_some h)
  rw [get?]
  split
  next => rfl
  next => rw [Value.at?_append, hgone, Option.bind_none]

/-- What is apart from the field that was taken out reads as before. -/
theorem get?_of_remove?_of_apart (h : d.remove? p = some (v, e)) (hpq : p.Apart q) :
    e.get? q = d.get? q := by
  rw [get?, get?]
  split
  next => rfl
  next => exact Value.at?_of_take?_of_apart d.wellFormed (remove?_eq_some h) hpq

theorem get?_eq_of_remove? (h : d.remove? p = some (v, e)) : d.get? p = some v := by
  have htaken := remove?_eq_some h
  have hne : p.isEmpty = false := by
    cases p with
    | nil => cases htaken
    | cons s p => rfl
  rw [get?, hne, if_neg Bool.false_ne_true, Value.at?_eq_of_take? htaken]

theorem get?_of_remove?_eq_none {k : String} (hlast : p.getLast? = some (.key k))
    (h : d.remove? p = none) : d.get? p = none := by
  rw [get?]
  split
  next => rfl
  next => exact Value.at?_of_take?_eq_none hlast (take?_of_remove?_eq_none h)

theorem get?_below_empty (h : d.get? p = some (.mapping [])) (s : Step) (rest : FieldPath) :
    d.get? (p ++ s :: rest) = none := by
  rw [get?] at h ⊢
  split at h
  next => cases h
  next =>
    split
    next => rfl
    next =>
      rw [Value.at?_append, h]
      cases s <;> rfl

end Document

namespace Layout

theorem get?_pruneEmpty {d : Document} {q : FieldPath} {paths : List FieldPath}
    (hpaths : ∀ p ∈ paths, p <+: q) (h : d.get? q = none) : (pruneEmpty d paths).get? q = none := by
  induction paths generalizing d with
  | nil => exact h
  | cons p paths ih =>
      have hlater : ∀ p ∈ paths, p <+: q := fun p hp => hpaths p (List.mem_cons_of_mem _ hp)
      rw [pruneEmpty]
      split
      next =>
        cases hremove : d.remove? p with
        | none => exact ih hlater h
        | some taken =>
            exact ih hlater (Document.get?_of_remove? hremove (hpaths p List.mem_cons_self))
      next => exact h

/-- Below an empty mapping there is nothing, so taking it out changes nothing apart from the paths
that lead to it. -/
theorem get?_pruneEmpty_of_apart {d : Document} {p q : FieldPath} {paths : List FieldPath}
    (hpaths : ∀ r ∈ paths, r <+: p) (hpq : p.Apart q) :
    (pruneEmpty d paths).get? q = d.get? q := by
  induction paths generalizing d with
  | nil => rfl
  | cons r paths ih =>
      have hlater : ∀ r ∈ paths, r <+: p := fun r hr => hpaths r (List.mem_cons_of_mem _ hr)
      have hr := hpaths r List.mem_cons_self
      rw [pruneEmpty]
      split
      next hempty =>
        cases hremove : d.remove? r with
        | none => exact ih hlater
        | some taken =>
            obtain ⟨v, rest⟩ := taken
            refine (ih hlater).trans ?_
            by_cases hrq : r <+: q
            · have hgone : rest.get? q = none := Document.get?_of_remove? hremove hrq
              obtain ⟨more, rfl⟩ := hrq
              cases more with
              | nil => exact (hpq.2 (by rwa [List.append_nil])).elim
              | cons s more => exact hgone.trans (Document.get?_below_empty hempty s more).symm
            · exact Document.get?_of_remove?_of_apart hremove ⟨hrq, fun hqr => hpq.2 (hqr.trans hr)⟩
      next => rfl

/-- Everything apart from the sources path reads the same without the lineage. -/
theorem get?_withoutLineage_of_apart {layout : Layout} {q : FieldPath}
    (hq : layout.sources.Apart q) (d : Document) : (layout.withoutLineage d).get? q = d.get? q := by
  rw [withoutLineage]
  split
  next => rfl
  next hremove =>
    rw [get?_pruneEmpty_of_apart (fun p hp => FieldPath.isPrefix_of_mem_ancestors hp) hq]
    exact Document.get?_of_remove?_of_apart hremove hq

/-- A document without a lineage field stays as it is. -/
theorem withoutLineage_of_get?_eq_none {layout : Layout} {d : Document}
    (h : d.get? layout.sources = none) : layout.withoutLineage d = d := by
  rw [withoutLineage]
  split
  next => rfl
  next hremove => cases h.symm.trans (Document.get?_eq_of_remove? hremove)

/-- Nothing is left at the sources path, if it ends in a key. -/
theorem get?_sources_withoutLineage {layout : Layout} {k : String}
    (hlast : layout.sources.getLast? = some (.key k)) (d : Document) :
    (layout.withoutLineage d).get? layout.sources = none := by
  rw [withoutLineage]
  split
  next hremove => exact Document.get?_of_remove?_eq_none hlast hremove
  next hremove =>
    refine get?_pruneEmpty (fun p hp => FieldPath.isPrefix_of_mem_ancestors hp) ?_
    exact Document.get?_of_remove? hremove List.prefix_rfl

end Layout

end DatasetCatalog
