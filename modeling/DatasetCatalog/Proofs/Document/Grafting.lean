import DatasetCatalog.Proofs.Document.Addressing
import DatasetCatalog.Proofs.Document.Removal
import DatasetCatalog.Proofs.Json.Value
import DatasetCatalog.Proofs.Outcome
import Mathlib.Data.List.Induction

/-!
# Stripping a document of its lineage and embedding another one

The lineage field is set from the root down and taken out from the field up, with the mappings that
this leaves empty. `Fields.strip` takes it out from the root down as well, so that both follow the
keys of the path: what was stripped of one lineage can be given another and stripped of it again, and
is as it was. Apart from the field it reads the same all the time.
-/

namespace DatasetCatalog

namespace Fields

theorem erase_of_find?_eq_none {fields : Fields} {k : String} (h : fields.find? k = none) :
    fields.erase k = fields := by
  induction fields with
  | nil => rfl
  | cons f rest ih =>
      obtain ⟨l, w⟩ := f
      rw [find?_cons] at h
      split at h
      next => cases h
      next hne => rw [erase, if_neg hne, ih h]

theorem erase_put (fields : Fields) (k : String) (v : Value) :
    (fields.put k v).erase k = fields.erase k := by
  induction fields with
  | nil => simp [put, erase]
  | cons f rest ih =>
      obtain ⟨l, w⟩ := f
      rw [put, erase]
      split
      next hl => rw [erase, if_pos hl]
      next hl => rw [erase, if_neg hl, ih]

theorem put_put (fields : Fields) (k : String) (v w : Value) :
    (fields.put k v).put k w = fields.put k w := by
  induction fields with
  | nil => simp [put]
  | cons f rest ih =>
      obtain ⟨l, u⟩ := f
      rw [put, put]
      split
      next hl => rw [put, if_pos hl]
      next hl => rw [put, if_neg hl, ih]

theorem put_of_find? {fields : Fields} {k : String} {v : Value} (h : fields.find? k = some v) :
    fields.put k v = fields := by
  induction fields with
  | nil => cases h
  | cons f rest ih =>
      obtain ⟨l, w⟩ := f
      rw [find?_cons] at h
      rw [put]
      split at h
      next hl =>
        cases h
        rw [if_pos hl]
      next hl => rw [if_neg hl, ih h]

/-- What is left when the field at a path of keys is taken out; nothing if there is none. -/
def dropAt : Fields → List String → Option Fields
  | _, [] => none
  | fields, [k] => (fields.find? k).map fun _ => fields.erase k
  | fields, k :: next :: more =>
    match fields.find? k with
    | some (.mapping inner) =>
      (dropAt inner (next :: more)).map fun left => fields.put k (.mapping left)
    | _ => none

/-- What is left when the field at a path of keys is taken out, with the mappings on its way that
this leaves empty. -/
def strip : Fields → List String → Option Fields
  | _, [] => none
  | fields, [k] => (fields.find? k).map fun _ => fields.erase k
  | fields, k :: next :: more =>
    match fields.find? k with
    | some (.mapping inner) =>
      (strip inner (next :: more)).map fun left =>
        if left.isEmpty then fields.erase k else fields.put k (.mapping left)
    | _ => none

theorem at?_key (fields : Fields) (k : String) (path : FieldPath) :
    (Value.mapping fields).at? (.key k :: path) = (fields.find? k).bind fun v => v.at? path := rfl

theorem strip_cons_cons (fields : Fields) (k next : String) (more : List String) {inner : Fields}
    (h : fields.find? k = some (.mapping inner)) :
    fields.strip (k :: next :: more) = (inner.strip (next :: more)).map fun left =>
      if left.isEmpty then fields.erase k else fields.put k (.mapping left) := by
  rw [strip, h]

theorem dropAt_cons_cons (fields : Fields) (k next : String) (more : List String) {inner : Fields}
    (h : fields.find? k = some (.mapping inner)) :
    fields.dropAt (k :: next :: more) =
      (inner.dropAt (next :: more)).map fun left => fields.put k (.mapping left) := by
  rw [dropAt, h]

/-- Only a mapping has a field further down. -/
theorem exists_inner {fields : Fields} {k next : String} {path : FieldPath} {v : Value}
    (h : (Value.mapping fields).at? (.key k :: .key next :: path) = some v) :
    ∃ inner, fields.find? k = some (.mapping inner) ∧
      (Value.mapping inner).at? (.key next :: path) = some v := by
  rw [at?_key] at h
  obtain ⟨w, hw, h⟩ := Option.bind_eq_some_iff.mp h
  cases w with
  | mapping inner => exact ⟨inner, hw, h⟩
  | null | boolean | number | text | sequence => cases h

/-- A field that is there can be taken out. -/
theorem exists_strip {fields : Fields} {k : String} {rest : List String} {v : Value}
    (h : (Value.mapping fields).at? (.ofKeys (k :: rest)) = some v) :
    ∃ left, fields.strip (k :: rest) = some left := by
  induction rest generalizing fields k with
  | nil =>
      rw [FieldPath.ofKeys, List.map_cons, at?_key] at h
      obtain ⟨w, hw, -⟩ := Option.bind_eq_some_iff.mp h
      exact ⟨fields.erase k, by rw [strip, hw]; rfl⟩
  | cons next more ih =>
      obtain ⟨inner, hinner, h⟩ := exists_inner h
      obtain ⟨left, hleft⟩ := ih h
      rw [strip_cons_cons _ _ _ _ hinner, hleft]
      exact ⟨_, rfl⟩

theorem put_ne_nil (fields : Fields) (k : String) (v : Value) : fields.put k v ≠ [] := by
  cases fields with
  | nil => simp [put]
  | cons f rest =>
      rw [put]
      split <;> simp

/-- Takes out the mapping at a path of keys if it is empty, and then those around it. -/
def prune (fields : Fields) (path : List String) : Fields :=
  match (Value.mapping fields).at? (.ofKeys path) with
  | some (.mapping []) => (fields.strip path).getD fields
  | _ => fields

theorem prune_of_empty {fields : Fields} {path : List String}
    (h : (Value.mapping fields).at? (.ofKeys path) = some (.mapping [])) :
    fields.prune path = (fields.strip path).getD fields := by
  rw [prune, h]

theorem prune_of_ne {fields : Fields} {path : List String}
    (h : (Value.mapping fields).at? (.ofKeys path) ≠ some (.mapping [])) :
    fields.prune path = fields := by
  rw [prune]
  split
  next hempty => exact (h hempty).elim
  next => rfl

theorem at?_put_self (fields : Fields) (k : String) (v : Value) (path : FieldPath) :
    (Value.mapping (fields.put k v)).at? (.key k :: path) = v.at? path := by
  rw [at?_key, find?_put, if_pos rfl, Option.bind_some]

/-- Pruning inside a field prunes the field. -/
theorem prune_put (fields : Fields) (k next : String) (more : List String) {inner : Fields}
    (h : inner ≠ []) :
    (fields.put k (.mapping inner)).prune (k :: next :: more) =
      if (inner.prune (next :: more)).isEmpty then fields.erase k
      else fields.put k (.mapping (inner.prune (next :: more))) := by
  have hat : (Value.mapping (fields.put k (.mapping inner))).at? (.ofKeys (k :: next :: more)) =
      (Value.mapping inner).at? (.ofKeys (next :: more)) :=
    at?_put_self fields k (.mapping inner) (.ofKeys (next :: more))
  by_cases hempty : (Value.mapping inner).at? (.ofKeys (next :: more)) = some (.mapping [])
  · obtain ⟨left, hleft⟩ := exists_strip hempty
    have hput : (fields.put k (.mapping inner)).find? k = some (.mapping inner) := by
      rw [find?_put, if_pos rfl]
    rw [prune_of_empty (hat.trans hempty), prune_of_empty hempty, hleft,
      strip_cons_cons _ _ _ _ hput, hleft, erase_put, Option.map_some, Option.getD_some,
      Option.getD_some, put_put]
  · rw [prune_of_ne (hat ▸ hempty), prune_of_ne hempty, if_neg (by simpa using h)]

theorem prune_put_last (fields : Fields) (k : String) (inner : Fields) :
    (fields.put k (.mapping inner)).prune [k] =
      if inner.isEmpty then fields.erase k else fields.put k (.mapping inner) := by
  have hat : (Value.mapping (fields.put k (.mapping inner))).at? (.ofKeys [k]) =
      some (.mapping inner) := at?_put_self fields k (.mapping inner) []
  cases inner with
  | nil =>
      rw [prune_of_empty hat, strip, find?_put, if_pos rfl, erase_put]
      rfl
  | cons f inner => rw [prune_of_ne (by simp [hat]), List.isEmpty_cons, if_neg Bool.false_ne_true]

theorem dropAt_ne_nil {fields left : Fields} {k next : String} {more : List String}
    (h : fields.dropAt (k :: next :: more) = some left) : left ≠ [] := by
  rw [dropAt] at h
  split at h
  next inner _ =>
    obtain ⟨below, -, rfl⟩ := Option.map_eq_some_iff.mp h
    exact put_ne_nil fields k _
  next => cases h

theorem prune_nil (fields : Fields) : fields.prune [] = fields := by
  rw [prune]
  split <;> rfl

/-- Taking a field out and then the mappings around it, as far as they are empty now. -/
theorem strip_append (fields : Fields) (path : List String) (last : String) :
    fields.strip (path ++ [last]) =
      (fields.dropAt (path ++ [last])).map fun left => prune left path := by
  induction path generalizing fields with
  | nil =>
      rw [List.nil_append, strip, dropAt, Option.map_map]
      exact Option.map_congr fun _ _ => (prune_nil _).symm
  | cons k path ih =>
      cases path with
      | nil =>
          rw [List.singleton_append, strip, dropAt]
          split
          next inner _ =>
            rw [strip, dropAt, Option.map_map, Option.map_map, Option.map_map]
            exact Option.map_congr fun _ _ => (prune_put_last fields k _).symm
          next => rfl
      | cons next more =>
          rw [List.cons_append, List.cons_append, strip, dropAt]
          split
          next inner _ =>
            rw [← List.cons_append, ih, Option.map_map, Option.map_map]
            refine Option.map_congr fun left hleft => (prune_put fields k next more ?_).symm
            cases more with
            | nil => exact dropAt_ne_nil hleft
            | cons other more => exact dropAt_ne_nil hleft
          next => rfl

/-- Both ways to take out a field leave the same. -/
theorem take?_keys (fields : Fields) (path : List String) :
    ((Value.mapping fields).take? (.ofKeys path)).map Prod.snd =
      (fields.dropAt path).map .mapping := by
  induction path generalizing fields with
  | nil => rfl
  | cons k rest ih =>
      cases rest with
      | nil =>
          rw [dropAt, Option.map_map]
          exact Option.map_map ..
      | cons next more =>
          have hcons := Value.take?_cons_cons (.mapping fields) (.key k) (.key next) (.ofKeys more)
          rw [Value.step?] at hcons
          refine (congrArg (Option.map Prod.snd) hcons).trans ?_
          cases hk : fields.find? k with
          | none => rw [dropAt, hk]; rfl
          | some v =>
              cases v with
              | mapping inner =>
                  have hinner := congrArg (Option.map ((Value.mapping fields).replace (.key k)))
                    (ih inner)
                  rw [Option.map_map, Option.map_map] at hinner
                  rw [dropAt_cons_cons _ _ _ _ hk, Option.bind_some, Option.map_map, Option.map_map]
                  exact hinner
              | null | boolean | number | text | sequence =>
                  rw [dropAt, hk]
                  cases more <;> rfl

end Fields

namespace Document

theorem wellFormed_of_get? {d : Document} {path : FieldPath} {v : Value}
    (h : d.get? path = some v) : v.WellFormed := by
  rw [get?] at h
  split at h
  next => cases h
  next => exact d.wellFormed_value.at? h

theorem dropAt_of_remove? {d e : Document} {path : List String} {v : Value}
    (h : d.remove? (.ofKeys path) = some (v, e)) : d.fields.dropAt path = some e.fields := by
  have hkeys := Fields.take?_keys d.fields path
  rw [show Value.mapping d.fields = d.value from rfl, remove?_eq_some h] at hkeys
  obtain ⟨left, hleft, hvalue⟩ := Option.map_eq_some_iff.mp hkeys.symm
  cases hvalue
  exact hleft

theorem dropAt_of_remove?_eq_none {d : Document} {path : List String}
    (h : d.remove? (.ofKeys path) = none) : d.fields.dropAt path = none := by
  have hkeys := Fields.take?_keys d.fields path
  rw [show Value.mapping d.fields = d.value from rfl, take?_of_remove?_eq_none h] at hkeys
  exact Option.map_eq_none_iff.mp hkeys.symm

end Document

namespace FieldPath

theorem ancestors_append (p : FieldPath) (s : Step) : ancestors (p ++ [s]) = p :: ancestors p := by
  rw [ancestors, List.length_append, List.length_singleton, List.range_succ, List.reverse_append,
    List.reverse_singleton, List.singleton_append, List.map_cons, List.take_left]
  refine congrArg (p :: ·) (List.map_congr_left fun n hn => ?_)
  have hlt : n < p.length := List.mem_range.mp (List.mem_reverse.mp hn)
  exact List.take_append_of_le_length (Nat.le_of_lt hlt)

theorem eq_ofKeys_of_keys? {p : FieldPath} {keys : List String} (h : p.keys? = some keys) :
    p = ofKeys keys := by
  have hkeys := mapM_eq_some.mp h
  clear h
  induction hkeys with
  | nil => rfl
  | @cons s k _ _ hs _ ih =>
      cases s with
      | key l =>
          cases hs
          exact congrArg (Step.key k :: ·) ih
      | index i => cases hs

theorem exists_getLast?_ofKeys (k : String) (rest : List String) :
    ∃ l, (ofKeys (k :: rest)).getLast? = some (.key l) := by
  rw [ofKeys, List.getLast?_map, List.getLast?_cons]
  exact ⟨_, rfl⟩

theorem ofKeys_append (path : List String) (last : String) :
    ofKeys (path ++ [last]) = ofKeys path ++ [.key last] := List.map_append

end FieldPath

namespace Layout

/-- The field is taken out of the mappings around it, and these if they are empty. -/
theorem fields_withoutLineage {layout : Layout} {path : List String}
    (h : layout.sources = FieldPath.ofKeys path) (d : Document) :
    (layout.withoutLineage d).fields = (d.fields.strip path).getD d.fields := by
  induction path using List.reverseRecOn generalizing layout d with
  | nil =>
      rw [withoutLineage, h]
      rfl
  | append_singleton path last ih =>
      rw [withoutLineage, Fields.strip_append]
      split
      next hremove =>
        rw [h] at hremove
        rw [Document.dropAt_of_remove?_eq_none hremove]
        rfl
      next rest hremove =>
        rw [h] at hremove
        rw [Document.dropAt_of_remove? hremove, h, FieldPath.ofKeys_append,
          FieldPath.ancestors_append, pruneEmpty, Option.map_some, Option.getD_some]
        cases path with
        | nil => exact (Fields.prune_nil rest.fields).symm
        | cons k path =>
            -- The enclosing mappings are those around a lineage field at this path.
            let enclosing : Layout := { layout with sources := FieldPath.ofKeys (k :: path) }
            have hwithout : (enclosing.withoutLineage rest).fields =
                (rest.fields.strip (k :: path)).getD rest.fields := ih rfl rest
            split
            next hempty =>
              rw [Fields.prune_of_empty hempty, ← hwithout, withoutLineage]
              cases hinner : rest.remove? (FieldPath.ofKeys (k :: path)) with
              | none =>
                  obtain ⟨l, hlast⟩ := FieldPath.exists_getLast?_ofKeys k path
                  cases hempty.symm.trans (Document.get?_of_remove?_eq_none hlast hinner)
              | some taken => rfl
            next hother => exact (Fields.prune_of_ne fun hempty => hother hempty).symm

end Layout

namespace Fields

/-- Nothing is at the path, and what leads to it are mappings with fields. -/
def Pruned : Fields → List String → Prop
  | _, [] => True
  | fields, [k] => fields.find? k = none
  | fields, k :: next :: more =>
    match fields.find? k with
    | none => True
    | some (.mapping inner) => inner ≠ [] ∧ Pruned inner (next :: more)
    | some _ => False

theorem pruned_of_find?_eq_none {fields : Fields} {k : String} (h : fields.find? k = none)
    (rest : List String) : fields.Pruned (k :: rest) := by
  cases rest with
  | nil => exact h
  | cons next more =>
      rw [Pruned, h]
      trivial

theorem pruned_nil (path : List String) : Pruned [] path := by
  cases path with
  | nil => trivial
  | cons k rest => exact pruned_of_find?_eq_none (find?_nil k) rest

theorem WellFormed.pruned_of_strip {fields left : Fields} (h : fields.WellFormed) {k : String}
    {rest : List String} (hstrip : fields.strip (k :: rest) = some left) :
    left.Pruned (k :: rest) := by
  have herased : (fields.erase k).find? k = none := by
    rw [find?_erase (wellFormed_iff.mp h).1, if_pos rfl]
  induction rest generalizing fields left k with
  | nil =>
      obtain ⟨v, -, rfl⟩ := Option.map_eq_some_iff.mp hstrip
      exact herased
  | cons next more ih =>
      rw [strip] at hstrip
      split at hstrip
      next inner hinner =>
        obtain ⟨below, hbelow, rfl⟩ := Option.map_eq_some_iff.mp hstrip
        by_cases hempty : below.isEmpty = true
        · rw [if_pos hempty]
          exact pruned_of_find?_eq_none herased _
        · have hwell : WellFormed inner := h.find? hinner
          have hpruned :=
            ih hwell hbelow (by rw [find?_erase (wellFormed_iff.mp hwell).1, if_pos rfl])
          rw [if_neg hempty, Pruned, find?_put, if_pos rfl]
          exact ⟨by simpa using hempty, hpruned⟩
      next => cases hstrip

/-- What is set into pruned fields can be taken out again. -/
theorem Pruned.strip_setAt {fields : Fields} {k : String} {rest : List String}
    (h : fields.Pruned (k :: rest)) (v : Value) :
    (fields.setAt v k rest).strip (k :: rest) = some fields := by
  induction rest generalizing fields k with
  | nil =>
      rw [setAt, strip, find?_put, if_pos rfl, erase_put, erase_of_find?_eq_none h]
      rfl
  | cons next more ih =>
      rw [Pruned] at h
      rw [setAt, strip_cons_cons _ _ _ _ (by rw [find?_put, if_pos rfl]), erase_put]
      split at h
      next hnone =>
        rw [hnone, ih (pruned_nil _), erase_of_find?_eq_none hnone]
        rfl
      next inner hinner =>
        obtain ⟨hne, hpruned⟩ := h
        rw [hinner, ih hpruned, Option.map_some, if_neg (by simpa using hne), put_put,
          put_of_find? hinner]
      next => exact h.elim

/-- What is set is there. -/
theorem at?_setAt_self (fields : Fields) (v : Value) (k : String) (rest : List String) :
    (Value.mapping (fields.setAt v k rest)).at? (FieldPath.ofKeys (k :: rest)) = some v := by
  induction rest generalizing fields k with
  | nil => exact at?_put_self fields k v []
  | cons next more ih => exact (at?_put_self fields k _ _).trans (ih _ _)

theorem at?_put_of_ne (fields : Fields) {k : String} {s : Step} (h : s ≠ .key k) (v : Value)
    (path : FieldPath) :
    (Value.mapping (fields.put k v)).at? (s :: path) = (Value.mapping fields).at? (s :: path) :=
  congrArg (Option.bind · _) (Value.step?_replace_of_ne (v := .mapping fields) h v)

/-- Setting a field changes nothing apart from it, as long as only mappings lead to both. -/
theorem at?_setAt_of_apart {fields : Fields} {k : String} {rest : List String} {q : FieldPath}
    (hq : (FieldPath.ofKeys (k :: rest)).Apart q)
    (hmappings : ∀ c w, c <+: FieldPath.ofKeys (k :: rest) → c <+: q →
      (Value.mapping fields).at? c = some w → w.isMapping = true) (v : Value) :
    (Value.mapping (fields.setAt v k rest)).at? q = (Value.mapping fields).at? q := by
  induction rest generalizing fields k q with
  | nil =>
      cases q with
      | nil => exact (hq.2 List.nil_prefix).elim
      | cons s q =>
          have hs : s ≠ .key k := by
            rintro rfl
            exact hq.1 ⟨q, rfl⟩
          exact at?_put_of_ne fields hs v q
  | cons next more ih =>
      cases q with
      | nil => exact (hq.2 List.nil_prefix).elim
      | cons s q =>
          by_cases hs : s = .key k
          · subst hs
            have hq' : (FieldPath.ofKeys (next :: more)).Apart q := hq.tail
            rw [setAt, at?_put_self, at?_key]
            cases hk : fields.find? k with
            | none =>
                refine (ih hq' fun c w _ _ hw => ?_).trans ?_
                · cases c with
                  | nil =>
                      cases hw
                      rfl
                  | cons s c => cases s <;> cases hw
                · cases q with
                  | nil => exact (hq'.2 List.nil_prefix).elim
                  | cons s q => cases s <;> rfl
            | some u =>
                have hbelow : ∀ c w, c <+: FieldPath.ofKeys (next :: more) → c <+: q →
                    u.at? c = some w → w.isMapping = true := by
                  intro c w hc hcq hw
                  refine hmappings (.key k :: c) w ((List.prefix_cons_inj _).mpr hc)
                    ((List.prefix_cons_inj _).mpr hcq) ?_
                  rw [at?_key, hk]
                  exact hw
                cases u with
                | mapping inner => exact ih hq' hbelow
                | null | boolean | number | text | sequence =>
                    cases hbelow [] _ List.nil_prefix List.nil_prefix rfl
          · exact at?_put_of_ne fields hs _ q

/-- Only mappings lead to where pruned fields have nothing. -/
theorem Pruned.isMapping {fields : Fields} {path : List String} (h : fields.Pruned path)
    {c : FieldPath} (hc : c <+: FieldPath.ofKeys path) (hne : path ≠ []) {w : Value}
    (hw : (Value.mapping fields).at? c = some w) : w.isMapping = true := by
  induction path generalizing fields c with
  | nil => exact (hne rfl).elim
  | cons k rest ih =>
      cases c with
      | nil =>
          cases hw
          rfl
      | cons s c =>
          obtain ⟨rfl, hbelow⟩ := List.cons_prefix_cons.mp hc
          rw [at?_key] at hw
          obtain ⟨u, hu, hw⟩ := Option.bind_eq_some_iff.mp hw
          cases rest with
          | nil => cases h.symm.trans hu
          | cons next more =>
              rw [Pruned, hu] at h
              cases u with
              | mapping inner => exact ih h.2 hbelow (List.cons_ne_nil _ _) hw
              | null | boolean | number | text | sequence => exact h.elim

end Fields

namespace Layout

variable {layout : Layout} {d e : Document} {id : Option Identity}

theorem identity_congr (h : e.get? layout.id = d.get? layout.id) :
    layout.identity e = layout.identity d := by
  rw [identity, identity, h]

/-- A valid identity has no fields, so none that leads to the lineage. -/
theorem not_id_prefix_sources (hid : layout.identity d = .ok id) (hne : layout.id ≠ [])
    (hbeyond : ¬ layout.sources <+: layout.id) {v : Value} (hv : d.get? layout.sources = some v) :
    ¬ layout.id <+: layout.sources := by
  rintro ⟨rest, hrest⟩
  have hsources : layout.sources ≠ [] := fun hnil =>
    hne (List.append_eq_nil_iff.mp (hrest.trans hnil)).1
  rw [Document.get?_of_ne_nil hsources, ← hrest, Value.at?_append] at hv
  obtain ⟨w, hw, hv⟩ := Option.bind_eq_some_iff.mp hv
  rw [identity, Document.get?_of_ne_nil hne, hw] at hid
  cases rest with
  | nil =>
      rw [List.append_nil] at hrest
      exact hbeyond (hrest ▸ List.prefix_rfl)
  | cons s rest =>
      obtain ⟨u, hu, -⟩ := Option.bind_eq_some_iff.mp hv
      cases w <;> cases s <;> simp only [Value.step?, reduceCtorEq] at hu
      case sequence.index => cases hid
      case mapping.key => cases hid

/-- The identity does not change with the lineage, if it stands apart from it. -/
theorem identity_eq_of_apart (hid : layout.identity d = .ok id)
    (hbeyond : ¬ layout.sources <+: layout.id) {v : Value} (hv : d.get? layout.sources = some v)
    (hsame : layout.sources.Apart layout.id → e.get? layout.id = d.get? layout.id) :
    layout.identity e = .ok id := by
  by_cases hnil : layout.id = []
  · rw [← hid, identity, identity, hnil]
    rfl
  · rw [identity_congr (hsame ⟨hbeyond, not_id_prefix_sources hid hnil hbeyond hv⟩), hid]

/-- Taking the lineage out leaves the identity. -/
theorem identity_withoutLineage (hid : layout.identity d = .ok id)
    (hbeyond : ¬ layout.sources <+: layout.id) :
    layout.identity (layout.withoutLineage d) = .ok id := by
  cases hv : d.get? layout.sources with
  | none => rwa [withoutLineage_of_get?_eq_none hv]
  | some v => exact identity_eq_of_apart hid hbeyond hv fun h => get?_withoutLineage_of_apart h d

theorem lineage_of_get?_eq_none (h : d.get? layout.sources = none) : layout.lineage d = .ok [] := by
  rw [lineage, h]

theorem exists_get?_of_lineage {entries : List (String × Document)}
    (h : layout.lineage d = .ok entries) (hne : entries ≠ []) :
    ∃ v, d.get? layout.sources = some v := by
  cases hv : d.get? layout.sources with
  | none =>
      cases h.symm.trans (lineage_of_get?_eq_none hv)
      exact (hne rfl).elim
  | some v => exact ⟨v, rfl⟩

/-- Classifiers are the keys of a mapping. -/
theorem nodup_classifiers {entries : List (String × Document)} (h : layout.lineage d = .ok entries) :
    (entries.map Prod.fst).Nodup := by
  rw [lineage] at h
  split at h
  next =>
    cases h
    exact .nil
  next =>
    cases h
    exact .nil
  next fields hfields =>
    have hkeys : Fields.keys fields = entries.map Prod.fst := by
      have hread := mapM_eq_ok.mp h
      clear h hfields
      induction hread with
      | nil => rfl
      | @cons f s _ _ hs _ ih =>
          rw [lineageEntry] at hs
          split at hs
          next =>
            cases hs
            exact congrArg (f.1 :: ·) ih
          next => cases hs
    rw [← hkeys]
    exact (Document.wellFormed_of_get? hfields).keys_nodup
  next => cases h

/-- Documents under distinct classifiers are the fields of a mapping. -/
theorem wellFormed_values {entries : List (String × Document)}
    (h : (entries.map Prod.fst).Nodup) :
    Fields.WellFormed (entries.map fun s => (s.1, s.2.value)) := by
  refine Fields.wellFormed_iff.mpr ⟨?_, ?_⟩
  · rwa [Fields.keys, List.map_map]
  · intro f hf
    obtain ⟨s, -, rfl⟩ := List.mem_map.mp hf
    exact s.2.wellFormed_value

section Keys

variable {k : String} {rest : List String} (hkeys : layout.sources.keys? = some (k :: rest))
include hkeys

theorem exists_withLineage (d : Document) {fields : Fields} (h : fields.WellFormed) :
    ∃ e, layout.withLineage d fields = .ok e ∧
      e.fields = d.fields.setAt (.mapping fields) k rest := by
  refine ⟨⟨d.fields.setAt (.mapping fields) k rest, d.wellFormed.setAt h k rest⟩, ?_, rfl⟩
  rw [withLineage, Document.set?, hkeys]
  simp only [Value.normalize_of_wellFormed _ h]

theorem sources_ne_nil : layout.sources ≠ [] := by
  rw [FieldPath.eq_ofKeys_of_keys? hkeys]
  exact List.cons_ne_nil _ _

theorem get?_sources_withoutLineage_of_keys (d : Document) :
    (layout.withoutLineage d).get? layout.sources = none := by
  obtain ⟨l, hlast⟩ := FieldPath.exists_getLast?_ofKeys k rest
  rw [← FieldPath.eq_ofKeys_of_keys? hkeys] at hlast
  exact get?_sources_withoutLineage hlast d

theorem get?_sources (d : Document) :
    d.get? layout.sources = (Value.mapping d.fields).at? (FieldPath.ofKeys (k :: rest)) := by
  rw [Document.get?_of_ne_nil (sources_ne_nil hkeys), FieldPath.eq_ofKeys_of_keys? hkeys]
  rfl

/-- What a document with a lineage field keeps without it. -/
theorem pruned_withoutLineage {v : Value} (hv : d.get? layout.sources = some v) :
    (layout.withoutLineage d).fields.Pruned (k :: rest) := by
  rw [get?_sources hkeys] at hv
  obtain ⟨left, hleft⟩ := Fields.exists_strip hv
  rw [fields_withoutLineage (FieldPath.eq_ofKeys_of_keys? hkeys), hleft]
  exact d.wellFormed.pruned_of_strip hleft

/-- A document that had a lineage is as it was without it when it has lost another one. -/
theorem withoutLineage_withLineage {v : Value} (hv : d.get? layout.sources = some v)
    {fields : Fields} (h : fields.WellFormed)
    (he : layout.withLineage (layout.withoutLineage d) fields = .ok e) :
    layout.withoutLineage e = layout.withoutLineage d := by
  obtain ⟨_, he', hfields⟩ := exists_withLineage hkeys (layout.withoutLineage d) h
  cases he.symm.trans he'
  refine Document.ext_fields ?_
  rw [fields_withoutLineage (FieldPath.eq_ofKeys_of_keys? hkeys) e, hfields,
    (pruned_withoutLineage hkeys hv).strip_setAt]
  rfl

theorem get?_withLineage {fields : Fields} (h : fields.WellFormed)
    (he : layout.withLineage d fields = .ok e) : e.get? layout.sources = some (.mapping fields) := by
  obtain ⟨_, he', hfields⟩ := exists_withLineage hkeys d h
  cases he.symm.trans he'
  rw [get?_sources hkeys, hfields, Fields.at?_setAt_self]

/-- Embedding a lineage leaves the identity. -/
theorem identity_withLineage (hid : layout.identity d = .ok id)
    (hbeyond : ¬ layout.sources <+: layout.id) {v : Value} (hv : d.get? layout.sources = some v)
    {fields : Fields} (h : fields.WellFormed)
    (he : layout.withLineage (layout.withoutLineage d) fields = .ok e) :
    layout.identity e = .ok id := by
  refine identity_eq_of_apart hid hbeyond hv fun hapart => ?_
  obtain ⟨_, he', hfields⟩ := exists_withLineage hkeys (layout.withoutLineage d) h
  cases he.symm.trans he'
  rw [← get?_withoutLineage_of_apart hapart d]
  rw [Document.get?, Document.get?]
  split
  next => rfl
  next =>
    have hpruned := pruned_withoutLineage hkeys hv
    rw [FieldPath.eq_ofKeys_of_keys? hkeys] at hapart
    rw [Document.value, hfields]
    exact Fields.at?_setAt_of_apart hapart
      (fun c w hc _ hw => hpruned.isMapping hc (List.cons_ne_nil _ _) hw) _

/-- The lineage of a document is the one that was embedded. -/
theorem lineage_withLineage {entries : List (String × Document)}
    (hnodup : (entries.map Prod.fst).Nodup)
    (he : layout.withLineage d (entries.map fun s => (s.1, s.2.value)) = .ok e) :
    layout.lineage e = .ok entries := by
  have hwell := wellFormed_values hnodup
  rw [lineage, get?_withLineage hkeys hwell he]
  refine mapM_eq_ok.mpr (List.forall₂_map_left_iff.mpr (List.forall₂_same.mpr fun s _ => ?_))
  exact congrArg (fun d => Except.ok (s.1, d)) (Document.ofFields_of_wellFormed s.2.wellFormed)

end Keys

end Layout

end DatasetCatalog
