import DatasetCatalog.Proofs.Document.Patch
import DatasetCatalog.Proofs.Document.Removal
import DatasetCatalog.Proofs.Json.Value
import DatasetCatalog.Proofs.Value.Correspondence

/-!
# Exchanged and edited documents

Ordered differences are determined by which ones they are, whatever order two comparisons met them
in, and which ones there are is told step by step. So exchanging two values exchanges the sides of
their differences (`Value.changes_swap`), and putting another value behind one step leaves only the
differences of what was and is there (`Value.changes_replace`), from which the same follows for any
path.
-/

namespace DatasetCatalog

namespace Difference

variable {ds : List Difference}

/-- The difference as seen from where the path `p` starts. -/
def within (p : FieldPath) (d : Difference) : Difference := { d with path := p ++ d.path }

@[simp] theorem swap_swap (d : Difference) : d.swap.swap = d := rfl

theorem under_swap (s : Step) (d : Difference) : d.swap.under s = (d.under s).swap := rfl

theorem Ordered.map_swap (h : Ordered ds) : Ordered (ds.map swap) := List.pairwise_map.mpr h

theorem Ordered.map_under (h : Ordered ds) (s : Step) : Ordered (ds.map (.under s)) := by
  rw [Ordered, List.pairwise_map]
  refine h.imp fun {d e} hde => ⟨?_, hde.2.cons s⟩
  rw [under_path, under_path, FieldPath.compare_cons]
  exact hde.1

end Difference

namespace Value

variable {l r u v w : Value} {s : Step} {p : FieldPath} {d : Difference}

/-! ## Exchanging two values -/

theorem swap_mem_differences (hl : l.WellFormed) (hr : r.WellFormed) (hd : d ∈ differences l r) :
    d.swap ∈ differences r l := by
  induction hn : l.size using Nat.strongRecOn generalizing l r d with
  | ind n ih =>
      by_cases hsame : l.sameValue .sensitive r = true
      · rw [differences_of_sameValue hsame] at hd
        cases hd
      -- What two containers of one kind differ in is behind one of their steps.
      by_cases hc : SameContainer l r
      · obtain ⟨s, hs⟩ := (mem_differences hl hr hc).mp hd
        refine (mem_differences hr hl hc.symm).mpr ⟨s, ?_⟩
        cases hv : l.step? s <;> cases hw : r.step? s <;> rw [hv, hw] at hs
        case none.none => cases hs
        case some.some v w =>
          obtain ⟨e, he, rfl⟩ := List.mem_map.mp hs
          rw [← Difference.under_swap]
          exact List.mem_map_of_mem
            (ih v.size (hn ▸ size_lt_of_step? hv) (hl.step? hv) (hr.step? hw) he rfl)
        all_goals
          cases List.mem_singleton.mp hs
          exact List.mem_singleton_self _
      · rw [differences_of_not_sameContainer (Bool.not_eq_true _ ▸ hsame) hc] at hd
        cases List.mem_singleton.mp hd
        have hdiffer : r.sameValue .sensitive l = false :=
          Bool.eq_false_iff.mpr fun h => hsame (sameValue_symm hr hl h)
        rw [differences_of_not_sameContainer hdiffer fun h => hc h.symm]
        exact List.mem_singleton_self _

theorem changes_swap (hl : l.WellFormed) (hr : r.WellFormed) :
    r.changes l = (l.changes r).map .swap := by
  refine (ordered_changes hr hl).ext (ordered_changes hl hr).map_swap fun d => ?_
  rw [mem_valueChanges, List.mem_map]
  constructor
  · intro hd
    exact ⟨d.swap, mem_valueChanges.mpr (swap_mem_differences hr hl hd), d.swap_swap⟩
  · rintro ⟨e, he, rfl⟩
    exact swap_mem_differences hl hr (mem_valueChanges.mp he)

/-! ## Replacing what is at a path -/

/-- The value with another one in place of what is at a path; as it was if there is nothing. -/
def replaceAt (v : Value) (path : FieldPath) (w : Value) : Value :=
  match path with
  | [] => w
  | s :: rest =>
    match v.step? s with
    | some inner => v.replace s (inner.replaceAt rest w)
    | none => v

/-- Neither a sequence nor a mapping. -/
def isScalar : Value → Bool
  | .sequence _ | .mapping _ => false
  | _ => true

theorem replaceAt_cons (h : v.step? s = some u) (rest : FieldPath) (w : Value) :
    v.replaceAt (s :: rest) w = v.replace s (u.replaceAt rest w) := by
  rw [replaceAt, h]

theorem WellFormed.replaceAt (hv : v.WellFormed) (hw : w.WellFormed) (p : FieldPath) :
    (v.replaceAt p w).WellFormed := by
  induction p generalizing v with
  | nil => exact hw
  | cons s rest ih =>
      rw [Value.replaceAt]
      split
      next inner hinner => exact hv.replace (ih (hv.step? hinner)) s
      next => exact hv

/-- Below a mapping something is replaced in the mapping. -/
theorem exists_replaceAt_mapping (fields : Fields) (s : Step) (rest : FieldPath) (w : Value) :
    ∃ fields', (mapping fields).replaceAt (s :: rest) w = mapping fields' := by
  rw [replaceAt]
  split
  next => cases s <;> exact ⟨_, rfl⟩
  next => exact ⟨fields, rfl⟩

theorem sameContainer_replace (h : v.step? s = some u) (w : Value) :
    SameContainer v (v.replace s w) := by
  cases v <;> cases s <;> trivial

/-- Behind every other step the two values agree. -/
theorem changes_replace (hv : v.WellFormed) (hw : w.WellFormed) (hu : v.step? s = some u) :
    v.changes (v.replace s w) = (u.changes w).map (.under s) := by
  have hr := hv.replace hw s
  refine (ordered_changes hv hr).ext ((ordered_changes (hv.step? hu) hw).map_under s) fun d => ?_
  rw [mem_valueChanges, mem_differences hv hr (sameContainer_replace hu w)]
  constructor
  · rintro ⟨t, ht⟩
    by_cases hts : t = s
    · subst hts
      rw [hu, step?_replace hu] at ht
      obtain ⟨e, he, rfl⟩ := List.mem_map.mp ht
      exact List.mem_map_of_mem (mem_valueChanges.mpr he)
    · rw [step?_replace_of_ne hts, beneath_of_agree (agree_step? hv hv (sameValue_refl hv) t)] at ht
      cases ht
  · intro hd
    obtain ⟨e, he, rfl⟩ := List.mem_map.mp hd
    refine ⟨s, ?_⟩
    rw [hu, step?_replace hu]
    exact List.mem_map_of_mem (mem_valueChanges.mp he)

theorem changes_replaceAt (hv : v.WellFormed) (hw : w.WellFormed) (hu : v.at? p = some u) :
    v.changes (v.replaceAt p w) = (u.changes w).map (.within p) := by
  induction p generalizing v with
  | nil =>
      cases hu
      exact (List.map_id (u.changes w)).symm
  | cons s rest ih =>
      rw [at?_cons] at hu
      obtain ⟨inner, hinner, hu⟩ := Option.bind_eq_some_iff.mp hu
      have hparts := hv.step? hinner
      rw [replaceAt_cons hinner, changes_replace hv (hparts.replaceAt hw rest) hinner,
        ih hparts hu, List.map_map]
      rfl

theorem SameContainer.isScalar (h : SameContainer v w) : v.isScalar = false := by
  cases v <;> cases w <;> first | rfl | exact h.elim

theorem changes_of_isScalar (hscalar : v.isScalar = true) (h : v.sameValue .sensitive w = false) :
    v.changes w = [⟨[], some v, some w⟩] := by
  have hc : ¬ SameContainer v w := fun hc => Bool.eq_false_iff.mp hc.isScalar hscalar
  rw [changes, differences_of_not_sameContainer h hc]
  rfl

end Value

namespace Document

/-- The differences of two documents in the other direction are the same ones, in the same order,
with their sides exchanged. -/
theorem exchanged_changes (left right : Document) :
    right.changes left = (left.changes right).map .swap := by
  rw [changes_eq, changes_eq]
  exact Value.changes_swap left.wellFormed_value right.wellFormed_value

/-- The document with another value in place of what is at a path. -/
def replaceAt (d : Document) (path : FieldPath) (w : Value) : Document :=
  match h : d.value.replaceAt path w.normalize with
  | .mapping fields =>
    ⟨fields, show (Value.mapping fields).WellFormed from
      h ▸ d.wellFormed_value.replaceAt (Value.wellFormed_normalize w) path⟩
  | _ => d

theorem value_replaceAt (d : Document) {p : FieldPath} {w : Value} (hp : p ≠ [])
    (hw : w.WellFormed) : (d.replaceAt p w).value = d.value.replaceAt p w := by
  obtain ⟨s, rest, rfl⟩ := List.exists_cons_of_ne_nil hp
  obtain ⟨fields, hfields⟩ := Value.exists_replaceAt_mapping d.fields s rest w
  rw [replaceAt]
  split
  next h =>
    rw [Value.normalize_of_wellFormed w hw] at h
    exact h.symm
  next hother =>
    rw [Value.normalize_of_wellFormed w hw] at hother
    exact (hother fields hfields).elim

/-- Putting a value without repeated keys in place of the one at a path gives the differences of the
two values, as seen from the root, and no others; where a scalar is replaced by anything else, this
is one difference, at the path. -/
theorem edited_changes (d : Document) {p : FieldPath} {v w : Value} (hv : d.get? p = some v)
    (hw : w.WellFormed) :
    d.changes (d.replaceAt p w) = (v.changes w).map (.within p) ∧
      (v.isScalar = true → v.sameValue .sensitive w = false →
        d.changes (d.replaceAt p w) = [⟨p, some v, some w⟩]) := by
  have hp : p ≠ [] := by
    rintro rfl
    cases hv
  have hedited : d.changes (d.replaceAt p w) = (v.changes w).map (.within p) := by
    rw [get?_of_ne_nil hp] at hv
    rw [changes_eq, value_replaceAt d hp hw, Value.changes_replaceAt d.wellFormed_value hw hv]
  refine ⟨hedited, fun hscalar hdiffer => ?_⟩
  rw [hedited, Value.changes_of_isScalar hscalar hdiffer, List.map_singleton, Difference.within,
    List.append_nil]

section Mosaic

def greenBand : Value := .mapping [("name", .text "green"), ("gain", .null)]

def blueBand : Value := .mapping [("name", .text "blue"), ("unit", .text "dB")]

def mosaic : Document := .ofFields
  [("title", .text "mosaic"), ("bands", .sequence [.text "red", greenBand])]

/-- Another band differs from the one that it replaces in three fields, another name in itself. -/
theorem mosaic_edited_changes :
    mosaic.get? [.key "bands", .index 1] = some greenBand ∧ blueBand.WellFormed ∧
      mosaic.changes (mosaic.replaceAt [.key "bands", .index 1] blueBand) =
        [⟨[.key "bands", .index 1, .key "gain"], some .null, none⟩,
          ⟨[.key "bands", .index 1, .key "name"], some (.text "green"), some (.text "blue")⟩,
          ⟨[.key "bands", .index 1, .key "unit"], none, some (.text "dB")⟩] ∧
      mosaic.get? [.key "bands", .index 1, .key "name"] = some (.text "green") ∧
      mosaic.changes (mosaic.replaceAt [.key "bands", .index 1, .key "name"] blueBand) =
        [⟨[.key "bands", .index 1, .key "name"], some (.text "green"), some blueBand⟩] := by
  have hband : mosaic.get? [.key "bands", .index 1] = some greenBand := rfl
  have hname : mosaic.get? [.key "bands", .index 1, .key "name"] = some (.text "green") := rfl
  have hblue : blueBand.WellFormed := by simp [blueBand, Value.WellFormed, Value.FieldsWellFormed]
  obtain ⟨hreplaced, -⟩ := mosaic.edited_changes hband hblue
  obtain ⟨-, hscalar⟩ := mosaic.edited_changes hname hblue
  exact ⟨hband, hblue, hreplaced.trans rfl, hname, hscalar rfl rfl⟩

end Mosaic

end Document

end DatasetCatalog
