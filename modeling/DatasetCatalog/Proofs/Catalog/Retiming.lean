import DatasetCatalog.Batch.Cascade
import DatasetCatalog.Proofs.Catalog.Operation
import DatasetCatalog.Proofs.OrderedMap

/-!
# Changing nothing but times

When a dataset was archived and when it was indexed is looked at by few operations. A `Retiming`
puts other times in the place of those that are recorded. Looking datasets up commutes with it, and
so does following what is derived from them: the same datasets are found, with the times that they
have now. Archiving and restoring are retimings, and so is leaving the times of indexing out.
-/

namespace DatasetCatalog

/-- What becomes of the time at which a dataset was archived, and of the one at which it was
indexed. -/
structure Retiming where
  archived : Identity → Option Timestamp → Option Timestamp
  indexed : Option Timestamp → Option Timestamp

def StoredDataset.retimed (r : Retiming) (d : StoredDataset) : StoredDataset :=
  { d with archived := r.archived d.id d.archived, indexed := r.indexed d.indexed }

def Entry.retimed (r : Retiming) (e : Entry) : Entry :=
  { e with archived := r.archived e.id e.archived, indexed := r.indexed e.indexed }

@[simp] theorem Entry.retimed_id (r : Retiming) (e : Entry) : (e.retimed r).id = e.id := rfl

namespace Catalog

def retimed (r : Retiming) (c : Catalog) : Catalog :=
  { c with
    datasets := c.datasets.mapValues (StoredDataset.retimed r)
    keyed := by
      intro id d h
      rw [OrderedMap.find?_mapValues] at h
      obtain ⟨e, he, rfl⟩ := Option.map_eq_some_iff.mp h
      exact c.keyed id e he }

variable {r : Retiming} {c : Catalog} {id : Identity}

@[simp] theorem derived_retimed : (c.retimed r).derived = c.derived := rfl

@[simp] theorem size_retimed : (c.retimed r).size = c.size := List.length_map _

theorem find?_retimed (id : Identity) : (c.retimed r).datasets.find? id =
    (c.datasets.find? id).map (StoredDataset.retimed r) := OrderedMap.find?_mapValues ..

@[simp] theorem contains_retimed : (c.retimed r).datasets.contains id = c.datasets.contains id :=
  OrderedMap.contains_mapValues ..

@[simp] theorem product?_retimed (name : String) : (c.retimed r).product? name = c.product? name :=
  rfl

/-! ## Look-ups -/

theorem entry_retimed (d : StoredDataset) :
    (c.retimed r).entry (d.retimed r) = (c.entry d).map (Entry.retimed r) := by
  have hproduct : (d.retimed r).product = d.product := rfl
  rw [entry, entry, product?_retimed, hproduct]
  cases c.product? d.product <;> rfl

theorem mapM_entry_retimed (wanted : List Identity) :
    (wanted.filterMap (c.retimed r).datasets.find?).mapM (c.retimed r).entry =
      ((wanted.filterMap c.datasets.find?).mapM c.entry).map (List.map (Entry.retimed r)) := by
  have hfind : (c.retimed r).datasets.find? =
      fun id => (c.datasets.find? id).map (StoredDataset.retimed r) := funext find?_retimed
  rw [hfind, ← List.map_filterMap, mapM_map_ok entry_retimed]

theorem get?_retimed :
    (c.retimed r).get? id = (c.get? id).map (Option.map (Entry.retimed r)) := by
  rw [get?, get?, find?_retimed]
  cases c.datasets.find? id with
  | none => rfl
  | some d =>
      simp only [Option.map_some, entry_retimed]
      cases c.entry d <;> rfl

theorem get_retimed : (c.retimed r).get id = (c.get id).map (Entry.retimed r) := by
  rw [get, get, get?_retimed]
  cases c.get? id with
  | error _ => rfl
  | ok found => cases found <;> rfl

theorem bulkGet_retimed (ids : List Identity) : (c.retimed r).bulkGet ids =
    (c.bulkGet ids).map (OrderedMap.mapValues (Entry.retimed r)) := by
  rw [bulkGet, bulkGet, mapM_entry_retimed]
  cases (ids.filterMap c.datasets.find?).mapM c.entry with
  | error _ => rfl
  | ok entries =>
      refine congrArg Except.ok ?_
      rw [OrderedMap.mapValues_ofList, List.map_map, List.map_map]
      rfl

theorem getDerived_retimed : (c.retimed r).getDerived id =
    (c.getDerived id).map (List.map (Entry.retimed r)) := by
  rw [getDerived, getDerived, derived_retimed]
  cases c.derived.find? id with
  | none => rfl
  | some wanted => exact mapM_entry_retimed wanted.keys

/-! ## Derived sets -/

theorem nextLevel_retimed (r : Retiming) (found level next : List Entry) :
    (c.retimed r).nextLevel (found.map (Entry.retimed r)) (level.map (Entry.retimed r))
        (next.map (Entry.retimed r)) =
      (c.nextLevel found level next).map (List.map (Entry.retimed r)) := by
  induction level generalizing next with
  | nil => rfl
  | cons e level ih =>
      rw [List.map_cons, nextLevel, nextLevel, Entry.retimed_id, getDerived_retimed]
      cases c.getDerived e.id with
      | error _ => rfl
      | ok derived =>
          -- Whether a dataset is new is a matter of identities, which stay.
          have hnew : (derived.map (Entry.retimed r)).filter (fun d =>
              !(found.map (Entry.retimed r) ++ next.map (Entry.retimed r)).any
                fun f => f.id == d.id) =
              (derived.filter fun d => !(found ++ next).any fun f => f.id == d.id).map
                (Entry.retimed r) := by
            rw [List.filter_map]
            refine congrArg (List.map _) (List.filter_congr fun d _ => ?_)
            simp [List.any_map, Function.comp_def]
          have hstep :=
            ih (next ++ derived.filter fun d => !(found ++ next).any fun f => f.id == d.id)
          rw [List.map_append, ← hnew] at hstep
          exact hstep

theorem derivedLevels_retimed (levels : Nat) (found level : List Entry) :
    (c.retimed r).derivedLevels levels (found.map (Entry.retimed r))
        (level.map (Entry.retimed r)) =
      (c.derivedLevels levels found level).map (List.map (Entry.retimed r)) := by
  induction levels generalizing found level with
  | zero => rfl
  | succ levels ih =>
      have hnext := nextLevel_retimed (c := c) r found level []
      rw [List.map_nil] at hnext
      rw [derivedLevels, derivedLevels, hnext]
      cases c.nextLevel found level [] with
      | error _ => rfl
      | ok next =>
          cases next with
          | nil => rfl
          | cons e next =>
              refine Eq.trans ?_ (ih (found ++ e :: next) (e :: next))
              rw [List.map_append]
              rfl

/-- What is derived from a dataset does not depend on any times. -/
theorem derivedSet_retimed : (c.retimed r).derivedSet id =
    (c.derivedSet id).map (List.map (Entry.retimed r)) := by
  rw [derivedSet, derivedSet, get_retimed, size_retimed]
  cases c.get id with
  | error _ => rfl
  | ok target => exact derivedLevels_retimed c.size [target] [target]

/-! ## Changing records one after the other -/

section Adjusting

variable {f : StoredDataset → StoredDataset} {hf : ∀ d, (f d).id = d.id} {ids : List Identity}

/-- When a second change to a record does nothing more, it does not matter how often its identity is
listed. -/
theorem find?_foldl_adjust (hagain : ∀ d, f (f d) = f d) (ids : List Identity) (id : Identity) :
    (ids.foldl (fun c id => c.adjust id f hf) c).datasets.find? id =
      (c.datasets.find? id).map fun d => if d.id ∈ ids then f d else d := by
  induction ids generalizing c with
  | nil => simp
  | cons first ids ih =>
      rw [List.foldl_cons, ih, datasets_adjust, OrderedMap.find?_adjust]
      cases hd : c.datasets.find? id with
      | none => simp
      | some d =>
          have hkey := c.keyed id d hd
          split
          next hsame =>
            cases Std.LawfulEqOrd.eq_of_compare hsame
            by_cases hid : id ∈ ids <;> simp [hf, hkey, hid, hagain]
          next hother =>
            have hne : d.id ≠ first := by
              rintro rfl
              exact hother (hkey ▸ Std.ReflOrd.compare_self)
            simp [hne]

theorem foldl_adjust_eq_retimed (hagain : ∀ d, f (f d) = f d)
    (h : ∀ d, (if d.id ∈ ids then f d else d) = d.retimed r) :
    ids.foldl (fun c id => c.adjust id f hf) c = c.retimed r := by
  have hrest : ∀ c : Catalog, (ids.foldl (fun c id => c.adjust id f hf) c).products = c.products ∧
      (ids.foldl (fun c id => c.adjust id f hf) c).derived = c.derived := by
    clear h
    induction ids with
    | nil => exact fun _ => ⟨rfl, rfl⟩
    | cons first ids ih => exact fun c => ih (c.adjust first f hf)
  refine ext_parts (hrest c).1 (OrderedMap.ext_find? fun id => ?_) (hrest c).2
  rw [find?_foldl_adjust hagain, find?_retimed, funext h]

end Adjusting

theorem adjustAll_of_contains {f : StoredDataset → StoredDataset} {hf : ∀ d, (f d).id = d.id}
    {ids : List Identity} (h : ∀ id ∈ ids, c.datasets.contains id = true) :
    c.adjustAll ids f hf = .ok (ids.foldl (fun c id => c.adjust id f hf) c) := by
  rw [adjustAll, firstUnknown?]
  split
  next id hid =>
    have hunknown := List.find?_some hid
    rw [h id (List.mem_of_find?_eq_some hid)] at hunknown
    cases hunknown
  next => rfl

end Catalog

/-- Those of these datasets that are not archived are archived now. -/
def Retiming.archiving (ids : List Identity) (now : Timestamp) : Retiming where
  archived id t := if id ∈ ids then some (t.getD now) else t
  indexed t := t

/-- None of these datasets is archived. -/
def Retiming.clearing (ids : List Identity) : Retiming where
  archived id t := if id ∈ ids then none else t
  indexed t := t

/-- It is left out when datasets were indexed. -/
def Retiming.undating : Retiming where
  archived _ t := t
  indexed _ := none

/-- The catalog without times of indexing. -/
def Catalog.undated (c : Catalog) : Catalog := c.retimed .undating

theorem Catalog.archive_eq_retimed {c : Catalog} {ids : List Identity} (now : Timestamp)
    (h : ∀ id ∈ ids, c.datasets.contains id = true) :
    c.archive ids now = .ok (c.retimed (.archiving ids now)) := by
  rw [archive, adjustAll_of_contains h]
  refine congrArg Except.ok (foldl_adjust_eq_retimed (fun _ => rfl) fun d => ?_)
  simp only [StoredDataset.retimed, Retiming.archiving]
  split <;> rfl

end DatasetCatalog
