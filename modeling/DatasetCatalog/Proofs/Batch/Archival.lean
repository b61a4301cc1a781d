import DatasetCatalog.Proofs.Batch.Selection
import Mathlib.Data.List.Induction

/-!
# What a batch archives

What a dataset selects does not depend on times, and archiving sets nothing but times, and only
where there are none. So every item of a batch selects what it would have selected at the start, and
a dataset that several of them select is archived by the first (`archivedAt?`). `ArchivedUpTo` says
where a batch has got to; a dry run gets to the same selections and the same counts.
-/

namespace DatasetCatalog

/-- Datasets that are not archived are archived at these times. -/
def Retiming.dating (times : Identity → Option Timestamp) : Retiming where
  archived id t := t.or (times id)
  indexed t := t

theorem Retiming.archiving_eq_dating (ids : List Identity) (now : Timestamp) :
    archiving ids now = dating fun id => if id ∈ ids then some now else none := by
  rw [archiving, dating]
  congr
  funext id t
  cases t <;> split <;> rfl

namespace Catalog

/-- The dataset is recorded with a time of archiving. -/
def Archived (c : Catalog) (x : Identity) : Prop :=
  ∃ d, c.datasets.find? x = some d ∧ d.archived.isSome = true

variable {c : Catalog} {r : Retiming} {id x : Identity} {derived : Bool}

/-! ## Setting times -/

theorem retimed_dating_none : c.retimed (.dating fun _ => none) = c := by
  refine ext_parts rfl (OrderedMap.ext_find? fun id => ?_) rfl
  rw [find?_retimed]
  cases c.datasets.find? id with
  | none => rfl
  | some d => simp [StoredDataset.retimed, Retiming.dating]

/-- Times that are set stay when others are set later. -/
theorem retimed_dating (times later : Identity → Option Timestamp) :
    (c.retimed (.dating times)).retimed (.dating later) =
      c.retimed (.dating fun id => (times id).or (later id)) := by
  refine ext_parts rfl (OrderedMap.ext_find? fun id => ?_) rfl
  rw [find?_retimed, find?_retimed, find?_retimed, Option.map_map]
  refine congrArg (Option.map · _) (funext fun d => ?_)
  simp [StoredDataset.retimed, Retiming.dating, Option.or_assoc]

theorem archived_retimed_dating {times : Identity → Option Timestamp} :
    (c.retimed (.dating times)).Archived x ↔
      c.Archived x ∨ c.datasets.contains x = true ∧ (times x).isSome = true := by
  rw [Archived, Archived, find?_retimed, OrderedMap.contains]
  cases hd : c.datasets.find? x with
  | none => simp
  | some d =>
      have hkey := c.keyed x d hd
      simp [StoredDataset.retimed, Retiming.dating, Option.isSome_or, hkey]

/-! ## Selections -/

theorem archiveSelection_retimed : (c.retimed r).archiveSelection id derived =
    (c.archiveSelection id derived).map (List.map (Entry.retimed r)) := by
  rw [archiveSelection, archiveSelection]
  split
  next => exact derivedSet_retimed
  next =>
    rw [get_retimed]
    cases c.get id <;> rfl

theorem archiveSelection_of_unknown (h : c.datasets.contains id = false) (derived : Bool) :
    c.archiveSelection id derived = .error (.notFound id) := by
  rw [archiveSelection, derivedSet, get_of_unknown h]
  split <;> rfl

/-- What is archived along with `id`. -/
def archiveIds (c : Catalog) (derived : Bool) (id : Identity) : List Identity :=
  ((c.archiveSelection id derived).toOption.getD []).map Entry.id

/-- When a batch archives a dataset that is not archived: at the time of the first item that selects
it. -/
def archivedAt? (c : Catalog) (derived : Bool) (clock : Nat → Timestamp) (ids : List Identity)
    (x : Identity) : Option Timestamp :=
  ids.zipIdx.findSome? fun n => if x ∈ c.archiveIds derived n.1 then some (clock n.2) else none

theorem mem_archiveIds : x ∈ c.archiveIds derived id ↔
    ∃ es, c.archiveSelection id derived = .ok es ∧ x ∈ es.map Entry.id := by
  rw [archiveIds]
  cases c.archiveSelection id derived with
  | error e => simp [Except.toOption]
  | ok es => simp [Except.toOption]

theorem contains_of_mem_archiveIds (h : x ∈ c.archiveIds derived id) :
    c.datasets.contains x = true := by
  obtain ⟨es, hes, hx⟩ := mem_archiveIds.mp h
  obtain ⟨e, he, rfl⟩ := List.mem_map.mp hx
  exact contains_of_get ((archiveSelection_eq_ok hes).2 e he)

theorem exists_archiveSelection_iff (h : c.Readable) :
    (∃ es, c.archiveSelection id derived = .ok es) ↔ c.datasets.contains id = true := by
  refine ⟨fun ⟨es, hes⟩ => ?_, fun hid => h.exists_archiveSelection hid derived⟩
  obtain ⟨⟨target, rest, rfl, rfl⟩, hread⟩ := archiveSelection_eq_ok hes
  exact contains_of_get (hread target List.mem_cons_self)

theorem archivedAt?_concat (derived : Bool) (clock : Nat → Timestamp) (ids : List Identity)
    (id x : Identity) : c.archivedAt? derived clock (ids ++ [id]) x =
      (c.archivedAt? derived clock ids x).or
        (if x ∈ c.archiveIds derived id then some (clock ids.length) else none) := by
  rw [archivedAt?, List.zipIdx_append, List.findSome?_append]
  simp [archivedAt?]

theorem isSome_archivedAt? {clock : Nat → Timestamp} {ids : List Identity} :
    (c.archivedAt? derived clock ids x).isSome ↔ ∃ id ∈ ids, x ∈ c.archiveIds derived id := by
  induction ids using List.reverseRecOn with
  | nil => simp [archivedAt?]
  | append_singleton ids id ih =>
      rw [archivedAt?_concat, Option.isSome_or, Bool.or_eq_true, ih]
      simp only [List.mem_append, List.mem_singleton, or_and_right, exists_or, exists_eq_left]
      refine or_congr_right ?_
      split <;> simp_all

end Catalog

namespace Cascade

open Catalog

/-- What a batch does with the `n.2`-th identity `n.1`. -/
def archiveStep (o : Options) (clock : Nat → Timestamp) (p : Progress) (n : Identity × Nat) :
    Progress :=
  apply "archiving" o.dryRun (fun c id => c.archiveSelection id o.derived)
    (fun c ids => c.archive ids (clock n.2)) p n.1

/-- Where a batch has got to after these identities. -/
structure ArchivedUpTo (c : Catalog) (o : Options) (clock : Nat → Timestamp)
    (done : List Identity) (p : Progress) : Prop where
  catalog : p.catalog =
    if o.dryRun then c else c.retimed (.dating (c.archivedAt? o.derived clock done))
  report : p.report =
    ⟨done.countP c.datasets.contains, done.countP fun id => !c.datasets.contains id⟩
  selected : p.selected.map Entry.id = done.flatMap (c.archiveIds o.derived)

variable {c : Catalog} {o : Options} {clock : Nat → Timestamp} {done : List Identity}
  {p : Progress}

/-- An item with a selection archives what is active in it, unless it is a dry run. -/
theorem archiveStep_of_ok (clock : Nat → Timestamp) {n : Identity × Nat} {es : List Entry}
    (h : p.catalog.archiveSelection n.1 o.derived = .ok es)
    (hrecorded : ∀ x ∈ es.map Entry.id, p.catalog.datasets.contains x = true) :
    (archiveStep o clock p n).catalog =
        (if o.dryRun then p.catalog
          else p.catalog.retimed (.archiving (es.map Entry.id) (clock n.2))) ∧
      (archiveStep o clock p n).report = p.report.succeed ∧
      (archiveStep o clock p n).selected = p.selected ++ es := by
  simp only [archiveStep, apply, h]
  split
  next => exact ⟨rfl, rfl, rfl⟩
  next =>
    rw [archive_eq_retimed (clock n.2) hrecorded]
    exact ⟨rfl, rfl, rfl⟩

theorem archivedUpTo_start (c : Catalog) (o : Options) (clock : Nat → Timestamp) :
    ArchivedUpTo c o clock [] (start c) := by
  refine ⟨?_, rfl, rfl⟩
  have hnone : c.archivedAt? o.derived clock [] = fun _ => none := rfl
  rw [hnone, retimed_dating_none, ite_self]
  rfl

/-- The catalog of a batch differs from the first one in times only. -/
theorem ArchivedUpTo.exists_retimed (h : ArchivedUpTo c o clock done p) :
    ∃ r, p.catalog = c.retimed r := by
  rw [h.catalog]
  split
  next => exact ⟨_, retimed_dating_none.symm⟩
  next => exact ⟨_, rfl⟩

theorem ArchivedUpTo.next_of_unknown (h : ArchivedUpTo c o clock done p) {id : Identity}
    (hid : c.datasets.contains id = false) :
    ArchivedUpTo c o clock (done ++ [id]) (archiveStep o clock p (id, done.length)) := by
  obtain ⟨r, hr⟩ := h.exists_retimed
  have hselection : p.catalog.archiveSelection id o.derived = .error (.notFound id) := by
    rw [hr, archiveSelection_retimed, archiveSelection_of_unknown hid]
    rfl
  have hids : c.archiveIds o.derived id = [] := by
    rw [archiveIds, archiveSelection_of_unknown hid]
    rfl
  have hstep : archiveStep o clock p (id, done.length) = p.refuse id (.notFound id) := by
    simp only [archiveStep, apply, hselection]
  have htimes : c.archivedAt? o.derived clock (done ++ [id]) = c.archivedAt? o.derived clock done :=
    funext fun x => by rw [archivedAt?_concat, hids, if_neg List.not_mem_nil, Option.or_none]
  rw [hstep]
  refine ⟨?_, ?_, ?_⟩
  · rw [htimes]
    exact h.catalog
  · simp [Progress.refuse, h.report, BatchReport.fail, hid]
  · simp [Progress.refuse, h.selected, hids]

theorem ArchivedUpTo.next_of_known (h : ArchivedUpTo c o clock done p) (hread : c.Readable)
    {id : Identity} (hid : c.datasets.contains id = true) :
    ArchivedUpTo c o clock (done ++ [id]) (archiveStep o clock p (id, done.length)) := by
  obtain ⟨r, hr⟩ := h.exists_retimed
  obtain ⟨es, hes⟩ := hread.exists_archiveSelection hid o.derived
  have hselection : p.catalog.archiveSelection id o.derived = .ok (es.map (Entry.retimed r)) := by
    rw [hr, archiveSelection_retimed, hes]
    rfl
  have hids : c.archiveIds o.derived id = es.map Entry.id := by
    rw [archiveIds, hes]
    rfl
  have hsame : (es.map (Entry.retimed r)).map Entry.id = c.archiveIds o.derived id := by
    rw [hids, List.map_map]
    rfl
  have hrecorded : ∀ x ∈ (es.map (Entry.retimed r)).map Entry.id,
      p.catalog.datasets.contains x = true := by
    rw [hsame]
    intro x hx
    rw [hr, contains_retimed]
    exact contains_of_mem_archiveIds hx
  obtain ⟨hcatalog, hreport, hselected⟩ :=
    archiveStep_of_ok clock (n := (id, done.length)) hselection hrecorded
  refine ⟨?_, ?_, ?_⟩
  · rw [hcatalog, hsame, h.catalog]
    split
    next => rfl
    next =>
      rw [Retiming.archiving_eq_dating, retimed_dating]
      exact congrArg (fun times => c.retimed (.dating times))
        (funext fun x => (archivedAt?_concat o.derived clock done id x).symm)
  · simp [hreport, h.report, BatchReport.succeed, hid]
  · rw [hselected, List.map_append, hsame, h.selected, List.flatMap_append, List.flatMap_singleton]

theorem archivedUpTo_archive (hread : c.Readable) (o : Options) (clock : Nat → Timestamp)
    (ids : List Identity) : ArchivedUpTo c o clock ids (archive o clock c ids) := by
  -- A batch goes from the first identity to the last, so the induction takes the last one off.
  induction ids using List.reverseRecOn with
  | nil => exact archivedUpTo_start c o clock
  | append_singleton ids id ih =>
      have hlast : archive o clock c (ids ++ [id]) =
          archiveStep o clock (archive o clock c ids) (id, ids.length) := by
        rw [archive, List.zipIdx_append, List.foldl_append, Nat.zero_add]
        rfl
      rw [hlast]
      cases hid : c.datasets.contains id with
      | false => exact ih.next_of_unknown hid
      | true => exact ih.next_of_known hread hid

/-- A batch archives, besides what was archived before, what its recorded identities would archive
alone: each dataset once, when the first item selects it, and nothing else changes. It counts the
identities that are recorded as succeeded and the others as failed. A dry run selects and counts the
same and changes nothing. -/
theorem archive_union (hread : c.Readable) (derived : Bool) (clock : Nat → Timestamp)
    (ids : List Identity) :
    let real := archive ⟨derived, false⟩ clock c ids
    let dry := archive ⟨derived, true⟩ clock c ids
    (∀ id, (∃ es, c.archiveSelection id derived = .ok es) ↔ c.datasets.contains id = true) ∧
      (∀ x, real.catalog.Archived x ↔ c.Archived x ∨
        ∃ id ∈ ids, ∃ es, c.archiveSelection id derived = .ok es ∧ x ∈ es.map Entry.id) ∧
      (∀ x, real.catalog.datasets.find? x = (c.datasets.find? x).map fun d =>
        { d with archived := d.archived.or (c.archivedAt? derived clock ids x) }) ∧
      real.catalog.products = c.products ∧ real.catalog.derived = c.derived ∧
      real.report =
        ⟨ids.countP c.datasets.contains, ids.countP fun id => !c.datasets.contains id⟩ ∧
      dry.catalog = c ∧ dry.report = real.report ∧
      dry.selected.map Entry.id = real.selected.map Entry.id := by
  intro real dry
  obtain ⟨hreal, hreport, hselected⟩ := archivedUpTo_archive hread ⟨derived, false⟩ clock ids
  obtain ⟨hdry, hreport', hselected'⟩ := archivedUpTo_archive hread ⟨derived, true⟩ clock ids
  have hcatalog : real.catalog = c.retimed (.dating (c.archivedAt? derived clock ids)) := hreal
  refine ⟨fun id => exists_archiveSelection_iff hread, fun x => ?_, fun x => ?_, ?_, ?_, hreport,
    hdry, hreport'.trans hreport.symm, hselected'.trans hselected.symm⟩
  · rw [hcatalog, archived_retimed_dating, isSome_archivedAt?]
    simp only [← mem_archiveIds]
    refine or_congr_right (and_iff_right_of_imp ?_)
    rintro ⟨id, -, hx⟩
    exact contains_of_mem_archiveIds hx
  · rw [hcatalog, find?_retimed]
    cases hd : c.datasets.find? x with
    | none => rfl
    | some d =>
        cases c.keyed x d hd
        rfl
  · rw [hcatalog]
    rfl
  · rw [hcatalog]
    rfl

section Delta

/-- A source and what is derived from it are active; what is derived from that was archived. -/
def deltaCatalog : Catalog :=
  [{ windowRecord sourceId [] 0 with archived := none },
    { windowRecord productId [("raw", sourceId)] 0 with archived := none },
    windowRecord ⟨3⟩ [("raw", productId)] 19000].foldl Catalog.insert
      { Catalog.empty with products := [⟨"window", none, .empty, []⟩] }

def dailyClock (i : Nat) : Timestamp := ⟨20000 + i, 0, 0⟩

/-- The second dataset is listed twice and is archived by its first item, the source by a later one;
an unknown identity comes in between. -/
theorem archive_union_of_delta :
    deltaCatalog.Readable ∧
      let ids := [productId, ⟨9⟩, sourceId, productId]
      let real := archive ⟨true, false⟩ dailyClock deltaCatalog ids
      let dry := archive ⟨true, true⟩ dailyClock deltaCatalog ids
      [sourceId, productId, ⟨3⟩].map
          (fun id => (real.catalog.datasets.find? id).bind StoredDataset.archived) =
        [some (dailyClock 2), some (dailyClock 0), some ⟨19000, 0, 0⟩] ∧
      real.report = ⟨3, 1⟩ ∧ dry.catalog = deltaCatalog ∧ dry.report = ⟨3, 1⟩ ∧
      dry.selected.map Entry.id = real.selected.map Entry.id := by
  have hread : deltaCatalog.Readable := readable_of_registered (by decide)
  obtain ⟨-, -, hfind, -, -, hreport, hdry, hsame, hselected⟩ :=
    archive_union hread true dailyClock [productId, ⟨9⟩, sourceId, productId]
  have hcounted := hreport.trans (by rfl : _ = (⟨3, 1⟩ : BatchReport))
  refine ⟨hread, ?_, hcounted, hdry, hsame.trans hcounted, hselected⟩
  simp only [hfind]
  rfl

end Delta

end Cascade

end DatasetCatalog
