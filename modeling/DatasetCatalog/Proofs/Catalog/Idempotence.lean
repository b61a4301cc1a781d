import DatasetCatalog.Proofs.Catalog.Change
import DatasetCatalog.Proofs.Catalog.InPlace

/-!
# Updating twice

A dataset is checked against the one record that it can replace (`Replaces`), and an update revises
that record if the check refuses nothing. A revised record is left as it is by the same revision, as
all its locations are active already (`Dataset.revise_revise`), and its metadata is what it is
checked against. So the second of two equal updates has nothing to refuse and nothing to do.
-/

namespace DatasetCatalog

namespace Catalog

/-! ## Making locations active -/

/-- One location first: it is appended unless it is active, and then no longer new. -/
theorem locations_activate_append (stored : StoredDataset) (uri : String) (rest : List String) :
    (activate stored uri).locations ++
        (rest.filter (· ∉ (activate stored uri).locations)).eraseDups =
      stored.locations ++ ((uri :: rest).filter (· ∉ stored.locations)).eraseDups := by
  by_cases hactive : uri ∈ stored.locations
  · have hsame : (activate stored uri).locations = stored.locations := if_pos hactive
    rw [hsame, List.filter_cons_of_neg (by simpa using hactive)]
  · have hmore : (activate stored uri).locations = stored.locations ++ [uri] := if_neg hactive
    rw [hmore, List.filter_cons_of_pos (by simpa using hactive), List.eraseDups_cons,
      List.filter_filter, List.append_assoc, List.singleton_append]
    congr 3
    -- What is still new once `uri` is active was new before and is another location.
    refine List.filter_congr fun other _ => ?_
    rw [Bool.eq_iff_iff]
    simp [and_comm]

theorem archivedLocations_activate_filter (stored : StoredDataset) (uri : String)
    (rest : List String) :
    (activate stored uri).archivedLocations.filter (· ∉ rest) =
      stored.archivedLocations.filter (· ∉ uri :: rest) := by
  rw [activate, List.filter_filter]
  refine List.filter_congr fun other _ => ?_
  rw [Bool.eq_iff_iff]
  simp [and_comm]

/-- The locations that are new are appended in their order, each of them once. -/
theorem foldl_activate_eq (uris : List String) (stored : StoredDataset) :
    uris.foldl activate stored =
      { stored with
        locations := stored.locations ++ (uris.filter (· ∉ stored.locations)).eraseDups
        archivedLocations := stored.archivedLocations.filter (· ∉ uris) } := by
  induction uris generalizing stored with
  | nil => simp
  | cons uri rest ih =>
      rw [List.foldl_cons, ih, locations_activate_append, archivedLocations_activate_filter]
      rfl

end Catalog

namespace Dataset

theorem revise_eq (d : Dataset) (stored : StoredDataset) : d.revise stored =
    { stored with
      metadata := d.metadata
      locations := stored.locations ++ (d.uris.filter (· ∉ stored.locations)).eraseDups
      archivedLocations := stored.archivedLocations.filter (· ∉ d.uris) } :=
  Catalog.foldl_activate_eq d.uris _

theorem mem_locations_revise {d : Dataset} {stored : StoredDataset} {uri : String}
    (h : uri ∈ d.uris) : uri ∈ (d.revise stored).locations :=
  Catalog.mem_locations_foldl_activate _ (.inr h)

/-- A revised record has nothing left to revise. -/
theorem revise_revise (d : Dataset) (stored : StoredDataset) :
    d.revise (d.revise stored) = d.revise stored := by
  have hactive : d.uris.filter (· ∉ (d.revise stored).locations) = [] := by
    rw [List.filter_eq_nil_iff]
    intro uri huri hnew
    exact of_decide_eq_true hnew (mem_locations_revise huri)
  rw [revise_eq d (d.revise stored), hactive, List.eraseDups_nil, List.append_nil, revise_eq]
  simp

end Dataset

namespace Catalog

variable {c c' : Catalog} {d : Dataset} {rules : ChangeRules} {id : Identity}
  {stored : StoredDataset} {changes : ClassifiedChanges}

/-! ## The record that an update revises -/

/-- The record has the identity of the dataset and its product, which is registered. -/
structure Replaces (c : Catalog) (d : Dataset) (id : Identity) (stored : StoredDataset) : Prop where
  identified : d.id = some id
  recorded : c.datasets.find? id = some stored
  registered : ∃ p, c.product? stored.product = some p
  product : stored.product = d.product.name

theorem Replaces.canUpdate (h : c.Replaces d id stored) (rules : ChangeRules) :
    c.canUpdate d rules = .ok (rules.classify (stored.metadata.changes d.metadata)) := by
  obtain ⟨p, hp⟩ := h.registered
  have hname : p.name = d.product.name := (product?_name hp).trans h.product
  have hentry := get_of_entry h.recorded (by rw [entry, hp])
  rw [Catalog.canUpdate, h.identified]
  refine bind_eq_ok.mpr ⟨_, hentry, ?_⟩
  rw [if_neg (not_not.mpr hname)]

/-- A check that gives a result compares the record that can be replaced with the dataset. -/
theorem canUpdate_eq_ok_iff : c.canUpdate d rules = .ok changes ↔
    ∃ id stored, c.Replaces d id stored ∧
      changes = rules.classify (stored.metadata.changes d.metadata) := by
  constructor
  · intro h
    obtain ⟨id, stored, hid, hstored, hproduct, rfl⟩ := canUpdate_eq_ok h
    rw [canUpdate, hid] at h
    obtain ⟨existing, hget, -⟩ := bind_eq_ok.mp h
    obtain ⟨_, hstored', hentry⟩ := get_eq_ok hget
    cases hstored.symm.trans hstored'
    obtain ⟨p, hp, -⟩ := entry_eq_ok hentry
    exact ⟨id, stored, ⟨hid, hstored, ⟨p, hp⟩, hproduct⟩, rfl⟩
  · rintro ⟨id, stored, hreplaces, rfl⟩
    exact hreplaces.canUpdate rules

theorem Replaces.update (h : c.Replaces d id stored)
    (hsafe : (rules.classify (stored.metadata.changes d.metadata)).refused = []) :
    c.update d rules = .ok (c.adjust id d.revise d.id_revise) := by
  rw [Catalog.update]
  refine bind_eq_ok.mpr ⟨_, h.canUpdate rules, ?_⟩
  rw [ClassifiedChanges.isSafe, hsafe, h.identified]
  rfl

/-- An update that succeeds was checked, and revises one record. -/
theorem exists_replaces_of_update (h : c.update d rules = .ok c') :
    ∃ id stored, c.Replaces d id stored ∧
      (rules.classify (stored.metadata.changes d.metadata)).refused = [] ∧
      c' = c.adjust id d.revise d.id_revise := by
  obtain ⟨_, hchanges, -⟩ := bind_eq_ok.mp h
  obtain ⟨id, stored, hreplaces, rfl⟩ := canUpdate_eq_ok_iff.mp hchanges
  obtain ⟨id', before, hid, hbefore, -, hallowed, rfl⟩ := update_eq_ok h
  cases hreplaces.identified.symm.trans hid
  cases hreplaces.recorded.symm.trans hbefore
  refine ⟨id, stored, hreplaces, ?_, rfl⟩
  simpa [ChangeRules.classify] using hallowed

theorem Replaces.adjust_revise (h : c.Replaces d id stored) :
    (c.adjust id d.revise d.id_revise).Replaces d id (d.revise stored) where
  identified := h.identified
  recorded := find?_adjust_self h.recorded
  registered := by
    rw [Dataset.product_revise]
    exact h.registered
  product := (d.product_revise stored).trans h.product

theorem classify_changes_self (rules : ChangeRules) (d : Document) :
    rules.classify (d.changes d) = ⟨[], []⟩ := by
  rw [Document.changes_self]
  rfl

/-- An update succeeds exactly if the check finds no unsafe change. It revises one record, whose new
locations are appended in their order, each of them once, and are no longer archived. The dataset is
then found to change nothing, and updating it again does change nothing, whatever the rules. -/
theorem update_checked_once (c : Catalog) (d : Dataset) (rules : ChangeRules) :
    ((∃ c', c.update d rules = .ok c') ↔
      ∃ changes, c.canUpdate d rules = .ok changes ∧ changes.refused = []) ∧
    ∀ c', c.update d rules = .ok c' →
      (∃ id before, d.id = some id ∧ c.datasets.find? id = some before ∧
        c'.datasets.find? id = some { before with
          metadata := d.metadata
          locations := before.locations ++ (d.uris.filter (· ∉ before.locations)).eraseDups
          archivedLocations := before.archivedLocations.filter (· ∉ d.uris) } ∧
        ∀ other, other ≠ id → c'.datasets.find? other = c.datasets.find? other) ∧
      c'.products = c.products ∧ c'.derived = c.derived ∧
      ∀ later : ChangeRules,
        c'.canUpdate d later = .ok ⟨[], []⟩ ∧ c'.update d later = .ok c' := by
  refine ⟨⟨?_, ?_⟩, ?_⟩
  · rintro ⟨c', h⟩
    obtain ⟨id, stored, hreplaces, hsafe, -⟩ := exists_replaces_of_update h
    exact ⟨_, hreplaces.canUpdate rules, hsafe⟩
  · rintro ⟨changes, hchanges, hsafe⟩
    obtain ⟨id, stored, hreplaces, rfl⟩ := canUpdate_eq_ok_iff.mp hchanges
    exact ⟨_, hreplaces.update hsafe⟩
  · intro c' h
    obtain ⟨id, stored, hreplaces, -, rfl⟩ := exists_replaces_of_update h
    have hrevised := hreplaces.adjust_revise
    have hmetadata : (d.revise stored).metadata = d.metadata := d.metadata_revise stored
    refine ⟨⟨id, stored, hreplaces.identified, hreplaces.recorded, ?_, ?_⟩, rfl, rfl, ?_⟩
    · rw [hrevised.recorded, Dataset.revise_eq]
    · intro other hne
      exact find?_adjust_of_ne c hne
    · intro later
      have hnothing := classify_changes_self later d.metadata
      refine ⟨?_, ?_⟩
      · rw [hrevised.canUpdate later, hmetadata, hnothing]
      · rw [hrevised.update (by rw [hmetadata, hnothing]), adjust_adjust]
        exact congrArg Except.ok (adjust_congr hreplaces.recorded _ _ (d.revise_revise stored))

section Shelves

/-- The scene was at two more locations before. -/
def shelvedCatalog : Catalog :=
  sceneCatalog.adjust ⟨7⟩ (fun stored => { stored with archivedLocations := ["c", "d"] }) fun _ => rfl

/-- It is found at a new location, twice, and again at one where it was. -/
def scatteredScene : Dataset := { revisedScene with uris := ["b", "a", "b", "c"] }

theorem scatteredScene_checked_once :
    ∃ after, shelvedCatalog.update scatteredScene secondBandRule = .ok after ∧
      (∃ stored, after.datasets.find? ⟨7⟩ = some stored ∧ stored.metadata = scene "blue" ∧
        stored.locations = ["a", "b", "c"] ∧ stored.archivedLocations = ["d"]) ∧
      after.canUpdate scatteredScene .empty = .ok ⟨[], []⟩ ∧
      after.update scatteredScene .empty = .ok after := by
  have hupdate : ∃ after, shelvedCatalog.update scatteredScene secondBandRule = .ok after :=
    ⟨_, rfl⟩
  obtain ⟨after, hafter⟩ := hupdate
  obtain ⟨-, honce⟩ := update_checked_once shelvedCatalog scatteredScene secondBandRule
  obtain ⟨⟨id, before, hid, hbefore, hrevised, -⟩, -, -, hagain⟩ := honce after hafter
  cases hid
  cases hbefore
  exact ⟨after, hafter, ⟨_, hrevised, rfl, by decide, by decide⟩, hagain .empty⟩

end Shelves

end Catalog

end DatasetCatalog
