import DatasetCatalog.Proofs.Batch.DryRun

/-!
# Where an updated dataset is

An update first makes the new location active and then settles the old one. The old one is told
from the entry that was loaded with the candidate, while the record lists both by then. `Relocated`
is what comes of the two together: the policy matters only if there was a single location and it
was another one. Of all locations, only an old one that is to be forgotten is lost.
-/

namespace DatasetCatalog

/-- The location is recorded, as active or as archived. -/
def StoredDataset.Lists (d : StoredDataset) (uri : String) : Prop :=
  uri ∈ d.locations ∨ uri ∈ d.archivedLocations

/-- A policy was applied to the old location, while `others` are archived. -/
def LocationPolicy.Displaced (policy : LocationPolicy) (old new : String) (others : List String)
    (after : StoredDataset) : Prop :=
  match policy with
  | .keep => after.locations = [old, new] ∧ after.archivedLocations = others
  | .archive => after.locations = [new] ∧ after.archivedLocations = others ++ [old]
  | .forget => after.locations = [new] ∧ after.archivedLocations = others ∧ ¬ after.Lists old

/-- What becomes of the locations of a record that is updated from the location `new`. -/
structure LocationPolicy.Relocated (policy : LocationPolicy) (new : String)
    (before after : StoredDataset) : Prop where
  active : new ∈ after.locations
  unarchived : new ∉ after.archivedLocations
  first : before.locations = [] → after.locations = [new]
  displaced : ∀ old, before.locations = [old] → old ≠ new →
    policy.Displaced old new (before.archivedLocations.filter (· ≠ new)) after
  /-- Without a single other location the policy does not matter. -/
  undisturbed : (∀ old, before.locations = [old] → old = new) →
    after.locations =
        (if new ∈ before.locations then before.locations else before.locations ++ [new]) ∧
      after.archivedLocations = before.archivedLocations.filter (· ≠ new)

variable {policy : LocationPolicy} {new old uri : String} {d before after : StoredDataset}

namespace LocationPolicy

/-- A policy is applied when the record lists both locations. -/
theorem displaced_displace {others : List String} (hne : old ≠ new) (hold : old ∉ others)
    (hactive : d.locations = [old, new]) (harchived : d.archivedLocations = others) :
    policy.Displaced old new others (policy.displace old d) := by
  have hremaining : d.locations.filter (· ≠ old) = [new] := by simp [hactive, hne.symm]
  cases policy with
  | keep => exact ⟨hactive, harchived⟩
  | archive =>
      have hretired : (Catalog.retire old d).archivedLocations = d.archivedLocations ++ [old] :=
        if_pos (by simp [hactive])
      exact ⟨hremaining, hretired.trans (harchived ▸ rfl)⟩
  | forget =>
      have hothers : d.archivedLocations.filter (· ≠ old) = others := by
        rw [harchived, List.filter_eq_self]
        exact fun uri huri => decide_eq_true fun hsame => hold (hsame ▸ huri)
      refine ⟨hremaining, hothers, ?_⟩
      rintro (hmem | hmem)
      · exact hne (List.mem_singleton.mp (hremaining ▸ hmem))
      · exact hold (hothers ▸ hmem)

theorem displaced_or_undisturbed (new : String) (before : StoredDataset) :
    (∃ old, before.locations = [old] ∧ old ≠ new) ∨
      ∀ old, before.locations = [old] → old = new := by
  by_cases h : ∃ old, before.locations = [old] ∧ old ≠ new
  · exact .inl h
  · exact .inr fun old hold => by_contra fun hne => h ⟨old, hold, hne⟩

/-- The old location is displaced, so the new one is active and not archived. -/
theorem Displaced.relocated
    (h : policy.Displaced old new (before.archivedLocations.filter (· ≠ new)) after)
    (hone : before.locations = [old]) (hne : old ≠ new) :
    policy.Relocated new before after := by
  have hothers : new ∉ before.archivedLocations.filter (· ≠ new) := by simp
  have hactive : new ∈ after.locations := by
    cases policy with
    | keep => exact h.1 ▸ List.mem_cons_of_mem old (List.mem_singleton_self new)
    | archive => exact h.1 ▸ List.mem_singleton_self new
    | forget => exact h.1 ▸ List.mem_singleton_self new
  have hunarchived : new ∉ after.archivedLocations := by
    cases policy with
    | keep => exact h.2 ▸ hothers
    | archive =>
        rw [h.2, List.mem_append, List.mem_singleton]
        exact fun hmem => hmem.elim hothers fun hsame => hne hsame.symm
    | forget => exact h.2.1 ▸ hothers
  refine ⟨hactive, hunarchived, fun hnone => ?_, fun other hother _ => ?_, fun hsame => ?_⟩
  · cases hone.symm.trans hnone
  · cases hone.symm.trans hother
    exact h
  · exact (hne (hsame old hone)).elim

theorem Relocated.mem_archivedLocations (h : policy.Relocated new before after)
    (hbefore : uri ∈ before.archivedLocations) (hne : uri ≠ new) :
    uri ∈ after.archivedLocations := by
  have hother : uri ∈ before.archivedLocations.filter (· ≠ new) :=
    List.mem_filter.mpr ⟨hbefore, decide_eq_true hne⟩
  rcases displaced_or_undisturbed new before with ⟨old, hone, hold⟩ | hsame
  · have hdisplaced := h.displaced old hone hold
    cases policy with
    | keep => exact hdisplaced.2 ▸ hother
    | archive => exact hdisplaced.2 ▸ List.mem_append_left [old] hother
    | forget => exact hdisplaced.2.1 ▸ hother
  · exact (h.undisturbed hsame).2 ▸ hother

/-- Nothing is lost but a single location that is to be forgotten. -/
theorem Relocated.lists (h : policy.Relocated new before after) (hbefore : before.Lists uri) :
    after.Lists uri ∨ policy = .forget ∧ before.locations = [uri] ∧ uri ≠ new := by
  by_cases hnew : uri = new
  · exact .inl (.inl (hnew ▸ h.active))
  rcases hbefore with hactive | harchived
  · rcases displaced_or_undisturbed new before with ⟨old, hone, hold⟩ | hsame
    · have hdisplaced := h.displaced old hone hold
      rw [hone, List.mem_singleton] at hactive
      subst hactive
      cases policy with
      | keep => exact .inl (.inl (hdisplaced.1 ▸ List.mem_cons_self))
      | archive =>
          exact .inl (.inr (hdisplaced.2 ▸ List.mem_append_right _ (List.mem_singleton_self uri)))
      | forget => exact .inr ⟨rfl, hone, hold⟩
    · refine .inl (.inl ?_)
      rw [(h.undisturbed hsame).1]
      split
      next => exact hactive
      next => exact List.mem_append_left [new] hactive
  · exact .inl (.inr (h.mem_archivedLocations harchived hnew))

end LocationPolicy

namespace UpdateCandidate

variable {u : UpdateCandidate} {c : Catalog} {rules : ChangeRules} {layout : Layout}
  {document : Document} {stored : StoredDataset}

theorem locations_of_load (h : load c layout document new = .ok u)
    (hstored : c.datasets.find? u.existing.id = some stored) :
    u.existing.locations = stored.locations := by
  obtain ⟨-, hget, -⟩ := load_eq_ok h
  obtain ⟨stored', hstored', hentry⟩ := Catalog.get_eq_ok hget
  cases hstored.symm.trans hstored'
  obtain ⟨_, -, hexisting⟩ := Catalog.entry_eq_ok hentry
  rw [hexisting]

theorem replaced?_eq_some_iff (huris : u.dataset.uris = [new]) :
    u.replaced? = some old ↔ u.existing.locations = [old] ∧ old ≠ new := by
  rw [replaced?, Dataset.primaryUri?, huris]
  cases u.existing.locations with
  | nil => simp
  | cons first rest =>
      cases rest with
      | nil => grind
      | cons => simp

theorem revise_eq (huris : u.dataset.uris = [new]) (d : StoredDataset) :
    u.dataset.revise d = Catalog.activate { d with metadata := u.dataset.metadata } new := by
  rw [Dataset.revise, huris]
  rfl

theorem rewrite_of_displaced (huris : u.dataset.uris = [new])
    (hlocations : u.existing.locations = [old]) (hne : old ≠ new) (d : StoredDataset) :
    u.rewrite policy d = policy.displace old (u.dataset.revise d) := by
  rw [rewrite, relocate, (replaced?_eq_some_iff huris).mpr ⟨hlocations, hne⟩]
  rfl

theorem rewrite_of_undisturbed (huris : u.dataset.uris = [new])
    (hsame : ∀ old, u.existing.locations = [old] → old = new) (d : StoredDataset) :
    u.rewrite policy d = u.dataset.revise d := by
  have hnone : u.replaced? = none := by
    refine Option.eq_none_iff_forall_not_mem.mpr fun old hold => ?_
    obtain ⟨hlocations, hne⟩ := (replaced?_eq_some_iff huris).mp hold
    exact hne (hsame old hlocations)
  rw [rewrite, relocate, hnone]
  rfl

/-- What an accepted candidate makes of the locations of the record that it was loaded from. -/
theorem relocated_rewrite (huris : u.dataset.uris = [new])
    (hlocations : u.existing.locations = d.locations)
    (hdisjoint : d.locations.Disjoint d.archivedLocations) (policy : LocationPolicy) :
    policy.Relocated new d (u.rewrite policy d) := by
  have hrevised := u.revise_eq huris d
  rcases LocationPolicy.displaced_or_undisturbed new d with ⟨old, hone, hne⟩ | hsame
  · -- The entry has the old location alone, the revised record has both.
    rw [rewrite_of_displaced huris (hlocations.trans hone) hne]
    refine (LocationPolicy.displaced_displace hne ?_ ?_ ?_).relocated hone hne
    · rw [hone] at hdisjoint
      exact fun hmem => List.singleton_disjoint.mp hdisjoint (List.mem_filter.mp hmem).1
    · simp [hrevised, Catalog.activate, hone, hne.symm]
    · rw [hrevised]
      rfl
  · rw [rewrite_of_undisturbed huris (fun old hold => hsame old (hlocations.symm.trans hold)),
      hrevised]
    refine ⟨?_, ?_, ?_, ?_, fun _ => ⟨rfl, rfl⟩⟩
    · rw [Catalog.activate]
      split
      next hmem => exact hmem
      next => exact List.mem_append_right _ (List.mem_singleton_self new)
    · simp [Catalog.activate]
    · intro hnone
      simp [Catalog.activate, hnone]
    · intro old hone hne
      exact (hne (hsame old hone)).elim

end UpdateCandidate

namespace Updating

open UpdateCandidate

/-- The update of a recorded dataset from a location that an accepted candidate was loaded from
succeeds, settles the locations of its record as the policy says, and leaves other records alone. -/
theorem locations_of_update {c : Catalog} {layout : Layout} {document : Document} {new : String}
    {u : UpdateCandidate} {rules : ChangeRules} {stored : StoredDataset}
    (hload : load c layout document new = .ok u)
    (hstored : c.datasets.find? u.existing.id = some stored)
    (hdisjoint : stored.locations.Disjoint stored.archivedLocations)
    (haccepted : (u.changes rules).isSafe = true) (policy : LocationPolicy) :
    let after := run ⟨rules, policy, false⟩ c [u]
    after.report = ⟨1, 0⟩ ∧
      (∀ id, id ≠ u.existing.id → after.catalog.datasets.find? id = c.datasets.find? id) ∧
      ∃ updated, after.catalog.datasets.find? u.existing.id = some updated ∧
        policy.Relocated new stored updated ∧
        ∀ uri, stored.Lists uri →
          updated.Lists uri ∨ policy = .forget ∧ stored.locations = [uri] ∧ uri ≠ new := by
  obtain ⟨hwritten, hcounted⟩ := apply_wet (p := ⟨c, {}, []⟩) ⟨layout, document, new, hload⟩
    (.refl _ c) rules policy
  rw [write, if_pos haccepted] at hwritten
  rw [count, if_pos haccepted] at hcounted
  have hcatalog : (run ⟨rules, policy, false⟩ c [u]).catalog =
      c.adjust u.existing.id (u.rewrite policy) (u.id_rewrite policy) := hwritten
  obtain ⟨-, -, -, huris⟩ := load_eq_ok hload
  have hrelocated := relocated_rewrite huris (locations_of_load hload hstored) hdisjoint policy
  dsimp only
  rw [hcatalog]
  refine ⟨hcounted, fun id hne => ?_, _, Catalog.find?_adjust_self hstored, hrelocated,
    fun uri => hrelocated.lists⟩
  rw [Catalog.datasets_adjust, OrderedMap.find?_adjust, if_neg]
  exact fun hsame => hne (Std.LawfulEqOrd.eq_of_compare hsame)

section Shores

/-- The lake is at its old location, and was at its new one and at the shore before. -/
def shores : Catalog :=
  waters.adjust LineageGraph.firstId
    (fun d => { d with archivedLocations := ["new/lake", "shore"] }) fun _ => rfl

def tarn : UpdateCandidate :=
  (load shores LineageGraph.sourcesLayout (water '1' "tarn" "lake") "new/lake").toOption.getD
    default

/-- The lake is back at its new location, and the old one is archived with the shore. -/
theorem tarn_locations :
    let after := run ⟨titleRule, .archive, false⟩ shores [tarn]
    after.report = ⟨1, 0⟩ ∧
      ∃ updated, after.catalog.datasets.find? LineageGraph.firstId = some updated ∧
        updated.locations = ["new/lake"] ∧ updated.archivedLocations = ["shore", "old/lake"] := by
  have hload : load shores LineageGraph.sourcesLayout (water '1' "tarn" "lake") "new/lake" =
      .ok tarn := by
    rfl
  have hdisjoint : ["old/lake"].Disjoint ["new/lake", "shore"] :=
    List.singleton_disjoint.mpr (by decide)
  have haccepted : (tarn.changes titleRule).isSafe = true := by
    rfl
  obtain ⟨hreport, -, updated, hupdated, hrelocated, -⟩ :=
    locations_of_update hload rfl hdisjoint haccepted .archive
  obtain ⟨hactive, harchived⟩ := hrelocated.displaced "old/lake" rfl (by decide)
  exact ⟨hreport, updated, hupdated, hactive, harchived⟩

end Shores

end Updating

end DatasetCatalog
