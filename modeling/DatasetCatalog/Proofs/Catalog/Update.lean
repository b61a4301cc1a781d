import DatasetCatalog.Proofs.Catalog.Operation
import DatasetCatalog.Proofs.Document.ChangeRules
import DatasetCatalog.Proofs.Document.Difference

/-!
# What an accepted update can change

Every difference between the old and the new metadata has a rule at its path or above. A path that
is apart from all rule paths is therefore apart from all differences, and what no difference touches
has kept its value.
-/

namespace DatasetCatalog.Catalog

variable {c c' : Catalog} {d : Dataset} {rules : ChangeRules}

/-- A rule above a difference stands between the difference and any path apart from the rule. -/
theorem apart_of_allows {change : Difference} {q : FieldPath} (h : rules.allows change = true)
    (hq : ∀ p ∈ rules.keys, p.Apart q) : change.path.Apart q := by
  obtain ⟨p, hp, habove⟩ := ChangeRules.exists_rule_of_allows h
  refine ⟨fun hthrough => (hq p hp).1 (habove.trans hthrough), fun hpast => ?_⟩
  rcases List.prefix_or_prefix_of_prefix habove hpast with hpq | hqp
  · exact (hq p hp).1 hpq
  · exact (hq p hp).2 hqp

/-- An accepted update changes one record, and in its metadata nothing outside the rules' paths. -/
theorem update_agrees_apart_from_rules (h : c.update d rules = .ok c') :
    ∃ id before after, d.id = some id ∧
      c.datasets.find? id = some before ∧ c'.datasets.find? id = some after ∧
      (∀ q : FieldPath, (∀ p ∈ rules.keys, p.Apart q) →
        Value.Agree .sensitive (before.metadata.get? q) (after.metadata.get? q)) ∧
      (rules.isEmpty = true →
        before.metadata.value.sameValue .sensitive after.metadata.value = true) ∧
      ∀ other, other ≠ id → c'.datasets.find? other = c.datasets.find? other := by
  obtain ⟨id, before, hid, hbefore, -, hallowed, rfl⟩ := update_eq_ok h
  refine ⟨id, before, d.revise before, hid, hbefore, ?_, ?_, ?_, ?_⟩
  · simp [OrderedMap.find?_adjust, hbefore]
  · intro q hq
    rw [Dataset.metadata_revise]
    exact Document.agree_get?_of_apart fun change hchange =>
      apart_of_allows (hallowed change hchange) hq
  · intro hempty
    rw [Dataset.metadata_revise, ← Document.changes_eq_nil_iff, List.eq_nil_iff_forall_not_mem]
    intro change hchange
    obtain ⟨p, hp, -⟩ := ChangeRules.exists_rule_of_allows (hallowed change hchange)
    rw [OrderedMap.keys, List.isEmpty_iff.mp hempty] at hp
    cases hp
  · intro other hne
    have hcompare : compare other id ≠ .eq := fun he => hne (Std.LawfulEqOrd.eq_of_compare he)
    rw [datasets_adjust, OrderedMap.find?_adjust, if_neg hcompare]

section Bands

/-- Two bands, the second of which a later document revises. -/
def scene (second : String) : Document := .ofFields
  [("title", .text "scene"), ("bands", .sequence [.text "red", .text second])]

def sceneProduct : Product := ⟨"scene", none, .empty, []⟩

def sceneCatalog : Catalog :=
  insert { empty with products := [sceneProduct] }
    { id := ⟨7⟩, product := "scene", metadata := scene "green", locations := ["a"]
      archivedLocations := [], sources := .empty, archived := none, indexed := none }

def revisedScene : Dataset := ⟨some ⟨7⟩, sceneProduct, scene "blue", ["b"], []⟩

def secondBandRule : ChangeRules := OrderedMap.empty.insert [.key "bands", .index 1] .any

/-- A rule for the second band leaves the first one and the title as they were. -/
theorem update_agrees_at_first_band :
    ∃ after, sceneCatalog.update revisedScene secondBandRule = .ok after ∧
      ∃ id stored stored', revisedScene.id = some id ∧
        sceneCatalog.datasets.find? id = some stored ∧ after.datasets.find? id = some stored' ∧
        Value.Agree .sensitive (stored.metadata.get? [.key "bands", .index 0])
          (stored'.metadata.get? [.key "bands", .index 0]) ∧
        Value.Agree .sensitive (stored.metadata.get? [.key "title"])
          (stored'.metadata.get? [.key "title"]) := by
  refine ⟨_, rfl, ?_⟩
  obtain ⟨id, stored, stored', hid, hstored, hstored', hagree, -, -⟩ :=
    update_agrees_apart_from_rules
      (show sceneCatalog.update revisedScene secondBandRule = .ok _ from rfl)
  exact ⟨id, stored, stored', hid, hstored, hstored', hagree _ (by decide), hagree _ (by decide)⟩

end Bands

end DatasetCatalog.Catalog
