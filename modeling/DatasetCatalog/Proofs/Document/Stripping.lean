import DatasetCatalog.Proofs.Document.Setting

/-!
# Stripping and embedding undo one another

A stripped document has nothing at the sources path, so that stripping it again finds nothing to take
out. What is embedded into it is the lineage of the result. If there was a lineage to strip, what is
left on the way to it are mappings that hold something else, and stripping the embedded one takes out
just what embedding it has put there.
-/

namespace DatasetCatalog

/-- A path that ends in no key leads to no field that can be taken out. -/
theorem Value.take?_eq_none {v : Value} {path : FieldPath}
    (h : ∀ k, path.getLast? ≠ some (.key k)) : v.take? path = none := by
  induction path generalizing v with
  | nil => rfl
  | cons s rest ih =>
      cases rest with
      | nil =>
          cases s with
          | key k => exact (h k rfl).elim
          | index i => cases v <;> rfl
      | cons next more =>
          rw [take?_cons_cons]
          apply Option.bind_eq_none_iff.mpr
          intro w _
          rw [ih fun k => h k]
          rfl

namespace Layout

variable {layout : Layout}

theorem withoutLineage_of_no_key (h : ∀ k, layout.sources.getLast? ≠ some (.key k)) (d : Document) :
    layout.withoutLineage d = d := by
  rw [withoutLineage, Document.remove?_eq_none (Value.take?_eq_none h)]

theorem withoutLineage_withoutLineage (layout : Layout) (d : Document) :
    layout.withoutLineage (layout.withoutLineage d) = layout.withoutLineage d := by
  by_cases h : ∃ k, layout.sources.getLast? = some (.key k)
  · obtain ⟨k, hlast⟩ := h
    exact withoutLineage_of_get?_eq_none (get?_sources_withoutLineage hlast d)
  · exact withoutLineage_of_no_key (fun k hlast => h ⟨k, hlast⟩) _

/-- Stripping a document twice strips it once, and touches nothing apart from the sources path; a
field there is gone. Documents that are embedded into a stripped document under a path of keys are its
lineage, in their order, and stripping it of them leads back to it, if it was stripped of anything. -/
theorem stripping_undoes_embedding (layout : Layout) (d : Document) :
    layout.withoutLineage (layout.withoutLineage d) = layout.withoutLineage d ∧
    (∀ q, layout.sources.Apart q → (layout.withoutLineage d).get? q = d.get? q) ∧
    (∀ k, layout.sources.getLast? = some (.key k) →
      (layout.withoutLineage d).get? layout.sources = none) ∧
    ∀ keys, layout.sources = .ofKeys keys → keys ≠ [] →
      ∀ entries : List (String × Document), (entries.map Prod.fst).Nodup →
        ∃ e, layout.withLineage (layout.withoutLineage d)
            (entries.map fun s => (s.1, s.2.value)) = .ok e ∧
          layout.lineage e = .ok entries ∧
          ((d.get? layout.sources).isSome = true →
            layout.withoutLineage e = layout.withoutLineage d) := by
  refine ⟨withoutLineage_withoutLineage layout d, fun q hq => get?_withoutLineage_of_apart hq d,
    fun k hlast => get?_sources_withoutLineage hlast d, ?_⟩
  intro keys hsources hne entries hdistinct
  obtain ⟨k, rest, rfl⟩ := List.exists_cons_of_ne_nil hne
  have hkeys : layout.sources.keys? = some (k :: rest) := by
    rw [hsources, FieldPath.keys?_ofKeys]
  have hwell := wellFormed_values hdistinct
  obtain ⟨e, he, -⟩ := exists_withLineage hkeys (layout.withoutLineage d) hwell
  refine ⟨e, he, lineage_withLineage hkeys hdistinct he, fun hstripped => ?_⟩
  obtain ⟨v, hv⟩ := Option.isSome_iff_exists.mp hstripped
  exact withoutLineage_withLineage hkeys hv hwell he

section Mooring

def mooring : Document := .ofFields [("title", .text "mooring"),
  ("lineage", .mapping [("history", .mapping [("sources", .mapping [("raw", .mapping [])])])])]

def mooringLayout : Layout := { sources := .ofKeys ["lineage", "history", "sources"] }

def bathymetry : Document := .ofFields [("depth", .text "40 m")]

/-- Both mappings around the lineage go with it, and come back with another one. -/
theorem mooring_stripping_undoes_embedding :
    mooringLayout.withoutLineage mooring = .ofFields [("title", .text "mooring")] ∧
      (["floor", "raw"] : List String).Nodup ∧
      ∃ e, mooringLayout.withLineage (.ofFields [("title", .text "mooring")])
          [("floor", bathymetry.value), ("raw", mooring.value)] = .ok e ∧
        mooringLayout.lineage e = .ok [("floor", bathymetry), ("raw", mooring)] ∧
        mooringLayout.withoutLineage e = .ofFields [("title", .text "mooring")] := by
  have hstripped : mooringLayout.withoutLineage mooring = .ofFields [("title", .text "mooring")] :=
    Document.ext_fields rfl
  obtain ⟨-, -, -, hembedded⟩ := mooringLayout.stripping_undoes_embedding mooring
  obtain ⟨e, he, hlineage, hback⟩ := hembedded ["lineage", "history", "sources"] rfl (by decide)
    [("floor", bathymetry), ("raw", mooring)] (by decide)
  rw [hstripped] at he hback
  exact ⟨hstripped, by decide, e, he, hlineage, hback rfl⟩

end Mooring

end Layout

end DatasetCatalog
