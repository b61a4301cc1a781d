import DatasetCatalog.Proofs.Batch.Derivation
import DatasetCatalog.Proofs.Catalog.Change
import DatasetCatalog.Proofs.Catalog.History
import DatasetCatalog.Proofs.Catalog.Snapshot

/-!
# Reads that find their product

An entry joins a record with its product by the product's name, which fails if there is no product
of that name. `Registered` is the invariant that keeps it from failing. Opening a snapshot checks it
record by record, adding a graph checks it for the new records, and as nothing takes a product away
and no record changes its product, it is never lost.
-/

namespace DatasetCatalog.Catalog

/-- Every record's product is registered. -/
def Registered (c : Catalog) : Prop :=
  ∀ id d, c.datasets.find? id = some d → ∃ p, c.product? d.product = some p

/-- Whatever is asked for is answered, many datasets at once as each of them alone. -/
structure Answering (c : Catalog) : Prop where
  get : ∀ id, ∃ found, c.get? id = .ok found ∧ found.isSome = c.datasets.contains id
  bulkGet : ∀ ids, ∃ known, c.bulkGet ids = .ok known ∧
    (∀ id, known.contains id = true ↔ id ∈ ids ∧ c.datasets.contains id = true) ∧
    ∀ {id : Identity} {e : Entry}, known.find? id = some e → c.get? id = .ok (some e)
  getDerived : ∀ id, ∃ es, c.getDerived id = .ok es

variable {c c' : Catalog}

theorem registered_empty : empty.Registered := nofun

/-! ## Answers -/

theorem Registered.readable (h : c.Registered) : c.Readable := by
  apply readable_of_registered
  intro d hd
  obtain ⟨id, hid⟩ := OrderedMap.mem_values_iff.mp hd
  exact Option.isSome_iff_exists.mpr (h id d hid)

/-- Only what was asked for is found. -/
theorem mem_of_bulkGet {ids : List Identity} {known : OrderedMap Identity Entry}
    (h : c.bulkGet ids = .ok known) {id : Identity} {e : Entry} (he : known.find? id = some e) :
    id ∈ ids := by
  obtain ⟨entries, hentries, ⟨⟩⟩ := bind_eq_ok.mp h
  obtain ⟨e', he', hpair⟩ := List.mem_map.mp (OrderedMap.mem_of_find?_ofList he)
  cases hpair
  obtain ⟨d, hd, hentry⟩ := exists_of_mem_right (mapM_eq_ok.mp hentries) he'
  obtain ⟨asked, hasked, hfind⟩ := List.mem_filterMap.mp hd
  rwa [entry_id hentry, c.keyed asked d hfind]

theorem Readable.answering (h : c.Readable) : c.Answering where
  get id := by
    obtain ⟨found, hfound⟩ := h id
    exact ⟨found, hfound, isSome_of_get? hfound⟩
  bulkGet ids := by
    obtain ⟨known, hknown⟩ := exists_bulkGet fun id (_ : id ∈ ids) => h id
    refine ⟨known, hknown, fun id => ⟨fun hfound => ?_, fun ⟨hid, hrecorded⟩ => ?_⟩, ?_⟩
    · obtain ⟨e, he⟩ := OrderedMap.contains_iff.mp hfound
      have hid := mem_of_bulkGet hknown he
      exact ⟨hid, (isSome_of_get? (get?_of_bulkGet hknown hid)).symm.trans hfound⟩
    · exact (isSome_of_get? (get?_of_bulkGet hknown hid)).trans hrecorded
    · intro id e he
      rw [← he]
      exact get?_of_bulkGet hknown (mem_of_bulkGet hknown he)
  getDerived id := by
    obtain ⟨es, hes, -⟩ := h.getDerived id
    exact ⟨es, hes⟩

/-! ## Requests -/

namespace Write

variable {α : Type} {answer : α}

/-- Nothing but a registration touches the products, and it puts a new name at their end. -/
theorem products (w : Write α) (h : w.outcome c = .ok (c', answer)) : c'.products = c.products ∨
    ∃ p, c.product? p.name = none ∧ c'.products = c.products ++ [p] := by
  cases w with
  | addProduct p =>
      rcases addProduct_eq_ok h with rfl | ⟨hnew, rfl⟩
      · exact .inl rfl
      · exact .inr ⟨p, hnew, rfl⟩
  | add g withLineage now =>
      obtain ⟨added, hadded, ⟨⟩⟩ := map_eq_ok.mp h
      obtain ⟨records, rfl, -, -⟩ := records_of_add hadded
      exact .inl (products_foldl_insert records c)
  | update d rules =>
      obtain ⟨updated, hupdated, ⟨⟩⟩ := map_eq_ok.mp h
      obtain ⟨_, _, -, -, -, -, rfl⟩ := update_eq_ok hupdated
      exact .inl rfl
  | archive ids now =>
      obtain ⟨archived, harchived, ⟨⟩⟩ := map_eq_ok.mp h
      exact .inl (products_adjustAll harchived)
  | restore ids =>
      obtain ⟨restored, hrestored, ⟨⟩⟩ := map_eq_ok.mp h
      exact .inl (products_adjustAll hrestored)
  | archiveLocation id uri =>
      obtain ⟨_, -, -, rfl⟩ := archiveLocation_eq_ok h
      exact .inl rfl
  | removeLocation id uri =>
      obtain ⟨_, -, -, rfl⟩ := removeLocation_eq_ok h
      exact .inl rfl

theorem grows (w : Write α) (h : w.outcome c = .ok (c', answer)) : Grows c c' := by
  refine ⟨fun hp => product?_of_products (w.products h) hp, ?_⟩
  intro id hid
  obtain ⟨before, hbefore⟩ := OrderedMap.contains_iff.mp hid
  obtain ⟨after, hafter, -⟩ := w.exists_revised h hbefore
  exact OrderedMap.contains_iff.mpr ⟨after, hafter⟩

end Write

theorem Registered.outcome (h : c.Registered) {α : Type} {answer : α} (w : Write α)
    (hdone : w.outcome c = .ok (c', answer)) : c'.Registered := by
  intro id after hafter
  have hgrows := w.grows hdone
  rcases w.adds_or_sameSources hdone with ⟨g, withLineage, now, -, hadd⟩ | ⟨hsame, -⟩
  · rcases registered_of_add hadd hafter with hbefore | hregistered
    · obtain ⟨p, hp⟩ := h id after hbefore
      exact ⟨p, hgrows.products hp⟩
    · exact hregistered
  · -- The record was there before, and it had the same product.
    have hrecorded := OrderedMap.contains_iff.mpr ⟨after, hafter⟩
    rw [hsame.contains_eq] at hrecorded
    obtain ⟨before, hbefore⟩ := OrderedMap.contains_iff.mp hrecorded
    obtain ⟨revised, hrevised, hkept⟩ := w.exists_revised hdone hbefore
    cases hrevised.symm.trans hafter
    obtain ⟨p, hp⟩ := h id before hbefore
    exact ⟨p, hkept.product ▸ hgrows.products hp⟩

theorem Registered.serve (h : c.Registered) (r : Request) : (c.serve r).Registered := by
  rcases serve_cases c r with hrefused | ⟨-, answer, hdone⟩
  · rwa [hrefused]
  · exact h.outcome r.write hdone

theorem Registered.serveAll (h : c.Registered) (rs : List Request) :
    (c.serveAll rs).Registered := by
  induction rs generalizing c with
  | nil => exact h
  | cons r rs ih => exact ih (h.serve r)

theorem grows_serve (c : Catalog) (r : Request) : Grows c (c.serve r) := by
  rcases serve_cases c r with hrefused | ⟨-, answer, hdone⟩
  · rw [hrefused]
    exact .refl c
  · exact r.write.grows hdone

theorem grows_serveAll (c : Catalog) (rs : List Request) : Grows c (c.serveAll rs) := by
  induction rs generalizing c with
  | nil => exact .refl c
  | cons r rs ih => exact (grows_serve c r).trans (ih (c.serve r))

/-! ## Opened catalogs -/

theorem registered_of_restore {s : Snapshot} (h : s.restore = .ok c) : c.Registered := by
  obtain ⟨hregistered, rfl⟩ := restore_eq_ok_iff.mp h
  intro id d hd
  rcases find?_foldl_insert s.datasets { empty with products := s.products } id with
    ⟨e, he, -, hfind⟩ | ⟨-, hfind⟩
  · cases hfind.symm.trans hd
    rw [product?, products_foldl_insert]
    exact hregistered d he
  · cases hfind.symm.trans hd

theorem registered_of_ofSnapshot? {text : String} (h : ofSnapshot? text = .ok c) :
    c.Registered := by
  obtain ⟨s, -, -, hs⟩ := ofSnapshot?_eq_ok h
  exact registered_of_restore hs

/-- Whatever a catalog that was opened has served, it answers every question, and a name that has
found a product finds that product from then on. -/
theorem opened_answers_every_read {text : String} (hopened : ofSnapshot? text = .ok c)
    (rs : List Request) :
    (c.serveAll rs).Answering ∧
      ∀ {earlier later : List Request} {name : String} {p : Product}, rs = earlier ++ later →
        (c.serveAll earlier).product? name = some p → (c.serveAll rs).product? name = some p := by
  have hregistered := (registered_of_ofSnapshot? hopened).serveAll rs
  refine ⟨hregistered.readable.answering, ?_⟩
  rintro earlier later name p rfl hp
  rw [Catalog.serveAll, List.foldl_append]
  exact (grows_serveAll (c.serveAll earlier) later).products hp

section Scenes

theorem restorable_sceneCatalog : sceneCatalog.Restorable := by
  intro id d hd
  have hmem : d ∈ sceneCatalog.datasets.values := OrderedMap.mem_values_iff.mpr ⟨id, hd⟩
  cases List.mem_singleton.mp hmem
  exact ⟨⟨sceneProduct, rfl⟩, nofun, nofun⟩

theorem legible_sceneCatalog : sceneCatalog.Legible := by
  rintro _ (@⟨p, hp⟩ | @⟨id, d, hd⟩)
  · cases List.mem_singleton.mp hp
    exact ⟨by decide, Value.readsBack_of_isIntegral _ (by decide)⟩
  · have hmem : d ∈ sceneCatalog.datasets.values := OrderedMap.mem_values_iff.mpr ⟨id, hd⟩
    cases List.mem_singleton.mp hmem
    exact ⟨by decide, Value.readsBack_of_isIntegral _ (by decide)⟩

/-- The scene's catalog is opened from its snapshot and serves the revision and what follows. -/
theorem opened_scene_answers_every_read : ∃ c,
    ofSnapshot? sceneCatalog.snapshot = .ok c ∧ c.product? "scene" = some sceneProduct ∧
      (c.serveAll sceneRequests).Answering ∧
      (c.serveAll sceneRequests).product? "scene" = some sceneProduct := by
  obtain ⟨c, hopened, hproducts, -⟩ :=
    ofSnapshot?_of_legible restorable_sceneCatalog legible_sceneCatalog
  have hscene : c.product? "scene" = some sceneProduct := by
    rw [product?, hproducts]
    rfl
  obtain ⟨hanswering, hkept⟩ := opened_answers_every_read hopened sceneRequests
  exact ⟨c, hopened, hscene, hanswering, hkept (List.nil_append sceneRequests).symm hscene⟩

end Scenes

end DatasetCatalog.Catalog
