import DatasetCatalog.Proofs.Catalog.Ancestry
import DatasetCatalog.Proofs.Catalog.InPlace

/-!
# The history of a record

A shared catalog serves requests, one after the other, and refuses some of them. `Revised` says what
may become of one record and for which causes. The relation is transitive, so it is enough to find
the causes once for each request: a run of requests, and a request for many datasets, revises a
record for the causes that its parts have.
-/

namespace DatasetCatalog

namespace Catalog

/-- What may become of a record. Its product, its sources and the time of its recording stay, and
the rest is as it was, unless there is a cause: `brought` for the metadata that it has now, `dated`
for another archive time, `moved` for other locations. -/
structure Revised (brought : Document → Prop) (dated moved : Prop) (before after : StoredDataset) :
    Prop where
  product : after.product = before.product
  sources : after.sources = before.sources
  indexed : after.indexed = before.indexed
  metadata : after.metadata = before.metadata ∨ brought after.metadata
  archived : after.archived = before.archived ∨ dated
  locations : after.locations = before.locations ∨ moved
  archivedLocations : after.archivedLocations = before.archivedLocations ∨ moved

namespace Revised

variable {brought brought' : Document → Prop} {dated dated' moved moved' : Prop}
  {before middle after : StoredDataset}

theorem refl (d : StoredDataset) : Revised brought dated moved d d :=
  ⟨rfl, rfl, rfl, .inl rfl, .inl rfl, .inl rfl, .inl rfl⟩

theorem trans (h : Revised brought dated moved before middle)
    (h' : Revised brought dated moved middle after) : Revised brought dated moved before after where
  product := h'.product.trans h.product
  sources := h'.sources.trans h.sources
  indexed := h'.indexed.trans h.indexed
  metadata := h'.metadata.elim (fun hsame => hsame ▸ h.metadata) .inr
  archived := h'.archived.elim (fun hsame => hsame ▸ h.archived) .inr
  locations := h'.locations.elim (fun hsame => hsame ▸ h.locations) .inr
  archivedLocations := h'.archivedLocations.elim (fun hsame => hsame ▸ h.archivedLocations) .inr

theorem imp (h : Revised brought dated moved before after)
    (hbrought : brought after.metadata → brought' after.metadata) (hdated : dated → dated')
    (hmoved : moved → moved') : Revised brought' dated' moved' before after :=
  { h with
    metadata := h.metadata.imp_right hbrought
    archived := h.archived.imp_right hdated
    locations := h.locations.imp_right hmoved
    archivedLocations := h.archivedLocations.imp_right hmoved }

end Revised

variable {c c' : Catalog} {id : Identity} {before : StoredDataset}

/-! ## Changes in place -/

section Adjusting

variable {brought : Document → Prop} {dated moved : Prop} {f : StoredDataset → StoredDataset}
  {hf : ∀ d, (f d).id = d.id}

theorem exists_revised_of_adjust {other : Identity}
    (hrevised : other = id → ∀ d, Revised brought dated moved d (f d))
    (hbefore : c.datasets.find? id = some before) :
    ∃ after, (c.adjust other f hf).datasets.find? id = some after ∧
      Revised brought dated moved before after := by
  by_cases hsame : other = id
  · subst hsame
    exact ⟨f before, find?_adjust_self hbefore, hrevised rfl before⟩
  · refine ⟨before, ?_, .refl before⟩
    rw [find?_adjust_of_ne c (Ne.symm hsame), hbefore]

theorem exists_revised_of_adjustAll {ids : List Identity} (h : c.adjustAll ids f hf = .ok c')
    (hrevised : id ∈ ids → ∀ d, Revised brought dated moved d (f d))
    (hbefore : c.datasets.find? id = some before) :
    ∃ after, c'.datasets.find? id = some after ∧ Revised brought dated moved before after := by
  obtain ⟨-, rfl⟩ := adjustAll_eq_ok h
  clear h
  induction ids generalizing c before with
  | nil => exact ⟨before, hbefore, .refl before⟩
  | cons other ids ih =>
      have hfirst : other = id → ∀ d, Revised brought dated moved d (f d) := by
        intro hsame
        exact hrevised (hsame ▸ List.mem_cons_self)
      obtain ⟨middle, hmiddle, hmade⟩ : ∃ middle,
          (c.adjust other f hf).datasets.find? id = some middle ∧
            Revised brought dated moved before middle :=
        exists_revised_of_adjust hfirst hbefore
      obtain ⟨after, hafter, hrest⟩ :=
        ih (fun hmem => hrevised (List.mem_cons_of_mem other hmem)) hmiddle
      exact ⟨after, hafter, hmade.trans hrest⟩

end Adjusting

/-! ## One request -/

namespace Write

variable {α : Type}

/-- The graph that is added, if one is. -/
def graph? : Write α → Option DatasetGraph
  | .add g _ _ => some g
  | _ => none

/-- The instant that is recorded, if one is. -/
def instant? : Write α → Option Timestamp
  | .add _ _ now | .archive _ now => some now
  | _ => none

/-- The request is to update this dataset to these metadata. -/
def Brings (id : Identity) (metadata : Document) : Write α → Prop
  | .update d _ => d.id = some id ∧ d.metadata = metadata
  | _ => False

/-- The request is to archive or to restore this dataset, perhaps with others. -/
def ArchivesOrRestores (id : Identity) : Write α → Prop
  | .archive ids _ | .restore ids => id ∈ ids
  | _ => False

/-- The request is to update this dataset or to move one of its locations. -/
def Relocates (id : Identity) : Write α → Prop
  | .update d _ => d.id = some id
  | .archiveLocation other _ | .removeLocation other _ => other = id
  | _ => False

/-- Nothing but the addition of a graph touches recorded lineage. -/
theorem adds_or_sameSources {answer : α} (w : Write α) (h : w.outcome c = .ok (c', answer)) :
    (∃ g withLineage now, w.graph? = some g ∧ c.add g withLineage now = .ok c') ∨
      (SameSources c c' ∧ c'.derived = c.derived) := by
  cases w with
  | addProduct p =>
      refine .inr ⟨sameSources_addProduct h, ?_⟩
      rcases addProduct_eq_ok h with rfl | ⟨-, rfl⟩
      · rfl
      · rfl
  | add g withLineage now =>
      obtain ⟨added, hadded, ⟨⟩⟩ := map_eq_ok.mp h
      exact .inl ⟨g, withLineage, now, rfl, hadded⟩
  | update d rules =>
      obtain ⟨updated, hupdated, ⟨⟩⟩ := map_eq_ok.mp h
      refine .inr ⟨sameSources_update hupdated, ?_⟩
      obtain ⟨_, _, -, -, -, -, rfl⟩ := update_eq_ok hupdated
      rfl
  | archive ids now =>
      obtain ⟨archived, harchived, ⟨⟩⟩ := map_eq_ok.mp h
      exact .inr ⟨sameSources_archive harchived, derived_adjustAll harchived⟩
  | restore ids =>
      obtain ⟨restored, hrestored, ⟨⟩⟩ := map_eq_ok.mp h
      exact .inr ⟨sameSources_restore hrestored, derived_adjustAll hrestored⟩
  | archiveLocation id uri =>
      refine .inr ⟨sameSources_archiveLocation h, ?_⟩
      obtain ⟨_, -, -, rfl⟩ := archiveLocation_eq_ok h
      rfl
  | removeLocation id uri =>
      refine .inr ⟨sameSources_removeLocation h, ?_⟩
      obtain ⟨_, -, -, rfl⟩ := removeLocation_eq_ok h
      rfl

/-- A record that is there is there afterwards, revised at most for what the request is. -/
theorem exists_revised {answer : α} (w : Write α) (h : w.outcome c = .ok (c', answer))
    (hbefore : c.datasets.find? id = some before) :
    ∃ after, c'.datasets.find? id = some after ∧
      Revised (w.Brings id) (w.ArchivesOrRestores id) (w.Relocates id) before after := by
  cases w with
  | addProduct p =>
      refine ⟨before, ?_, .refl before⟩
      rcases addProduct_eq_ok h with rfl | ⟨-, rfl⟩
      · exact hbefore
      · exact hbefore
  | add g withLineage now =>
      obtain ⟨added, hadded, ⟨⟩⟩ := map_eq_ok.mp h
      exact ⟨before, find?_of_add hadded hbefore, .refl before⟩
  | update d rules =>
      obtain ⟨updated, hupdated, ⟨⟩⟩ := map_eq_ok.mp h
      obtain ⟨other, _, hother, -, -, -, rfl⟩ := update_eq_ok hupdated
      apply exists_revised_of_adjust _ hbefore
      intro hsame stored
      have hid : d.id = some id := hsame ▸ hother
      exact {
        product := d.product_revise stored
        sources := d.sources_revise stored
        indexed := d.indexed_revise stored
        metadata := .inr ⟨hid, (d.metadata_revise stored).symm⟩
        archived := .inl (d.archived_revise stored)
        locations := .inr hid
        archivedLocations := .inr hid }
  | archive ids now =>
      obtain ⟨archived, harchived, ⟨⟩⟩ := map_eq_ok.mp h
      rw [Catalog.archive] at harchived
      apply exists_revised_of_adjustAll harchived _ hbefore
      intro hmem d
      exact ⟨rfl, rfl, rfl, .inl rfl, .inr hmem, .inl rfl, .inl rfl⟩
  | restore ids =>
      obtain ⟨restored, hrestored, ⟨⟩⟩ := map_eq_ok.mp h
      rw [Catalog.restore] at hrestored
      apply exists_revised_of_adjustAll hrestored _ hbefore
      intro hmem d
      exact ⟨rfl, rfl, rfl, .inl rfl, .inr hmem, .inl rfl, .inl rfl⟩
  | archiveLocation other uri =>
      obtain ⟨_, -, -, rfl⟩ := archiveLocation_eq_ok h
      apply exists_revised_of_adjust _ hbefore
      intro hsame d
      exact ⟨rfl, rfl, rfl, .inl rfl, .inl rfl, .inr hsame, .inr hsame⟩
  | removeLocation other uri =>
      obtain ⟨_, -, -, rfl⟩ := removeLocation_eq_ok h
      apply exists_revised_of_adjust _ hbefore
      intro hsame d
      exact ⟨rfl, rfl, rfl, .inl rfl, .inl rfl, .inr hsame, .inr hsame⟩

end Write

/-! ## A run of requests -/

/-- A request to a shared catalog, with the type of its answer. -/
structure Request : Type 1 where
  {answer : Type}
  write : Write answer

/-- The catalog after a request, which may have been refused. -/
def serve (c : Catalog) (r : Request) : Catalog := (r.write.inPlace.result c).2

def serveAll (c : Catalog) (rs : List Request) : Catalog := rs.foldl serve c

/-- The request is not refused. -/
def Grants (c : Catalog) (r : Request) : Prop := ∃ answer, (r.write.inPlace.result c).1 = .ok answer

/-- One of the requests is of this kind, and it is not refused when its turn comes. -/
def Served (c : Catalog) (rs : List Request) (kind : Request → Prop) : Prop :=
  ∃ earlier r later, rs = earlier ++ r :: later ∧ kind r ∧ (c.serveAll earlier).Grants r

variable {r : Request} {rs : List Request} {kind : Request → Prop}

/-- A request that is refused changes nothing, and one that is granted does what it says. -/
theorem serve_cases (c : Catalog) (r : Request) :
    c.serve r = c ∨ c.Grants r ∧ ∃ answer, r.write.outcome c = .ok (c.serve r, answer) := by
  rw [serve, Grants, r.write.result_inPlace]
  cases r.write.outcome c with
  | error e => exact .inl rfl
  | ok done => exact .inr ⟨⟨done.2, rfl⟩, done.2, rfl⟩

theorem Served.head (hgrants : c.Grants r) (hkind : kind r) : c.Served (r :: rs) kind :=
  ⟨[], r, rs, rfl, hkind, hgrants⟩

theorem Served.tail (h : (c.serve r).Served rs kind) : c.Served (r :: rs) kind := by
  obtain ⟨earlier, q, later, rfl, hkind, hgrants⟩ := h
  exact ⟨r :: earlier, q, later, rfl, hkind, hgrants⟩

/-- What has become of the record of `id` has its causes among the requests that were granted: an
update of the dataset to the metadata that it has now, its archival or restoration, an update or a
move of a location of its own. -/
abbrev RevisedBy (c : Catalog) (rs : List Request) (id : Identity) :
    StoredDataset → StoredDataset → Prop :=
  Revised (fun metadata => c.Served rs fun r => r.write.Brings id metadata)
    (c.Served rs fun r => r.write.ArchivesOrRestores id)
    (c.Served rs fun r => r.write.Relocates id)

/-- Whatever requests a catalog serves, a record that is there stays, with its product, its sources
and the time of its recording. Its metadata are the old ones or those of an update of the dataset,
its archive time is another one only after the dataset was archived or restored, and its locations
are others only after an update or a move, and in each case that request was granted. -/
theorem recorded_history_kept (rs : List Request) (hbefore : c.datasets.find? id = some before) :
    ∃ after, (c.serveAll rs).datasets.find? id = some after ∧ c.RevisedBy rs id before after := by
  induction rs generalizing c before with
  | nil => exact ⟨before, hbefore, .refl before⟩
  | cons r rs ih =>
      rcases serve_cases c r with hrefused | ⟨hgrants, answer, hdone⟩
      · obtain ⟨after, hafter, hrest⟩ := ih (hrefused ▸ hbefore)
        exact ⟨after, hafter, hrest.imp .tail .tail .tail⟩
      · obtain ⟨middle, hmiddle, hfirst⟩ := r.write.exists_revised hdone hbefore
        obtain ⟨after, hafter, hrest⟩ := ih hmiddle
        have hfirst' : c.RevisedBy (r :: rs) id before middle :=
          hfirst.imp (fun h => .head hgrants h) (fun h => .head hgrants h) fun h => .head hgrants h
        exact ⟨after, hafter, hfirst'.trans (hrest.imp .tail .tail .tail)⟩

section Revision

/-- A revision, an attempt to archive the scene together with an unknown one, and the move of the
scene's first location. -/
def sceneRequests : List Request :=
  [⟨.update revisedScene secondBandRule⟩, ⟨.archive [⟨7⟩, ⟨8⟩] ⟨0, 0, 0⟩⟩,
    ⟨.archiveLocation ⟨7⟩ "a"⟩]

/-- The attempt is no cause for another archive time; the others are for what they change. -/
theorem scene_history_kept :
    ∃ before after, sceneCatalog.datasets.find? ⟨7⟩ = some before ∧
      (sceneCatalog.serveAll sceneRequests).datasets.find? ⟨7⟩ = some after ∧
      sceneCatalog.RevisedBy sceneRequests ⟨7⟩ before after ∧
      before.locations = ["a"] ∧ after.archived = before.archived ∧ after.locations = ["b"] ∧
      after.archivedLocations = ["a"] := by
  have hbefore : sceneCatalog.datasets.find? ⟨7⟩ = some _ := rfl
  obtain ⟨after, hafter, hrevised⟩ := recorded_history_kept sceneRequests hbefore
  refine ⟨_, after, hbefore, hafter, hrevised, rfl, ?_⟩
  have hsame : (sceneCatalog.serveAll sceneRequests).datasets.find? ⟨7⟩ = some _ := rfl
  cases hafter.symm.trans hsame
  exact ⟨rfl, rfl, rfl⟩

end Revision

end Catalog

end DatasetCatalog
