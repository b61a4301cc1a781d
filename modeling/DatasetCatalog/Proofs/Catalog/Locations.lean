import DatasetCatalog.Proofs.Catalog.Curation
import DatasetCatalog.Proofs.Catalog.Session
import Mathlib.Data.List.Nodup

/-!
# Where a dataset is stored

A record lists its active locations and its archived ones. An update makes locations active, one may
be archived or dropped, and a batch of updates settles the old ones by a policy. Each of these edits
both lists, and what they keep together is that no location is listed twice, in one list or in the
two: a location that is made active leaves the archived ones, and one is archived only if it was
active.
-/

namespace DatasetCatalog

/-- No location is listed twice. -/
structure StoredDataset.Unrepeated (d : StoredDataset) : Prop where
  active : d.locations.Nodup
  archived : d.archivedLocations.Nodup
  apart : d.locations.Disjoint d.archivedLocations

/-- No dataset of the graph has a location twice. -/
def DatasetGraph.Unrepeated (g : DatasetGraph) : Prop := ∀ n ∈ g.nodes, n.uris.Nodup

namespace Catalog

/-- No record lists a location twice. -/
def Unrepeated (c : Catalog) : Prop :=
  ∀ id d, c.datasets.find? id = some d → d.Unrepeated

variable {c c' : Catalog} {d : StoredDataset} {uri : String}

/-! ## One record -/

theorem unrepeated_activate (h : d.Unrepeated) (uri : String) : (activate d uri).Unrepeated := by
  refine ⟨?_, h.archived.filter _, ?_⟩
  · simp only [activate]
    split
    next => exact h.active
    next hnew =>
      rw [← List.concat_eq_append]
      exact h.active.concat hnew
  · intro other hactive harchived
    obtain ⟨hmem, hne⟩ := List.mem_filter.mp harchived
    simp only [activate] at hactive
    split at hactive
    next => exact h.apart hactive hmem
    next =>
      rcases List.mem_append.mp hactive with hbefore | hnew
      · exact h.apart hbefore hmem
      · exact of_decide_eq_true hne (List.mem_singleton.mp hnew)

theorem unrepeated_foldl_activate (h : d.Unrepeated) (uris : List String) :
    (uris.foldl activate d).Unrepeated :=
  List.foldlRecOn uris activate h fun _ hd uri _ => unrepeated_activate hd uri

/-- A location that is archived was active, so it was not archived before. -/
theorem unrepeated_retire (h : d.Unrepeated) (uri : String) : (retire uri d).Unrepeated := by
  refine ⟨h.active.filter _, ?_, ?_⟩
  · simp only [retire]
    split
    next hactive =>
      rw [← List.concat_eq_append]
      exact h.archived.concat (h.apart (List.contains_iff_mem.mp hactive))
    next => exact h.archived
  · intro other hactive harchived
    obtain ⟨hmem, hne⟩ := List.mem_filter.mp hactive
    simp only [retire] at harchived
    split at harchived
    next =>
      rcases List.mem_append.mp harchived with hbefore | hnew
      · exact h.apart hmem hbefore
      · exact of_decide_eq_true hne (List.mem_singleton.mp hnew)
    next => exact h.apart hmem harchived

theorem unrepeated_forget (h : d.Unrepeated) (uri : String) : (forget uri d).Unrepeated := by
  refine ⟨h.active.filter _, h.archived.filter _, ?_⟩
  intro other hactive harchived
  exact h.apart (List.mem_of_mem_filter hactive) (List.mem_of_mem_filter harchived)

/-! ## One request -/

theorem Unrepeated.adjust (h : c.Unrepeated) (id : Identity) {f : StoredDataset → StoredDataset}
    (hf : ∀ d, (f d).id = d.id) (hkeeps : ∀ d, d.Unrepeated → (f d).Unrepeated) :
    (c.adjust id f hf).Unrepeated := by
  intro other after hafter
  obtain ⟨before, hbefore, ⟨-, rfl⟩ | ⟨-, rfl⟩⟩ := find?_of_adjust hafter
  · exact hkeeps before (h other before hbefore)
  · exact h other after hbefore

theorem Unrepeated.adjustAll (h : c.Unrepeated) {ids : List Identity}
    {f : StoredDataset → StoredDataset} {hf : ∀ d, (f d).id = d.id}
    (hdone : c.adjustAll ids f hf = .ok c') (hkeeps : ∀ d, d.Unrepeated → (f d).Unrepeated) :
    c'.Unrepeated := by
  obtain ⟨-, rfl⟩ := adjustAll_eq_ok hdone
  exact List.foldlRecOn ids _ h fun _ hc id _ => hc.adjust id hf hkeeps

theorem Unrepeated.outcome (h : c.Unrepeated) {α : Type} {answer : α} (w : Write α)
    (hgraph : ∀ g ∈ w.graph?, g.Unrepeated) (hdone : w.outcome c = .ok (c', answer)) :
    c'.Unrepeated := by
  cases w with
  | addProduct p =>
      rcases addProduct_eq_ok hdone with rfl | ⟨-, rfl⟩
      · exact h
      · exact h
  | add g withLineage now =>
      obtain ⟨_, hadd, ⟨⟩⟩ := map_eq_ok.mp hdone
      intro id d hd
      rcases origin_of_add hadd hd with hbefore | ⟨k, n, hn, -, rfl⟩
      · exact h id d hbefore
      · have hmem := List.mem_of_getElem? hn
        exact ⟨hgraph g rfl n hmem, List.nodup_nil, List.disjoint_nil_right _⟩
  | update d rules =>
      obtain ⟨_, hupdate, ⟨⟩⟩ := map_eq_ok.mp hdone
      obtain ⟨id, _, -, -, -, -, rfl⟩ := update_eq_ok hupdate
      apply h.adjust
      intro stored hstored
      have hrevised : { stored with metadata := d.metadata : StoredDataset }.Unrepeated :=
        ⟨hstored.active, hstored.archived, hstored.apart⟩
      exact unrepeated_foldl_activate hrevised d.uris
  | archive ids now =>
      obtain ⟨_, harchive, ⟨⟩⟩ := map_eq_ok.mp hdone
      rw [Catalog.archive] at harchive
      exact h.adjustAll harchive fun _ hd => ⟨hd.active, hd.archived, hd.apart⟩
  | restore ids =>
      obtain ⟨_, hrestore, ⟨⟩⟩ := map_eq_ok.mp hdone
      rw [Catalog.restore] at hrestore
      exact h.adjustAll hrestore fun _ hd => ⟨hd.active, hd.archived, hd.apart⟩
  | archiveLocation id uri =>
      obtain ⟨_, -, -, rfl⟩ := archiveLocation_eq_ok hdone
      exact h.adjust id _ fun _ hd => unrepeated_retire hd uri
  | removeLocation id uri =>
      obtain ⟨_, -, -, rfl⟩ := removeLocation_eq_ok hdone
      exact h.adjust id _ fun _ hd => unrepeated_forget hd uri

/-! ## A batch of updates -/

theorem Unrepeated.settled (h : c.Unrepeated) {u : UpdateCandidate} (hsettled : Settled u c c') :
    c'.Unrepeated := by
  rcases hsettled with rfl | ⟨policy, old, new, -, -, hsettle⟩
  · exact h
  cases policy with
  | keep =>
      cases hsettle
      exact h
  | archive =>
      obtain ⟨⟨_, changed⟩, hmoved, rfl⟩ := map_eq_ok.mp hsettle
      exact h.outcome (.archiveLocation u.existing.id old) nofun hmoved
  | forget =>
      obtain ⟨⟨_, changed⟩, hdropped, rfl⟩ := map_eq_ok.mp hsettle
      exact h.outcome (.removeLocation u.existing.id old) nofun hdropped

theorem Unrepeated.apply {p : Updating.Progress} (h : p.catalog.Unrepeated) (o : Updating.Options)
    (u : UpdateCandidate) : (Updating.apply o p u).catalog.Unrepeated := by
  rcases catalog_apply o p u with hsame | ⟨between, -, hupdate, hsettled⟩
  · rwa [hsame]
  · have hbetween : between.Unrepeated :=
      h.outcome (.update u.dataset o.rules) nofun (map_eq_ok.mpr ⟨between, hupdate, rfl⟩)
    exact hbetween.settled hsettled

theorem Unrepeated.updates (h : c.Unrepeated) (o : Updating.Options)
    (candidates : List UpdateCandidate) : (Updating.run o c candidates).catalog.Unrepeated :=
  List.foldlRecOn (motive := fun p => p.catalog.Unrepeated) candidates (Updating.apply o) h
    fun _ hp u _ => hp.apply o u

end Catalog

/-! ## Sessions -/

/-- A resolver gives the root of a graph its location and the other datasets none. -/
theorem Resolver.unrepeated_of_resolve {r : Resolver} {c : Catalog} {d : Document} {uri : String}
    {g : DatasetGraph} (h : r.resolve c d uri = .ok g) : g.Unrepeated := by
  intro n hn
  cases hpolicy : r.policy with
  | follow failOnMissing verify =>
      obtain ⟨lineage, known, earlier, -, -, -, -, hbuilt, -, -⟩ := resolve_built hpolicy h
      obtain ⟨k, hk⟩ := List.mem_iff_getElem?.mp hn
      obtain ⟨i, -, hfor⟩ := hbuilt.exists_node hk
      rw [hfor.uris]
      split
      next => exact List.nodup_singleton uri
      next => exact List.nodup_nil
  | skip =>
      rw [resolve, hpolicy] at h
      obtain ⟨_, _, -, -, rfl⟩ := resolveFlat_eq_ok h
      cases List.mem_singleton.mp hn
      exact List.nodup_singleton uri

theorem Catalog.invariant_unrepeated :
    Invariant DatasetGraph.Unrepeated (fun _ => True) Unrepeated where
  empty := nofun
  resolved := Resolver.unrepeated_of_resolve
  outcome w hgraph _ h hdone := h.outcome w hgraph hdone
  reopened h hc := fun id d hd => h id d (find?_of_snapshot hc id ▸ hd)

namespace Session

/-- An action, or a batch of updates by any candidates. -/
inductive Operation
  | act (a : Action)
  | updates (o : Updating.Options) (candidates : List UpdateCandidate)

def operate (s : Session) : Operation → Session
  | .act a => s.step a
  | .updates o candidates => s.withCatalog (Updating.run o s.catalog candidates).catalog

def runAll (operations : List Operation) : Session := operations.foldl operate start

theorem keeps_runAll (operations : List Operation) :
    (runAll operations).Keeps DatasetGraph.Unrepeated Catalog.Unrepeated := by
  apply List.foldlRecOn operations operate (keeps_start Catalog.invariant_unrepeated)
  intro s hs o _
  cases o with
  | act a => exact hs.step Catalog.invariant_unrepeated fun _ _ => trivial
  | updates o candidates => exact ⟨hs.holds.updates o candidates, hs.graphs, hs.own⟩

/-- However a catalog is used, no record lists a location twice, neither among the active ones nor
among the archived ones, nor as both. -/
theorem locations_never_repeated (operations : List Operation) {id : Identity} {d : StoredDataset}
    (h : (runAll operations).catalog.datasets.find? id = some d) :
    d.locations.Nodup ∧ d.archivedLocations.Nodup ∧ d.locations.Disjoint d.archivedLocations := by
  obtain ⟨hactive, harchived, hapart⟩ := (keeps_runAll operations).holds id d h
  exact ⟨hactive, harchived, hapart⟩

section Layers

/-- The upper one of the two layers, at other locations. -/
def layerAt (uris : List String) : Dataset :=
  { id := some ⟨0x11111111111111111111111111111111⟩
    product := layerProduct
    metadata := layerResolver.layout.withoutLineage layers
    uris
    sources := [] }

/-- The upper layer is found here and there; here is archived, and an update brings it back in place
of the other. -/
def moving : List Operation :=
  [.act (.addProduct layerProduct), .act (.resolve layerResolver layers "here"),
    .act (.add 0 true default), .act (.update (layerAt ["there", "here", "there"]) .empty),
    .act (.archiveLocation ⟨0x11111111111111111111111111111111⟩ "here"),
    .updates ⟨.empty, .archive, false⟩ [⟨layerAt ["here"],
      { (default : Entry) with
        id := ⟨0x11111111111111111111111111111111⟩
        metadata := (layerAt []).metadata
        locations := ["there"] }⟩]]

theorem moving_never_repeated :
    ∃ d, (runAll moving).catalog.datasets.find? ⟨0x11111111111111111111111111111111⟩ = some d ∧
      d.locations = ["here"] ∧ d.archivedLocations = ["there"] ∧ d.locations.Nodup ∧
      d.archivedLocations.Nodup ∧ d.locations.Disjoint d.archivedLocations := by
  obtain ⟨d, hd, hactive, harchived⟩ : ∃ d,
      (runAll moving).catalog.datasets.find? ⟨0x11111111111111111111111111111111⟩ = some d ∧
        d.locations = ["here"] ∧ d.archivedLocations = ["there"] :=
    ⟨_, rfl, rfl, rfl⟩
  exact ⟨d, hd, hactive, harchived, locations_never_repeated moving hd⟩

end Layers

end Session

end DatasetCatalog
