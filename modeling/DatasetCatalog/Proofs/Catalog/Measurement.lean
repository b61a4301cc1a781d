import DatasetCatalog.Proofs.Catalog.Curation

/-!
# Who declares the required measurements

The measurements that a product requires are checked of the root of every document that is indexed
and of every candidate for an update. These are the datasets that get a location, and no change of
a curated catalog takes the last one away. What only came along with a graph, as an ancestor, has no
location and is not checked.
-/

namespace DatasetCatalog

/-- The metadata declares every measurement of the product, if it has any. -/
def Layout.Declares (layout : Layout) (metadata : Document) (p : Product) : Prop :=
  p.measurements ≠ [] → ∃ declared, layout.measurementNames? metadata = some declared ∧
    ∀ m ∈ p.measurements, m ∈ declared

theorem Dataset.declares_of_check {d : Dataset} {layout : Layout}
    (h : d.checkMeasurements layout = .ok ()) : layout.Declares d.metadata d.product := by
  intro hsome
  rw [checkMeasurements, if_neg (by simpa using hsome)] at h
  split at h
  next => cases h
  next declared hdeclared =>
    split at h
    next hall => exact ⟨declared, hdeclared, by simpa using hall⟩
    next => cases h

namespace Catalog

variable {layout : Layout} {mode : CaseMode} {brings : ChangeRules → UpdateCandidate → Prop}
  {c c' : Catalog}

/-- Every recorded dataset has a registered product, whose measurements it declares if it has a
location. -/
def Measured (layout : Layout) (c : Catalog) : Prop :=
  ∀ {id : Identity} {d : StoredDataset}, c.datasets.find? id = some d →
    ∃ p, c.product? d.product = some p ∧ (d.locations ≠ [] → layout.Declares d.metadata p)

theorem Change.measured (hchange : Change layout mode brings c c') (h : c.Measured layout) :
    c'.Measured layout := by
  intro id after hafter
  cases hchange.origin hafter with
  | kept before found keeps =>
      obtain ⟨p, hp, hdeclares⟩ := h found
      rw [keeps.product, keeps.metadata, keeps.locations]
      exact ⟨p, hchange.grows.products hp, hdeclares⟩
  | added n new classified identified product metadata locations =>
      rw [product, metadata, locations]
      exact ⟨n.product, hchange.grows.products classified.registered, fun hlocated =>
        n.declares_of_check (classified.measured hlocated)⟩
  | updated before u rules found staged brought identified product sameProduct metadata =>
      rw [product, sameProduct, metadata]
      exact ⟨u.dataset.product, hchange.grows.products staged.registered, fun _ =>
        u.dataset.declares_of_check staged.measured⟩

theorem Chain.measured (hchain : Chain layout mode brings c c') (h : c.Measured layout) :
    c'.Measured layout := by
  induction hchain with
  | refl => exact h
  | tail _ hchange ih => exact hchange.measured ih

/-- A dataset with a location. -/
def Located (c : Catalog) (id : Identity) : Prop :=
  ∃ d, c.datasets.find? id = some d ∧ d.locations ≠ []

/-- The root of a document has its location, whenever its graph is added. -/
theorem located_of_resolved {r : Resolver} {seen : Catalog} {doc : Document} {uri : String}
    {g : DatasetGraph} (hresolve : r.resolveChecked seen doc uri = .ok g) {withLineage : Bool}
    {now : Timestamp} (hadd : c.add g withLineage now = .ok c') :
    ∃ root, g.rootDataset.id = some root ∧ c'.Located root := by
  have hg := (Resolver.resolveChecked_eq_ok hresolve).1
  obtain ⟨hroot, huris⟩ := Resolver.uris_root_of_resolve hg
  have hnode : g.nodes[g.root]? = some g.rootDataset := DatasetGraph.getElem?_node hroot
  obtain ⟨root, _, hid, hnew, -⟩ := add_eq_ok hadd
  obtain ⟨d, hd⟩ := OrderedMap.contains_iff.mp (contains_node_of_add hadd hnode hid)
  refine ⟨root, hid, d, hd, ?_⟩
  rcases origin_of_add hadd hd with hbefore | ⟨k, n, hn, hnid, rfl⟩
  · rw [OrderedMap.contains_iff.mpr ⟨d, hbefore⟩] at hnew
    cases hnew
  · cases (Resolver.ordered_of_resolve hg).unique hn hnode hnid hid
    cases hn.symm.trans hnode
    have hsome : g.rootDataset.uris ≠ [] := huris ▸ List.cons_ne_nil uri []
    exact hsome

/-- What a candidate updates has a location. -/
theorem Staged.located_of_update {u : UpdateCandidate} (hstaged : c.Staged layout u)
    {rules : ChangeRules} {between : Catalog} (hupdate : c.update u.dataset rules = .ok between)
    (hsettled : Settled u between c') : c'.Located u.existing.id := by
  obtain ⟨id, before, hid, hbefore, -⟩ := update_eq_ok hupdate
  cases hstaged.identified.symm.trans hid
  have hsame := (sameSources_update hupdate).trans (sameSources_of_settled hsettled)
  have hrecorded : c'.datasets.contains u.existing.id = true :=
    (hsame.contains_eq _).trans (OrderedMap.contains_iff.mpr ⟨before, hbefore⟩)
  obtain ⟨after, hafter⟩ := OrderedMap.contains_iff.mp hrecorded
  exact ⟨after, hafter, hstaged.located_after hupdate hsettled hafter⟩

theorem Change.located (hchange : Change layout mode brings c c') {id : Identity}
    (h : c.Located id) : c'.Located id := by
  obtain ⟨before, hbefore, hlocated⟩ := h
  have hrecorded := OrderedMap.contains_iff.mpr ⟨before, hbefore⟩
  obtain ⟨after, hafter⟩ := OrderedMap.contains_iff.mp (hchange.contains hrecorded)
  refine ⟨after, hafter, ?_⟩
  cases hchange.origin hafter with
  | kept before' found keeps =>
      cases hbefore.symm.trans found
      rwa [keeps.locations]
  | added n new => cases new.symm.trans hrecorded
  | updated before' u rules found staged brought identified product sameProduct metadata allowed
      located => exact located

theorem Chain.located (hchain : Chain layout mode brings c c') {id : Identity} (h : c.Located id) :
    c'.Located id := by
  induction hchain with
  | refl => exact h
  | tail _ hchange ih => exact hchange.located ih

end Catalog

namespace Curation

variable {layout : Layout} {mode : CaseMode}

/-- In every curation each dataset that has a location declares what its registered product
requires, and it has one from then on. A graph that is added gives its root one, and an update
leaves one. -/
theorem located_declares_measurements (actions more : List Action) {id : Identity}
    {d : StoredDataset} (hd : (run layout mode actions).catalog.datasets.find? id = some d)
    (hlocated : d.locations ≠ []) :
    (∃ p, (run layout mode actions).catalog.product? d.product = some p ∧
      layout.Declares d.metadata p) ∧
      (run layout mode (actions ++ more)).catalog.Located id ∧
      (∀ {r : Resolver} {seen c' : Catalog} {doc uri g withLineage now},
        r.resolveChecked seen doc uri = .ok g →
        (run layout mode actions).catalog.add g withLineage now = .ok c' →
        ∃ root, g.rootDataset.id = some root ∧ c'.Located root) ∧
      ∀ u ∈ (run layout mode actions).candidates, ∀ {rules between c'},
        (run layout mode actions).catalog.update u.dataset rules = .ok between →
        Catalog.Settled u between c' → c'.Located u.existing.id := by
  have hstart : start.Sound layout mode := sound_start
  obtain ⟨hchain, hsound⟩ := hstart.run_any actions
  obtain ⟨p, hp, hdeclares⟩ := hchain.measured (fun h => nomatch h) hd
  refine ⟨⟨p, hp, hdeclares hlocated⟩, ?_, fun hresolve hadd => ?_, fun u hu _ _ _ => ?_⟩
  · rw [run, List.foldl_append]
    exact (hsound.run_any more).1.located ⟨d, hd, hlocated⟩
  · exact Catalog.located_of_resolved hresolve hadd
  · exact (hsound.candidates u hu).located_of_update

section Bands

def bandProduct : Product := ⟨"bands", none, .empty, ["red"]⟩

/-- A scene with its band, made from a raw one that declares none; their identities repeat a
digit. -/
def bandScene : Document := .ofFields
  [("id", .text (String.ofList (List.replicate 32 '1'))),
    ("measurements", .sequence [.text "red"]),
    ("sources", .mapping [("raw", .mapping
      [("id", .text (String.ofList (List.replicate 32 '2')))])])]

def bandLayout : Layout := { sources := .ofKeys ["sources"] }

def bandActions : List Action :=
  [.addProduct bandProduct, .loadRules [] .standard,
    .index 0 ⟨true, false⟩ (fun _ => default) [("scene", bandScene)]]

def sceneId : Identity := ⟨0x11111111111111111111111111111111⟩

def rawId : Identity := ⟨0x22222222222222222222222222222222⟩

/-- The scene declares the band, and will after any further action. -/
theorem scene_declares_bands : ∃ d,
    (run bandLayout .sensitive bandActions).catalog.datasets.find? sceneId = some d ∧
      d.locations = ["scene"] ∧ bandLayout.Declares d.metadata bandProduct ∧
      (run bandLayout .sensitive (bandActions ++ [.restore [sceneId]])).catalog.Located
        sceneId := by
  obtain ⟨⟨p, hp, hdeclares⟩, hlocated, -, -⟩ := @located_declares_measurements bandLayout
    .sensitive bandActions [.restore [sceneId]] sceneId _ rfl (List.cons_ne_nil _ _)
  cases hp
  exact ⟨_, rfl, rfl, hdeclares, hlocated⟩

/-- The raw scene is recorded along with it, without what the product requires. -/
theorem raw_scene_lacks_bands : ∃ d,
    (run bandLayout .sensitive bandActions).catalog.datasets.find? rawId = some d ∧
      (run bandLayout .sensitive bandActions).catalog.product? d.product = some bandProduct ∧
      ¬ bandLayout.Declares d.metadata bandProduct := by
  refine ⟨_, rfl, rfl, fun hdeclares => ?_⟩
  obtain ⟨declared, hdeclared, -⟩ := hdeclares (List.cons_ne_nil _ _)
  cases hdeclared

end Bands

end Curation

end DatasetCatalog
