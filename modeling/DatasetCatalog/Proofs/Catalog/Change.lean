import DatasetCatalog.Batch.Updating
import DatasetCatalog.Proofs.Catalog.Ancestry

/-!
# What changes a catalog

Registering a product, adding a graph, updating a dataset, archiving and restoring are all that
changes a curated catalog. `Change` lists them, each with what is known of its argument when it is
used as it should be: that the datasets of a graph were classified, and that a candidate was staged.
`Change.origin` says once where the record of an identity comes from; what holds of every record is
derived from it, and `Chain` carries it from one catalog to any later one.
-/

namespace DatasetCatalog

namespace Catalog

variable {layout : Layout} {mode : CaseMode} {c c' : Catalog}

/-- The product is the one that is registered under its name. -/
def Registers (c : Catalog) (p : Product) : Prop := c.product? p.name = some p

/-- A dataset of a graph has a registered product. Unless its identity is recorded, it contains the
product's signature, and if it has a location, it declares the measurements. -/
structure Classified (layout : Layout) (mode : CaseMode) (c : Catalog) (n : Dataset) : Prop where
  registered : c.Registers n.product
  signed : n.metadata.contains mode n.product.metadata = true ∨
    ∃ id, n.id = some id ∧ c.datasets.contains id = true
  measured : n.uris ≠ [] → n.checkMeasurements layout = .ok ()

/-- A candidate keeps the identity and the registered product of what it replaces, declares the
measurements and has a location. -/
structure Staged (layout : Layout) (c : Catalog) (u : UpdateCandidate) : Prop where
  identified : u.dataset.id = some u.existing.id
  registered : c.Registers u.dataset.product
  measured : u.dataset.checkMeasurements layout = .ok ()
  located : u.dataset.uris ≠ []

/-- The location that a candidate replaces is left alone, or settled for the candidate's own. -/
def Settled (u : UpdateCandidate) (c c' : Catalog) : Prop :=
  c' = c ∨ ∃ policy old new, u.dataset.primaryUri? = some new ∧ new ≠ old ∧
    UpdateCandidate.settle c policy u.existing.id old = .ok c'

/-- Two records with the same product, metadata and locations. -/
structure Keeps (before after : StoredDataset) : Prop where
  product : after.product = before.product
  metadata : after.metadata = before.metadata
  locations : after.locations = before.locations

theorem Keeps.refl (d : StoredDataset) : Keeps d d := ⟨rfl, rfl, rfl⟩

theorem Keeps.trans {d e f : StoredDataset} (h : Keeps d e) (h' : Keeps e f) : Keeps d f :=
  ⟨h'.product.trans h.product, h'.metadata.trans h.metadata, h'.locations.trans h.locations⟩

/-- Everything that changes a curated catalog; `brings` says which updates are among it. -/
inductive Change (layout : Layout) (mode : CaseMode) (brings : ChangeRules → UpdateCandidate → Prop)
    (c : Catalog) : Catalog → Prop
  | register {p p' : Product} {events : List Event} {c' : Catalog} :
    c.addProduct p = .ok (c', p', events) → Change layout mode brings c c'
  | add {g : DatasetGraph} {withLineage : Bool} {now : Timestamp} {c' : Catalog} :
    (∀ n ∈ g.nodes, c.Classified layout mode n) → c.add g withLineage now = .ok c' →
    Change layout mode brings c c'
  | update {u : UpdateCandidate} {rules : ChangeRules} {between c' : Catalog} :
    c.Staged layout u → brings rules u → c.update u.dataset rules = .ok between →
    Settled u between c' → Change layout mode brings c c'
  | archive {ids : List Identity} {now : Timestamp} {c' : Catalog} :
    c.archive ids now = .ok c' → Change layout mode brings c c'
  | restore {ids : List Identity} {c' : Catalog} :
    c.restore ids = .ok c' → Change layout mode brings c c'

/-- One change after the other. -/
abbrev Chain (layout : Layout) (mode : CaseMode) (brings : ChangeRules → UpdateCandidate → Prop) :
    Catalog → Catalog → Prop :=
  Relation.ReflTransGen (Change layout mode brings)

/-- Where the record of `id` after a change comes from. -/
inductive Origin (layout : Layout) (mode : CaseMode)
    (brings : ChangeRules → UpdateCandidate → Prop) (c : Catalog) (id : Identity)
    (after : StoredDataset) : Prop
  /-- It was there before. -/
  | kept (before : StoredDataset) (found : c.datasets.find? id = some before)
    (keeps : Keeps before after)
  /-- It was made for a dataset of a graph. -/
  | added (n : Dataset) (new : c.datasets.contains id = false)
    (classified : c.Classified layout mode n) (identified : n.id = some id)
    (product : after.product = n.product.name) (metadata : after.metadata = n.metadata)
    (locations : after.locations = n.uris)
  /-- It was there before and took its metadata from a candidate. -/
  | updated (before : StoredDataset) (u : UpdateCandidate) (rules : ChangeRules)
    (found : c.datasets.find? id = some before) (staged : c.Staged layout u)
    (brought : brings rules u) (identified : u.dataset.id = some id)
    (product : after.product = before.product)
    (sameProduct : before.product = u.dataset.product.name)
    (metadata : after.metadata = u.dataset.metadata)
    (allowed : ∀ d ∈ before.metadata.changes u.dataset.metadata, rules.allows d = true)
    (located : after.locations ≠ [])

variable {brings : ChangeRules → UpdateCandidate → Prop}

/-! ## Records -/

theorem exists_of_adjustAll {ids : List Identity} {f : StoredDataset → StoredDataset}
    {hf : ∀ d, (f d).id = d.id} (h : c.adjustAll ids f hf = .ok c') (hkeeps : ∀ d, Keeps d (f d))
    {id : Identity} {after : StoredDataset} (hafter : c'.datasets.find? id = some after) :
    ∃ before, c.datasets.find? id = some before ∧ Keeps before after := by
  obtain ⟨-, rfl⟩ := adjustAll_eq_ok h
  clear h
  induction ids generalizing c with
  | nil => exact ⟨after, hafter, .refl after⟩
  | cons first ids ih =>
      obtain ⟨between, hbetween, hsame⟩ := ih hafter
      obtain ⟨before, hbefore, ⟨-, rfl⟩ | ⟨-, rfl⟩⟩ := find?_of_adjust hbetween
      · exact ⟨before, hbefore, (hkeeps before).trans hsame⟩
      · exact ⟨between, hbefore, hsame⟩

theorem mem_locations_activate (d : StoredDataset) (uri : String) :
    uri ∈ (activate d uri).locations ∧ d.locations ⊆ (activate d uri).locations := by
  simp only [activate]
  split
  next h => exact ⟨h, List.Subset.refl _⟩
  next => exact ⟨by simp, by simp⟩

theorem mem_locations_foldl_activate {uris : List String} {uri : String} (d : StoredDataset)
    (h : uri ∈ d.locations ∨ uri ∈ uris) : uri ∈ (uris.foldl activate d).locations := by
  induction uris generalizing d with
  | nil => exact h.elim id nofun
  | cons first uris ih =>
      obtain ⟨hfirst, hmore⟩ := mem_locations_activate d first
      refine ih (activate d first) ?_
      rcases h with h | h
      · exact .inl (hmore h)
      · rcases List.mem_cons.mp h with rfl | h
        · exact .inl hfirst
        · exact .inr h

/-- Settling takes a location out of one record's list, or does nothing. -/
theorem settle_eq_ok {policy : LocationPolicy} {id : Identity} {old : String}
    (h : UpdateCandidate.settle c policy id old = .ok c') :
    c' = c ∨ ∃ f hf, c' = c.adjust id f hf ∧ ∀ d, (f d).product = d.product ∧
      (f d).metadata = d.metadata ∧ (f d).sources = d.sources ∧
      (f d).locations = d.locations.filter (· ≠ old) := by
  cases policy with
  | keep =>
      cases h
      exact .inl rfl
  | archive =>
      obtain ⟨⟨_, changed⟩, hmoved, rfl⟩ := map_eq_ok.mp h
      obtain ⟨_, -, -, rfl⟩ := archiveLocation_eq_ok hmoved
      exact .inr ⟨retire old, fun _ => rfl, rfl, fun _ => ⟨rfl, rfl, rfl, rfl⟩⟩
  | forget =>
      obtain ⟨⟨_, changed⟩, hmoved, rfl⟩ := map_eq_ok.mp h
      obtain ⟨_, -, -, rfl⟩ := removeLocation_eq_ok hmoved
      exact .inr ⟨forget old, fun _ => rfl, rfl, fun _ => ⟨rfl, rfl, rfl, rfl⟩⟩

/-- A settled record keeps every location but one that is not the candidate's first. -/
theorem find?_of_settled {u : UpdateCandidate} (h : Settled u c c') {id : Identity}
    {after : StoredDataset} (hafter : c'.datasets.find? id = some after) :
    ∃ before, c.datasets.find? id = some before ∧ after.product = before.product ∧
      after.metadata = before.metadata ∧
      (id ≠ u.existing.id → after.locations = before.locations) ∧
      ∀ uri, u.dataset.primaryUri? = some uri → uri ∈ before.locations → uri ∈ after.locations := by
  rcases h with rfl | ⟨policy, old, new, hnew, hne, hsettle⟩
  · exact ⟨after, hafter, rfl, rfl, fun _ => rfl, fun _ _ huri => huri⟩
  rcases settle_eq_ok hsettle with rfl | ⟨f, hf, rfl, hfields⟩
  · exact ⟨after, hafter, rfl, rfl, fun _ => rfl, fun _ _ huri => huri⟩
  obtain ⟨before, hbefore, ⟨hid, rfl⟩ | ⟨-, rfl⟩⟩ := find?_of_adjust hafter
  · obtain ⟨hproduct, hmetadata, -, hlocations⟩ := hfields before
    refine ⟨before, hbefore, hproduct, hmetadata, fun hother => (hother hid).elim, ?_⟩
    intro uri huri hmem
    cases hnew.symm.trans huri
    rw [hlocations]
    exact List.mem_filter.mpr ⟨hmem, decide_eq_true hne⟩
  · exact ⟨after, hbefore, rfl, rfl, fun _ => rfl, fun _ _ huri => huri⟩

/-- An updated dataset has a location, whichever it had before. -/
theorem Staged.located_after {u : UpdateCandidate} {rules : ChangeRules} {between : Catalog}
    (hstaged : c.Staged layout u) (hupdate : c.update u.dataset rules = .ok between)
    (hsettled : Settled u between c') {after : StoredDataset}
    (hafter : c'.datasets.find? u.existing.id = some after) : after.locations ≠ [] := by
  obtain ⟨id, _, hid, -, -, -, rfl⟩ := update_eq_ok hupdate
  cases hstaged.identified.symm.trans hid
  obtain ⟨written, hwritten, -, -, -, hlocated⟩ := find?_of_settled hsettled hafter
  obtain ⟨stored, -, ⟨-, rfl⟩ | ⟨hother, -⟩⟩ := find?_of_adjust hwritten
  · obtain ⟨uri, rest, huris⟩ := List.exists_cons_of_ne_nil hstaged.located
    have hmem := hlocated uri (by rw [Dataset.primaryUri?, huris]; rfl)
      (mem_locations_foldl_activate _ (.inr (by rw [huris]; exact List.mem_cons_self)))
    exact List.ne_nil_of_mem hmem
  · exact (hother rfl).elim

/-- An update that is settled is the origin of the updated record, and every other one is kept. -/
theorem Staged.origin {u : UpdateCandidate} {rules : ChangeRules} {between : Catalog}
    (hstaged : c.Staged layout u) (hbrings : brings rules u)
    (hupdate : c.update u.dataset rules = .ok between) (hsettled : Settled u between c')
    {id : Identity} {after : StoredDataset} (hafter : c'.datasets.find? id = some after) :
    Origin layout mode brings c id after := by
  obtain ⟨id', before, hid', hbefore, hname, hallowed, hbetween⟩ := update_eq_ok hupdate
  cases hstaged.identified.symm.trans hid'
  obtain ⟨written, hwritten, hproduct, hmetadata, hother, -⟩ := find?_of_settled hsettled hafter
  rw [hbetween] at hwritten
  obtain ⟨stored, hstored, ⟨rfl, rfl⟩ | ⟨hne, rfl⟩⟩ := find?_of_adjust hwritten
  · cases hbefore.symm.trans hstored
    rw [Dataset.product_revise] at hproduct
    rw [Dataset.metadata_revise] at hmetadata
    exact .updated before u rules hbefore hstaged hbrings hid' hproduct hname hmetadata hallowed
      (hstaged.located_after hupdate hsettled hafter)
  · exact .kept written hstored ⟨hproduct, hmetadata, hother hne⟩

/-- Where a record comes from, whatever changed the catalog. -/
theorem Change.origin (h : Change layout mode brings c c') {id : Identity} {after : StoredDataset}
    (hafter : c'.datasets.find? id = some after) : Origin layout mode brings c id after := by
  cases h with
  | register hadded =>
      refine .kept after ?_ (.refl after)
      rcases addProduct_eq_ok hadded with rfl | ⟨-, rfl⟩
      · exact hafter
      · exact hafter
  | add hclassified hadd =>
      obtain ⟨records, rfl, hrecords, -⟩ := records_of_add hadd
      rcases find?_foldl_insert records c id with ⟨stored, hmem, rfl, hfind⟩ | ⟨-, hfind⟩
      · cases hfind.symm.trans hafter
        obtain ⟨hnew, k, n, hn, hid, heq⟩ := hrecords after hmem
        refine .added n hnew (hclassified n (List.mem_of_getElem? hn)) hid ?_ ?_ ?_ <;> rw [heq] <;>
          rfl
      · exact .kept after (hfind.symm.trans hafter) (.refl after)
  | update hstaged hbrings hupdate hsettled => exact hstaged.origin hbrings hupdate hsettled hafter
  | archive harchive =>
      rw [Catalog.archive] at harchive
      obtain ⟨before, hbefore, hkeeps⟩ :=
        exists_of_adjustAll harchive (fun _ => ⟨rfl, rfl, rfl⟩) hafter
      exact .kept before hbefore hkeeps
  | restore hrestore =>
      rw [Catalog.restore] at hrestore
      obtain ⟨before, hbefore, hkeeps⟩ :=
        exists_of_adjustAll hrestore (fun _ => ⟨rfl, rfl, rfl⟩) hafter
      exact .kept before hbefore hkeeps

/-! ## Growth -/

/-- Registered products and recorded datasets stay. -/
structure Grows (c c' : Catalog) : Prop where
  products : ∀ {name : String} {p : Product}, c.product? name = some p → c'.product? name = some p
  datasets : ∀ {id : Identity}, c.datasets.contains id = true → c'.datasets.contains id = true

theorem Grows.refl (c : Catalog) : Grows c c := ⟨id, id⟩

theorem Grows.trans {c'' : Catalog} (h : Grows c c') (h' : Grows c' c'') : Grows c c'' :=
  ⟨fun hp => h'.products (h.products hp), fun hid => h'.datasets (h.datasets hid)⟩

theorem products_of_settled {u : UpdateCandidate} (h : Settled u c c') :
    c'.products = c.products := by
  rcases h with rfl | ⟨policy, old, new, -, -, hsettle⟩
  · rfl
  rcases settle_eq_ok hsettle with rfl | ⟨f, hf, rfl, -⟩
  · rfl
  · rfl

theorem sameSources_of_settled {u : UpdateCandidate} (h : Settled u c c') : SameSources c c' := by
  rcases h with rfl | ⟨policy, old, new, -, -, hsettle⟩
  · exact fun _ => rfl
  rcases settle_eq_ok hsettle with rfl | ⟨f, hf, rfl, hfields⟩
  · exact fun _ => rfl
  · exact sameSources_adjust _ hf fun d => (hfields d).2.2.1

/-- A product is registered under a new name only, and nothing else touches the products. -/
theorem Change.products (h : Change layout mode brings c c') : c'.products = c.products ∨
    ∃ p, c.product? p.name = none ∧ c'.products = c.products ++ [p] := by
  cases h with
  | register hadded =>
      rcases addProduct_eq_ok hadded with rfl | ⟨hnew, rfl⟩
      · exact .inl rfl
      · exact .inr ⟨_, hnew, rfl⟩
  | add hclassified hadd =>
      obtain ⟨records, rfl, -, -⟩ := records_of_add hadd
      exact .inl (products_foldl_insert records c)
  | update hstaged hbrings hupdate hsettled =>
      obtain ⟨_, _, -, -, -, -, rfl⟩ := update_eq_ok hupdate
      have hproducts := products_of_settled hsettled
      exact .inl hproducts
  | archive harchive => exact .inl (products_adjustAll harchive)
  | restore hrestore => exact .inl (products_adjustAll hrestore)

theorem Change.contains (h : Change layout mode brings c c') {id : Identity}
    (hid : c.datasets.contains id = true) : c'.datasets.contains id = true := by
  cases h with
  | register hadded => rwa [(sameSources_addProduct hadded).contains_eq]
  | add hclassified hadd => exact contains_of_add hadd hid
  | update hstaged hbrings hupdate hsettled =>
      rwa [((sameSources_update hupdate).trans (sameSources_of_settled hsettled)).contains_eq]
  | archive harchive => rwa [(sameSources_archive harchive).contains_eq]
  | restore hrestore => rwa [(sameSources_restore hrestore).contains_eq]

/-- A name that finds a product still finds it when a new name is registered. -/
theorem product?_of_products (h : c'.products = c.products ∨
    ∃ p, c.product? p.name = none ∧ c'.products = c.products ++ [p]) {name : String} {p : Product}
    (hp : c.product? name = some p) : c'.product? name = some p := by
  rcases h with hsame | ⟨q, -, hmore⟩
  · rwa [product?, hsame]
  · rw [product?] at hp
    rw [product?, hmore, List.find?_append, hp]
    rfl

theorem Change.grows (h : Change layout mode brings c c') : Grows c c' :=
  ⟨fun hp => product?_of_products h.products hp, h.contains⟩

theorem Chain.grows (h : Chain layout mode brings c c') : Grows c c' := by
  induction h with
  | refl => exact .refl _
  | tail _ hchange ih => exact ih.trans hchange.grows

theorem Registers.of_grows {p : Product} (h : c.Registers p) (hgrows : Grows c c') :
    c'.Registers p := hgrows.products h

theorem Classified.of_grows {n : Dataset} (h : c.Classified layout mode n) (hgrows : Grows c c') :
    c'.Classified layout mode n := by
  refine ⟨h.registered.of_grows hgrows, ?_, h.measured⟩
  exact h.signed.imp_right fun ⟨id, hid, hrecorded⟩ => ⟨id, hid, hgrows.datasets hrecorded⟩

theorem Staged.of_grows {u : UpdateCandidate} (h : c.Staged layout u) (hgrows : Grows c c') :
    c'.Staged layout u :=
  { h with registered := h.registered.of_grows hgrows }

end Catalog

end DatasetCatalog
