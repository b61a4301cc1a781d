import DatasetCatalog.Batch.Indexing
import DatasetCatalog.Catalog.Rules
import DatasetCatalog.Proofs.Catalog.Change
import DatasetCatalog.Proofs.Product.Matching

/-!
# Curated catalogs

A curation starts from the empty catalog and registers products, loads rules, resolves and indexes
documents, stages and applies updates, archives and restores. It keeps every resolver, graph and
candidate that it made, so that each may be used long after the catalog it was made against. With
one layout and one case mode throughout, all of them stay as good as they were when they were made,
and every action of a curation is a chain of changes.
-/

namespace DatasetCatalog

/-- A catalog with the resolvers, graphs and candidates that were made from it so far. -/
structure Curation where
  catalog : Catalog
  resolvers : List Resolver
  graphs : List DatasetGraph
  candidates : List UpdateCandidate

namespace Curation

/-- Resolvers, graphs and candidates are named by their place in the curation. -/
inductive Action
  | addProduct (p : Product)
  /-- Rules of the named products, or of all, make a resolver. -/
  | loadRules (names : List String) (policy : LineagePolicy)
  /-- Resolves documents and keeps the graphs of those that resolve. -/
  | load (resolver : Nat) (docs : List (String × Document))
  /-- Indexes a graph that was kept. -/
  | add (graph : Nat) (o : Indexing.Options) (now : Timestamp)
  /-- Resolves and indexes documents, one after the other. -/
  | index (resolver : Nat) (o : Indexing.Options) (clock : Nat → Timestamp)
    (docs : List (String × Document))
  /-- Makes a candidate of a document. -/
  | stage (d : Document) (uri : String)
  | update (candidates : List Nat) (o : Updating.Options)
  | archive (ids : List Identity) (now : Timestamp)
  | restore (ids : List Identity)

def start : Curation := ⟨.empty, [], [], []⟩

def withCatalog (s : Curation) (c : Catalog) : Curation := { s with catalog := c }

/-- The candidates with these numbers. -/
def chosen (s : Curation) (candidates : List Nat) : List UpdateCandidate :=
  candidates.filterMap fun i => s.candidates[i]?

/-- The resolver of the rules that the catalog has now. -/
def resolver (s : Curation) (layout : Layout) (mode : CaseMode) (names : List String)
    (policy : LineagePolicy) : Option Resolver :=
  (s.catalog.rules names).toOption.bind fun rules =>
    (Matcher.ofRules rules mode layout).toOption.map fun matcher => ⟨matcher, policy⟩

section Running

variable (layout : Layout) (mode : CaseMode)

/-- The curation after an action that succeeds. -/
def perform? (s : Curation) : Action → Option Curation
  | .addProduct p => (s.catalog.addProduct p).toOption.map fun added => s.withCatalog added.1
  | .loadRules names policy =>
    (s.resolver layout mode names policy).map fun r => { s with resolvers := s.resolvers ++ [r] }
  | .load resolver docs =>
    s.resolvers[resolver]?.map fun r =>
      { s with graphs := s.graphs ++ (Indexing.load r s.catalog docs).1 }
  | .add graph o now =>
    s.graphs[graph]?.map fun g =>
      s.withCatalog (Indexing.addGraph o now ⟨s.catalog, {}, 0, []⟩ g).catalog
  | .index resolver o clock docs =>
    s.resolvers[resolver]?.map fun r =>
      s.withCatalog (Indexing.run r o clock s.catalog docs).catalog
  | .stage d uri =>
    (UpdateCandidate.load s.catalog layout d uri).toOption.map fun u =>
      { s with candidates := s.candidates ++ [u] }
  | .update candidates o =>
    some (s.withCatalog (Updating.run o s.catalog (s.chosen candidates)).catalog)
  | .archive ids now => (s.catalog.archive ids now).toOption.map s.withCatalog
  | .restore ids => (s.catalog.restore ids).toOption.map s.withCatalog

/-- An action that fails changes nothing. -/
def step (s : Curation) (a : Action) : Curation := (s.perform? layout mode a).getD s

def run (actions : List Action) : Curation := actions.foldl (step layout mode) start

end Running

end Curation

namespace UpdateCandidate

/-- If the catalog accepts the update and it is no dry run, `brings` admits it. -/
def BringsTo (u : UpdateCandidate) (c : Catalog) (brings : ChangeRules → UpdateCandidate → Prop)
    (o : Updating.Options) : Prop :=
  o.dryRun = false → ∀ {c'}, c.update u.dataset o.rules = .ok c' → brings o.rules u

/-- The updates that a batch writes, each when its turn comes, are among those that `brings`
admits. -/
def AllBringTo (brings : ChangeRules → UpdateCandidate → Prop) (o : Updating.Options) :
    Updating.Progress → List UpdateCandidate → Prop
  | _, [] => True
  | p, u :: rest => u.BringsTo p.catalog brings o ∧ AllBringTo brings o (Updating.apply o p u) rest

theorem allBringTo_of_forall {brings : ChangeRules → UpdateCandidate → Prop}
    (h : ∀ rules u, brings rules u) (o : Updating.Options) (p : Updating.Progress)
    (candidates : List UpdateCandidate) : AllBringTo brings o p candidates := by
  induction candidates generalizing p with
  | nil => trivial
  | cons u candidates ih => exact ⟨fun _ _ _ => h _ u, ih _⟩

end UpdateCandidate

namespace Catalog

variable {layout : Layout} {mode : CaseMode} {brings : ChangeRules → UpdateCandidate → Prop}
  {c c' : Catalog}

/-! ## Products and resolvers -/

/-- Every product is the one that its name finds. -/
def Distinct (c : Catalog) : Prop := ∀ p ∈ c.products, c.Registers p

theorem distinct_empty : empty.Distinct := nofun

theorem Change.distinct (hchange : Change layout mode brings c c') (h : c.Distinct) :
    c'.Distinct := by
  intro p hp
  rcases hchange.products with hsame | ⟨q, hnew, hmore⟩
  · rw [hsame] at hp
    exact (h p hp).of_grows hchange.grows
  · rw [hmore] at hp
    rcases List.mem_append.mp hp with hp | hp
    · exact (h p hp).of_grows hchange.grows
    · cases List.mem_singleton.mp hp
      rw [product?] at hnew
      rw [Registers, product?, hmore, List.find?_append, hnew]
      simp

theorem Chain.distinct (hchain : Chain layout mode brings c c') (h : c.Distinct) : c'.Distinct := by
  induction hchain with
  | refl => exact h
  | tail _ hchange ih => exact hchange.distinct ih

/-- The resolver works with this layout and mode and with rules of registered products. -/
structure Equips (layout : Layout) (mode : CaseMode) (c : Catalog) (r : Resolver) : Prop where
  layout : r.layout = layout
  mode : r.matcher.mode = mode
  rules : ∀ rule ∈ r.matcher.rules, ∃ p, c.Registers p ∧ rule = .ofProduct p

theorem Equips.of_grows {r : Resolver} (h : c.Equips layout mode r) (hgrows : Grows c c') :
    c'.Equips layout mode r := by
  refine ⟨h.layout, h.mode, fun rule hrule => ?_⟩
  obtain ⟨p, hp, hrule⟩ := h.rules rule hrule
  exact ⟨p, hp.of_grows hgrows, hrule⟩

theorem namedProduct_eq_ok_iff {name : String} {p : Product} :
    c.namedProduct name = .ok p ↔ p.name = name ∧ c.Registers p := by
  rw [namedProduct, Registers]
  constructor
  · intro h
    split at h
    next found hfound =>
      cases h
      exact ⟨product?_name hfound, product?_name hfound ▸ hfound⟩
    next => cases h
  · rintro ⟨rfl, hp⟩
    rw [hp]

/-- The rules are those of some products, which are all of them or those that the names find. -/
theorem rules_eq_ok {names : List String} {rules : List ProductRule} (h : c.rules names = .ok rules) :
    ∃ products : List Product, products ≠ [] ∧ rules = products.map .ofProduct ∧
      ((names = [] ∧ products = c.products) ∨
        (names ≠ [] ∧ products.map Product.name = names ∧ ∀ p ∈ products, c.Registers p)) := by
  have hlisted : ∃ products : List Product, ((names = [] ∧ products = c.products) ∨
      (names ≠ [] ∧ products.map Product.name = names ∧ ∀ p ∈ products, c.Registers p)) ∧
      (if products.isEmpty then .error .noProducts else .ok (products.map .ofProduct)) =
        (.ok rules : Except RulesError (List ProductRule)) := by
    rw [Catalog.rules] at h
    split at h
    next hnone => exact ⟨c.products, .inl ⟨List.isEmpty_iff.mp hnone, rfl⟩, h⟩
    next hsome =>
      obtain ⟨products, hproducts, h⟩ := bind_eq_ok.mp h
      simp only [mapM_eq_ok, namedProduct_eq_ok_iff] at hproducts
      refine ⟨products, .inr ⟨by simpa using hsome, ?_, fun p hp => ?_⟩, h⟩
      · exact List.forall₂_eq_eq_eq ▸ List.forall₂_map_left_iff.mpr
          (hproducts.flip.imp fun _ _ hname => hname.1)
      · obtain ⟨_, -, -, hregistered⟩ := exists_of_mem_right hproducts hp
        exact hregistered
  obtain ⟨products, hlisted, h⟩ := hlisted
  split at h
  next => cases h
  next hsome =>
    cases h
    exact ⟨products, by simpa using hsome, rfl, hlisted⟩

theorem Distinct.rules {names : List String} {rules : List ProductRule} (hdistinct : c.Distinct)
    (h : c.rules names = .ok rules) : ∀ rule ∈ rules, ∃ p, c.Registers p ∧ rule = .ofProduct p := by
  obtain ⟨products, -, rfl, hlisted⟩ := rules_eq_ok h
  intro rule hrule
  obtain ⟨p, hp, rfl⟩ := List.mem_map.mp hrule
  rcases hlisted with ⟨-, rfl⟩ | ⟨-, -, hregistered⟩
  · exact ⟨p, hdistinct p hp, rfl⟩
  · exact ⟨p, hregistered p hp, rfl⟩

/-! ## Graphs and candidates -/

/-- A matched dataset contains the signature of its registered product. -/
theorem Equips.of_match {r : Resolver} (h : c.Equips layout mode r) {d : Document} {p : Product}
    (hmatch : r.matcher.matchDocument d = .ok p) :
    c.Registers p ∧ d.contains mode p.metadata = true := by
  obtain ⟨-, rule, hrule, hcontains, rfl⟩ := Matcher.matchDocument_eq_ok_iff.mp hmatch
  obtain ⟨p, hp, rfl⟩ := h.rules rule hrule
  rw [h.mode] at hcontains
  exact ⟨hp, hcontains⟩

theorem registers_of_entry {d : StoredDataset} {e : Entry} (h : c.entry d = .ok e) :
    c.Registers e.product ∧ e.product.name = d.product := by
  obtain ⟨p, hp, rfl⟩ := entry_eq_ok h
  have hname := product?_name hp
  refine ⟨?_, hname⟩
  rw [Registers, hname]
  exact hp

open Resolver in
theorem Equips.of_classifies {r : Resolver} (h : c.Equips layout mode r) {n : Dataset}
    (hclassifies : Classifies r c n)
    (hmeasured : n.uris ≠ [] → n.checkMeasurements layout = .ok ()) :
    c.Classified layout mode n := by
  rcases hclassifies with ⟨id, e, hid, hget, hproduct⟩ | ⟨-, hmatch⟩
  · obtain ⟨d, hd, he⟩ := get?_eq_some hget
    refine ⟨hproduct ▸ (registers_of_entry he).1, .inr ⟨id, hid, ?_⟩, hmeasured⟩
    exact OrderedMap.contains_iff.mpr ⟨d, hd⟩
  · obtain ⟨hp, hcontains⟩ := h.of_match hmatch
    exact ⟨hp, .inl hcontains, hmeasured⟩

/-- Only the root of a graph has a location. -/
theorem uris_eq_nil_of_built {r : Resolver} {known : OrderedMap Identity Entry} {g : LineageGraph}
    {uri : String} {earlier : List Nat} {datasets : List Dataset}
    (h : Resolver.Built r known g uri (earlier ++ [0]) datasets)
    (hperm : (earlier ++ [0]).Perm (List.range g.size)) {k : Nat} {n : Dataset}
    (hn : datasets[k]? = some n) (hk : k ≠ earlier.length) : n.uris = [] := by
  obtain ⟨i, hi, hfor⟩ := h.exists_node hn
  rw [hfor.uris, if_neg]
  rintro rfl
  have hlt := (List.getElem?_eq_some_iff.mp hi).1
  refine hk ((List.getElem?_inj hlt (hperm.nodup_iff.mpr List.nodup_range)).mp ?_)
  rw [hi, List.getElem?_concat_length]

/-- Every dataset of a checked graph is classified. -/
theorem Equips.classified {r : Resolver} (h : c.Equips layout mode r) {d : Document} {uri : String}
    {g : DatasetGraph} (hresolve : r.resolveChecked c d uri = .ok g) :
    ∀ n ∈ g.nodes, c.Classified layout mode n := by
  obtain ⟨hg, hmeasured⟩ := Resolver.resolveChecked_eq_ok hresolve
  rw [h.layout] at hmeasured
  intro n hn
  cases hpolicy : r.policy with
  | follow failOnMissing verify =>
      obtain ⟨lineage, known, earlier, -, hknown, hperm, hroot, hbuilt, -, -⟩ :=
        Resolver.resolve_built hpolicy hg
      obtain ⟨k, hk⟩ := List.mem_iff_getElem?.mp hn
      obtain ⟨i, hi, hfor⟩ := hbuilt.exists_node hk
      have hlt : i < lineage.size :=
        List.mem_range.mp (hperm.mem_iff.mp (List.mem_of_getElem? hi))
      refine h.of_classifies (hfor.classifies hknown hlt) fun huris => ?_
      have hkroot : k = g.root := by
        rw [hroot]
        by_contra hne
        exact huris (uris_eq_nil_of_built hbuilt hperm hk hne)
      rw [DatasetGraph.rootDataset, DatasetGraph.node, List.getD_eq_getElem?_getD, ← hkroot,
        hk] at hmeasured
      exact hmeasured
  | skip =>
      rw [Resolver.resolve, hpolicy] at hg
      obtain ⟨id, p, -, hmatch, rfl⟩ := Resolver.resolveFlat_eq_ok hg
      cases List.mem_singleton.mp hn
      obtain ⟨hp, hcontains⟩ := h.of_match hmatch
      exact ⟨hp, .inl hcontains, fun _ => hmeasured⟩

theorem staged_of_load {d : Document} {uri : String} {u : UpdateCandidate}
    (h : UpdateCandidate.load c layout d uri = .ok u) : c.Staged layout u := by
  rw [UpdateCandidate.load] at h
  split at h
  next => cases h
  next => cases h
  next id _ =>
    split at h
    next => cases h
    next => cases h
    next existing hget =>
      dsimp only at h
      split at h
      next => cases h
      next hmeasured =>
        cases h
        obtain ⟨stored, hstored, hentry⟩ := get?_eq_some hget
        refine ⟨?_, (registers_of_entry hentry).1, hmeasured, List.cons_ne_nil _ _⟩
        rw [entry_id hentry, c.keyed id stored hstored]

/-! ## Batches -/

theorem chain_addGraph {o : Indexing.Options} {now : Timestamp} {p : Indexing.Progress}
    {g : DatasetGraph} (h : ∀ n ∈ g.nodes, p.catalog.Classified layout mode n) :
    Chain layout mode brings p.catalog (Indexing.addGraph o now p g).catalog := by
  simp only [Indexing.addGraph]
  split
  next => exact .refl
  next =>
    split
    next hadd => exact .single (.add h hadd)
    next => exact .refl

theorem chain_addDocument {r : Resolver} {o : Indexing.Options} {now : Timestamp}
    {p : Indexing.Progress} {d : String × Document} (h : p.catalog.Equips layout mode r) :
    Chain layout mode brings p.catalog (Indexing.addDocument r o now p d).catalog := by
  rw [Indexing.addDocument]
  split
  next hresolve => exact chain_addGraph (h.classified hresolve)
  next => exact .refl

theorem chain_index {r : Resolver} {o : Indexing.Options} {clock : Nat → Timestamp}
    {docs : List (String × Document)} (h : c.Equips layout mode r) :
    Chain layout mode brings c (Indexing.run r o clock c docs).catalog := by
  have hfold : ∀ (docs : List ((String × Document) × Nat)) (p : Indexing.Progress),
      p.catalog.Equips layout mode r → Chain layout mode brings p.catalog
        (docs.foldl (fun p d => Indexing.addDocument r o (clock d.2) p d.1) p).catalog := by
    intro docs
    induction docs with
    | nil => exact fun _ _ => .refl
    | cons d docs ih =>
        intro p hp
        have hfirst : Chain layout mode brings p.catalog
            (Indexing.addDocument r o (clock d.2) p d.1).catalog := chain_addDocument hp
        exact hfirst.trans (ih _ (hp.of_grows hfirst.grows))
  exact hfold docs.zipIdx ⟨c, {}, 0, []⟩ h

theorem reconcile_eq_ok {u : UpdateCandidate} {policy : LocationPolicy} {dryRun : Bool}
    {outcome : LocationOutcome} {events : List Event}
    (h : u.reconcile c policy dryRun = .ok (c', outcome, events)) :
    c' = c ∨ (dryRun = false ∧ Settled u c c') := by
  rw [UpdateCandidate.reconcile] at h
  split at h
  next => cases h; exact .inl rfl
  next =>
    split at h
    next => cases h; exact .inl rfl
    next old _ =>
      split at h
      next => cases h; exact .inl rfl
      next new hnew =>
        split at h
        next => cases h; exact .inl rfl
        next hne =>
          split at h
          next => cases h; exact .inl rfl
          next hdry =>
            obtain ⟨between, hsettle, ⟨⟩⟩ := map_eq_ok.mp h
            exact .inr ⟨Bool.eq_false_iff.mpr hdry, .inr ⟨policy, old, new, hnew, hne, hsettle⟩⟩
    next => cases h; exact .inl rfl

theorem finish_catalog (o : Updating.Options) (u : UpdateCandidate) (p : Updating.Progress) :
    (Updating.finish o u p).catalog = p.catalog ∨
      (o.dryRun = false ∧ Settled u p.catalog (Updating.finish o u p).catalog) := by
  rw [Updating.finish]
  split
  next => exact .inl rfl
  next hreconcile => exact reconcile_eq_ok hreconcile

/-- A dry run leaves the catalog, and what an update leaves is what its location was settled in. -/
theorem catalog_apply (o : Updating.Options) (p : Updating.Progress) (u : UpdateCandidate) :
    (Updating.apply o p u).catalog = p.catalog ∨
      ∃ between, o.dryRun = false ∧ p.catalog.update u.dataset o.rules = .ok between ∧
        Settled u between (Updating.apply o p u).catalog := by
  simp only [Updating.apply]
  split
  next hdry =>
    split
    next => exact .inl rfl
    next =>
      split
      next =>
        rcases finish_catalog o u ((p.emit _).emit _) with hsame | ⟨hwet, -⟩
        · exact .inl hsame
        · cases hdry.symm.trans hwet
      next => exact .inl rfl
  next hwet =>
    split
    next => exact .inl rfl
    next between hupdate =>
      refine .inr ⟨between, Bool.eq_false_iff.mpr hwet, hupdate, ?_⟩
      rcases finish_catalog o u _ with hsame | ⟨-, hsettled⟩
      · exact .inl hsame
      · exact hsettled

theorem chain_apply {o : Updating.Options} {p : Updating.Progress} {u : UpdateCandidate}
    (hstaged : p.catalog.Staged layout u) (hbrings : u.BringsTo p.catalog brings o) :
    Chain layout mode brings p.catalog (Updating.apply o p u).catalog := by
  rcases catalog_apply o p u with hsame | ⟨between, hwet, hupdate, hsettled⟩
  · rw [hsame]
  · exact .single (.update hstaged (hbrings hwet hupdate) hupdate hsettled)

theorem chain_update {o : Updating.Options} {candidates : List UpdateCandidate}
    {p : Updating.Progress} (hstaged : ∀ u ∈ candidates, p.catalog.Staged layout u)
    (hbrings : UpdateCandidate.AllBringTo brings o p candidates) :
    Chain layout mode brings p.catalog (candidates.foldl (Updating.apply o) p).catalog := by
  induction candidates generalizing p with
  | nil => exact .refl
  | cons u candidates ih =>
      have hfirst : Chain layout mode brings p.catalog (Updating.apply o p u).catalog :=
        chain_apply (hstaged u List.mem_cons_self) hbrings.1
      refine hfirst.trans (ih (fun v hv => ?_) hbrings.2)
      exact (hstaged v (List.mem_cons_of_mem _ hv)).of_grows hfirst.grows

end Catalog

namespace Curation

variable {layout : Layout} {mode : CaseMode} {brings : ChangeRules → UpdateCandidate → Prop}
  {s s' : Curation}

open Catalog

/-- What the curation keeps still fits its catalog. -/
structure Sound (layout : Layout) (mode : CaseMode) (s : Curation) : Prop where
  distinct : s.catalog.Distinct
  resolvers : ∀ r ∈ s.resolvers, s.catalog.Equips layout mode r
  graphs : ∀ g ∈ s.graphs, ∀ n ∈ g.nodes, s.catalog.Classified layout mode n
  candidates : ∀ u ∈ s.candidates, s.catalog.Staged layout u

/-- The updates that the action writes are among those that `brings` admits. -/
def Brings (brings : ChangeRules → UpdateCandidate → Prop) (s : Curation) : Action → Prop
  | .update candidates o =>
    UpdateCandidate.AllBringTo brings o ⟨s.catalog, {}, []⟩ (s.chosen candidates)
  | _ => True

theorem brings_of_forall (h : ∀ rules u, brings rules u) (s : Curation) (a : Action) :
    s.Brings brings a := by
  cases a
  case update => exact UpdateCandidate.allBringTo_of_forall h _ _ _
  all_goals trivial

theorem sound_start : start.Sound layout mode :=
  ⟨distinct_empty, nofun, nofun, nofun⟩

theorem Sound.withCatalog (h : s.Sound layout mode) {c : Catalog}
    (hchain : Chain layout mode brings s.catalog c) : (s.withCatalog c).Sound layout mode where
  distinct := hchain.distinct h.distinct
  resolvers r hr := (h.resolvers r hr).of_grows hchain.grows
  graphs g hg n hn := (h.graphs g hg n hn).of_grows hchain.grows
  candidates u hu := (h.candidates u hu).of_grows hchain.grows

theorem Sound.resolver (h : s.Sound layout mode) {names : List String} {policy : LineagePolicy}
    {r : Resolver} (hr : s.resolver layout mode names policy = some r) :
    s.catalog.Equips layout mode r := by
  obtain ⟨rules, hrules, hr⟩ := Option.bind_eq_some_iff.mp hr
  obtain ⟨matcher, hmatcher, rfl⟩ := toOption_map_eq_some.mp hr
  rw [Matcher.ofRules] at hmatcher
  split at hmatcher
  next =>
    cases hmatcher
    exact ⟨rfl, rfl, h.distinct.rules (toOption_eq_some.mp hrules)⟩
  next => cases hmatcher

theorem mem_chosen {candidates : List Nat} {u : UpdateCandidate} (h : u ∈ s.chosen candidates) :
    u ∈ s.candidates := by
  obtain ⟨i, -, hi⟩ := List.mem_filterMap.mp h
  exact List.mem_of_getElem? hi

/-- An action changes the catalog step by step, and leaves everything that is kept fitting. -/
theorem Sound.perform? (h : s.Sound layout mode) {a : Action}
    (hs : s.perform? layout mode a = some s') (hbrings : s.Brings brings a) :
    Chain layout mode brings s.catalog s'.catalog ∧ s'.Sound layout mode := by
  cases a with
  | addProduct p =>
      obtain ⟨added, hadded, rfl⟩ := toOption_map_eq_some.mp hs
      have hchain : Chain layout mode brings s.catalog added.1 := .single (.register hadded)
      exact ⟨hchain, h.withCatalog hchain⟩
  | loadRules names policy =>
      obtain ⟨r, hr, rfl⟩ := Option.map_eq_some_iff.mp hs
      refine ⟨.refl, { h with resolvers := ?_ }⟩
      intro r' hr'
      rcases List.mem_append.mp hr' with hr' | hr'
      · exact h.resolvers r' hr'
      · cases List.mem_singleton.mp hr'
        exact h.resolver hr
  | load resolver docs =>
      obtain ⟨r, hr, rfl⟩ := Option.map_eq_some_iff.mp hs
      refine ⟨.refl, { h with graphs := ?_ }⟩
      intro g hg
      rcases List.mem_append.mp hg with hg | hg
      · exact h.graphs g hg
      · obtain ⟨result, hresult, hok⟩ := List.mem_filterMap.mp hg
        obtain ⟨d, -, rfl⟩ := List.mem_map.mp hresult
        exact (h.resolvers r (List.mem_of_getElem? hr)).classified (toOption_eq_some.mp hok)
  | add graph o now =>
      obtain ⟨g, hg, rfl⟩ := Option.map_eq_some_iff.mp hs
      have hchain : Chain layout mode brings s.catalog
          (Indexing.addGraph o now ⟨s.catalog, {}, 0, []⟩ g).catalog :=
        chain_addGraph (p := ⟨s.catalog, {}, 0, []⟩) (h.graphs g (List.mem_of_getElem? hg))
      exact ⟨hchain, h.withCatalog hchain⟩
  | index resolver o clock docs =>
      obtain ⟨r, hr, rfl⟩ := Option.map_eq_some_iff.mp hs
      have hchain : Chain layout mode brings s.catalog
          (Indexing.run r o clock s.catalog docs).catalog :=
        chain_index (h.resolvers r (List.mem_of_getElem? hr))
      exact ⟨hchain, h.withCatalog hchain⟩
  | stage d uri =>
      obtain ⟨u, hu, rfl⟩ := toOption_map_eq_some.mp hs
      refine ⟨.refl, { h with candidates := ?_ }⟩
      intro v hv
      rcases List.mem_append.mp hv with hv | hv
      · exact h.candidates v hv
      · cases List.mem_singleton.mp hv
        exact staged_of_load hu
  | update candidates o =>
      cases hs
      have hchain : Chain layout mode brings s.catalog
          (Updating.run o s.catalog (s.chosen candidates)).catalog :=
        chain_update (p := ⟨s.catalog, {}, []⟩) (fun u hu => h.candidates u (mem_chosen hu))
          hbrings
      exact ⟨hchain, h.withCatalog hchain⟩
  | archive ids now =>
      obtain ⟨c, hc, rfl⟩ := toOption_map_eq_some.mp hs
      have hchain : Chain layout mode brings s.catalog c := .single (.archive hc)
      exact ⟨hchain, h.withCatalog hchain⟩
  | restore ids =>
      obtain ⟨c, hc, rfl⟩ := toOption_map_eq_some.mp hs
      have hchain : Chain layout mode brings s.catalog c := .single (.restore hc)
      exact ⟨hchain, h.withCatalog hchain⟩

theorem Sound.step (h : s.Sound layout mode) (a : Action) (hbrings : s.Brings brings a) :
    Chain layout mode brings s.catalog (s.step layout mode a).catalog ∧
      (s.step layout mode a).Sound layout mode := by
  rw [Curation.step]
  cases hs : s.perform? layout mode a with
  | none => exact ⟨.refl, h⟩
  | some s' => exact h.perform? hs hbrings

/-- The updates that the actions write, each when its turn comes, are among those that `brings`
admits. -/
def AllBring (layout : Layout) (mode : CaseMode) (brings : ChangeRules → UpdateCandidate → Prop) :
    Curation → List Action → Prop
  | _, [] => True
  | s, a :: actions =>
    s.Brings brings a ∧ AllBring layout mode brings (s.step layout mode a) actions

theorem allBring_of_forall (h : ∀ rules u, brings rules u) (s : Curation) (actions : List Action) :
    s.AllBring layout mode brings actions := by
  induction actions generalizing s with
  | nil => trivial
  | cons a actions ih => exact ⟨brings_of_forall h s a, ih _⟩

/-- Any number of actions change the catalog step by step, and the curation stays sound. -/
theorem Sound.run (h : s.Sound layout mode) {actions : List Action}
    (hbrings : s.AllBring layout mode brings actions) :
    Chain layout mode brings s.catalog (actions.foldl (Curation.step layout mode) s).catalog ∧
      (actions.foldl (Curation.step layout mode) s).Sound layout mode := by
  induction actions generalizing s with
  | nil => exact ⟨.refl, h⟩
  | cons a actions ih =>
      obtain ⟨hfirst, hnext⟩ := h.step a hbrings.1
      obtain ⟨hrest, hlast⟩ := ih hnext hbrings.2
      exact ⟨hfirst.trans hrest, hlast⟩

/-- Whatever updates are brought. -/
theorem Sound.run_any (h : s.Sound layout mode) (actions : List Action) :
    Chain layout mode (fun _ _ => True) s.catalog
        (actions.foldl (Curation.step layout mode) s).catalog ∧
      (actions.foldl (Curation.step layout mode) s).Sound layout mode :=
  h.run (allBring_of_forall (fun _ _ => trivial) s actions)

end Curation

end DatasetCatalog
