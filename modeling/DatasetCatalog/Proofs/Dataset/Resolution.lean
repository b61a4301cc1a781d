import DatasetCatalog.Proofs.Dataset.Assembly

/-!
# What resolution gives

A resolved graph is the deduplicated graph with its nodes renumbered: `Renumbers` relates the two by
a bijection that keeps identities, documents and classified sources. `Ordered` holds of every graph
that a resolver gives, with lineage or without: sources come before what refers to them, and no
identity comes twice.
-/

namespace DatasetCatalog

/-- Sources come before the datasets that list them, and each identity comes at most once. -/
structure DatasetGraph.Ordered (dg : DatasetGraph) : Prop where
  sources_lt : ∀ {k : Nat} {d : Dataset}, dg.nodes[k]? = some d → ∀ s ∈ d.sources, s.2 < k
  unique : ∀ {j k : Nat} {d e : Dataset} {id : Identity}, dg.nodes[j]? = some d →
    dg.nodes[k]? = some e → d.id = some id → e.id = some id → j = k

/-- Dataset `k` is lineage node `number k`, and so are its sources. -/
structure DatasetGraph.Renumbers (dg : DatasetGraph) (g : LineageGraph) (number : Nat → Nat) :
    Prop where
  bijective : Set.BijOn number {k | k < dg.size} {i | i < g.size}
  root : number dg.root = 0
  id : ∀ k < dg.size, (dg.node k).id = (g.node (number k)).id
  metadata : ∀ k < dg.size, (dg.node k).metadata = (g.node (number k)).document
  sources : ∀ k < dg.size,
    (dg.node k).sources.map (fun s => (s.1, number s.2)) = (g.node (number k)).sources

theorem DatasetGraph.getElem?_node {dg : DatasetGraph} {k : Nat} (hk : k < dg.size) :
    dg.nodes[k]? = some (dg.node k) := by
  rw [node, List.getD_eq_getElem?_getD, List.getElem?_eq_getElem hk]
  rfl

theorem DatasetGraph.exists_node {dg : DatasetGraph} {n : Dataset} (hn : n ∈ dg.nodes) :
    ∃ k < dg.size, dg.node k = n := by
  obtain ⟨k, hk⟩ := List.mem_iff_getElem?.mp hn
  have hlt := (List.getElem?_eq_some_iff.mp hk).1
  exact ⟨k, hlt, Option.some.inj ((getElem?_node hlt).symm.trans hk)⟩

namespace Resolver

variable {r : Resolver} {c : Catalog} {d : Document} {uri : String} {dg : DatasetGraph}
  {known : OrderedMap Identity Entry} {g : LineageGraph} {failOnMissing verify : Bool}

/-! ## Renumbering -/

theorem Mirrors.map_eq {order : List Nat} {built sources : List (String × Nat)}
    (h : Mirrors order built sources) :
    built.map (fun s => (s.1, order.getD s.2 0)) = sources := by
  induction h with
  | nil => rfl
  | cons hst _ ih =>
      rw [List.map_cons, ih, hst.1, List.getD_eq_getElem?_getD, hst.2]
      rfl

theorem Mirrors.lt_length {order : List Nat} {built sources : List (String × Nat)}
    (h : Mirrors order built sources) : ∀ s ∈ built, s.2 < order.length := by
  intro s hs
  obtain ⟨t, -, -, hst⟩ := exists_of_mem_left h hs
  exact (List.getElem?_eq_some_iff.mp hst).1

theorem bijOn_getD {order : List Nat} {n : Nat} (h : order.Perm (List.range n)) :
    Set.BijOn (fun k => order.getD k 0) {k | k < order.length} {i | i < n} := by
  have hget : ∀ k, (hk : k < order.length) → order.getD k 0 = order[k] := by
    intro k hk
    rw [List.getD_eq_getElem?_getD, List.getElem?_eq_getElem hk]
    rfl
  refine ⟨?_, ?_, ?_⟩
  · intro k hk
    have hmem : order[k] ∈ List.range n := h.mem_iff.mp (List.getElem_mem hk)
    have hlt := List.mem_range.mp hmem
    rw [← hget k hk] at hlt
    exact hlt
  · intro j hj k hk heq
    dsimp only at heq
    rw [hget j hj, hget k hk] at heq
    refine (List.getElem?_inj hj (h.nodup_iff.mpr List.nodup_range)).mp ?_
    rw [List.getElem?_eq_getElem hj, List.getElem?_eq_getElem hk, heq]
  · intro i hi
    obtain ⟨k, hk, rfl⟩ := List.mem_iff_getElem.mp (h.mem_iff.mpr (List.mem_range.mpr hi))
    exact ⟨k, hk, hget k hk⟩

theorem Built.ordered {order : List Nat} (h : Built r known g uri order dg.nodes)
    (hnodup : (LineageGraph.identities g.nodes).Nodup) (hperm : order.Perm (List.range g.size)) :
    dg.Ordered := by
  refine ⟨?_, ?_⟩
  · intro k d hd s hs
    obtain ⟨i, hi, hfor⟩ := h.exists_node hd
    have hlt := hfor.sources.lt_length s hs
    rw [List.length_take] at hlt
    omega
  · intro j k d e id hd he hdid heid
    obtain ⟨i, hi, hfor⟩ := h.exists_node hd
    obtain ⟨i', hi', hfor'⟩ := h.exists_node he
    have hcarries : ∀ {i : Nat}, i ∈ order → (g.node i).id = some id →
        LineageGraph.Carries g.nodes i id := by
      intro i hmem hid
      have hlt : i < g.nodes.length := List.mem_range.mp (hperm.mem_iff.mp hmem)
      rw [LineageGraph.node_eq (List.getElem?_eq_getElem hlt)] at hid
      exact ⟨_, List.getElem?_eq_getElem hlt, hid⟩
    have hsame : i = i' := LineageGraph.carries_unique hnodup
      (hcarries (List.mem_of_getElem? hi) (hfor.id ▸ hdid))
      (hcarries (List.mem_of_getElem? hi') (hfor'.id ▸ heid))
    have hlt := (List.getElem?_eq_some_iff.mp hi).1
    refine (List.getElem?_inj hlt (hperm.nodup_iff.mpr List.nodup_range)).mp ?_
    rw [hi, hi', hsame]

theorem Built.node {order : List Nat} (h : Built r known g uri order dg.nodes) {k : Nat}
    (hk : k < dg.size) : BuiltFor r known g uri (order.take k) (dg.node k) (order.getD k 0) := by
  refine h.builtFor (DatasetGraph.getElem?_node hk) ?_
  rw [List.getD_eq_getElem?_getD, List.getElem?_eq_getElem (h.length_eq ▸ hk)]
  rfl

theorem Built.renumbers {earlier : List Nat} (h : Built r known g uri (earlier ++ [0]) dg.nodes)
    (hperm : (earlier ++ [0]).Perm (List.range g.size)) (hroot : dg.root = earlier.length) :
    dg.Renumbers g fun k => (earlier ++ [0]).getD k 0 := by
  have hsize : (earlier ++ [0]).length = dg.size := h.length_eq
  refine ⟨hsize ▸ bijOn_getD hperm, ?_, fun k hk => (h.node hk).id,
    fun k hk => (h.node hk).metadata, ?_⟩
  · rw [hroot, List.getD_eq_getElem?_getD, List.getElem?_concat_length]
    rfl
  · intro k hk
    have hsources := (h.node hk).sources.append ((earlier ++ [0]).drop k)
    rw [List.take_append_drop] at hsources
    exact hsources.map_eq

/-- Renumbering keeps the number of sources of each node, and so of all together. -/
theorem Built.length_sources {order : List Nat} {datasets : List Dataset}
    (h : Built r known g uri order datasets) (hperm : order.Perm (List.range g.size)) :
    (datasets.flatMap Dataset.sources).length = references g.nodes := by
  have horder : (datasets.flatMap Dataset.sources).length =
      (order.flatMap fun i => (g.node i).sources).length := by
    clear hperm
    induction h with
    | nil => rfl
    | snoc _ hfor ih =>
        rw [List.flatMap_append, List.flatMap_append, List.length_append, List.length_append, ih,
          List.flatMap_singleton, List.flatMap_singleton, hfor.sources.length_eq]
  have hrange : (List.range g.size).map g.node = g.nodes := by
    apply List.ext_getElem
    · rw [List.length_map, List.length_range, LineageGraph.size]
    · intro i _ hi
      rw [List.getElem_map, List.getElem_range,
        LineageGraph.node_eq (List.getElem?_eq_getElem hi)]
  have hall : (List.range g.size).flatMap (fun i => (g.node i).sources) =
      g.nodes.flatMap LineageNode.sources := by
    rw [← List.flatMap_map, hrange]
  rw [horder, (hperm.flatMap_right _).length_eq, hall, references]

/-! ## The catalog's part -/

theorem get?_of_lookUp {ids : List Identity} (h : lookUp c ids = .ok known) {id : Identity}
    (hid : id ∈ ids) : c.get? id = .ok (known.find? id) := by
  rw [lookUp] at h
  split at h
  next hempty =>
    rw [List.isEmpty_iff.mp hempty] at hid
    cases hid
  next =>
    split at h
    next hbulk =>
      cases h
      exact Catalog.get?_of_bulkGet hbulk hid
    next => cases h

theorem mem_keys_byIdentity {id : Identity} :
    id ∈ g.byIdentity.keys ↔ id ∈ LineageGraph.identities g.nodes := by
  rw [LineageGraph.byIdentity, OrderedMap.mem_keys_ofList, LineageGraph.mem_identities]
  constructor
  · rintro ⟨document, hpair⟩
    obtain ⟨n, hn, hpair⟩ := List.mem_filterMap.mp hpair
    obtain ⟨id', hid, ⟨⟩⟩ := Option.map_eq_some_iff.mp hpair
    exact ⟨n, hn, hid⟩
  · rintro ⟨n, hn, hid⟩
    refine ⟨n.document, List.mem_filterMap.mpr ⟨n, hn, ?_⟩⟩
    rw [hid]
    rfl

/-- The dataset's product is the catalogued one if its identity is catalogued, and else the one that
matches its document. -/
def Classifies (r : Resolver) (c : Catalog) (d : Dataset) : Prop :=
  (∃ id entry, d.id = some id ∧ c.get? id = .ok (some entry) ∧ d.product = entry.product) ∨
    ((∀ id, d.id = some id → c.get? id = .ok none) ∧
      r.matcher.matchDocument d.metadata = .ok d.product)

theorem BuiltFor.classifies {order : List Nat} {d : Dataset} {i : Nat}
    (h : BuiltFor r known g uri order d i)
    (hknown : ∀ id ∈ LineageGraph.identities g.nodes, c.get? id = .ok (known.find? id))
    (hi : i < g.size) : Classifies r c d := by
  have hnode := LineageGraph.node_eq (List.getElem?_eq_getElem hi)
  have hget : ∀ id, (g.node i).id = some id → c.get? id = .ok (known.find? id) := by
    intro id hid
    refine hknown id (LineageGraph.mem_identities.mpr ⟨_, List.getElem_mem hi, ?_⟩)
    rwa [hnode] at hid
  have hproduct := h.product
  rw [HasProduct] at hproduct
  split at hproduct
  next entry hentry =>
    obtain ⟨id, hid, hfind⟩ := Option.bind_eq_some_iff.mp hentry
    refine .inl ⟨id, entry, h.id.trans hid, ?_, hproduct.symm⟩
    rw [hget id hid, hfind]
  next hnone =>
    refine .inr ⟨?_, h.metadata ▸ hproduct⟩
    intro id hid
    rw [h.id] at hid
    rw [hid, Option.bind_some] at hnone
    rw [hget id hid, hnone]

/-! ## Every resolution -/

theorem resolveGraph_eq_ok (h : r.resolveGraph c g uri failOnMissing verify = .ok dg) :
    ∃ known stats, lookUp c g.byIdentity.keys = .ok known ∧
      stats.matched = 0 ∧ stats.fromCatalog = 0 ∧ stats.reused = 0 ∧
      r.assemble known g uri g.size 0 ⟨[], stats⟩ = .ok (dg.root, ⟨dg.nodes, dg.stats⟩) := by
  obtain ⟨known, hknown, h⟩ := bind_eq_ok.mp h
  dsimp only at h
  split at h
  next => cases h
  next =>
    -- The assembly is the same whether the ancestors are verified or not.
    split at h
    all_goals
      split at h
      next => cases h
      next =>
        obtain ⟨⟨root, built⟩, hassemble, ⟨⟩⟩ := bind_eq_ok.mp h
        exact ⟨known, _, hknown, rfl, rfl, rfl, hassemble⟩

/-- A whole assembly builds every node of a deduplicated graph, the root last. -/
theorem built_of_assemble (hg : LineageGraph.ofDocument? r.layout d = .ok g)
    {stats : ResolutionStats} {root : Nat} {built : Assembly}
    (h : r.assemble known g uri g.size 0 ⟨[], stats⟩ = .ok (root, built)) :
    ∃ earlier, (earlier ++ [0]).Perm (List.range g.size) ∧ root = earlier.length ∧
      Built r known g uri (earlier ++ [0]) built.nodes ∧ Counted ⟨[], stats⟩ built g.nodes 1 := by
  obtain ⟨finished, hwalks⟩ := LineageGraph.walks_of_ofDocument? hg ""
  have hnodup := LineageGraph.nodup_identities_of_ofDocument? hg
  have hready : Ready r known g uri [] [] g.size [] ⟨[], stats⟩ := by
    refine ⟨.nil, by simp, ?_, Nat.le_refl _⟩
    rintro i id ⟨n, hn, -⟩
    cases hn
  have hrun : assembleSources (r.assemble known g uri g.size) [("", 0)] ⟨[], stats⟩ =
      .ok ([("", root)], built) :=
    bind_eq_ok.mpr ⟨_, h, rfl⟩
  obtain ⟨hmirrors, hbuilt, hcounted⟩ := built_of_walks hwalks hnodup continues_nil hready hrun
  have hperm := hwalks.finished_perm
  rw [List.length_nil, ← List.range_eq_range'] at hperm
  obtain ⟨earlier, rfl⟩ := hwalks.finished_root
  rw [List.nil_append] at hmirrors hbuilt
  refine ⟨earlier, hperm, ?_, hbuilt, hcounted⟩
  obtain ⟨-, hat⟩ := (List.forall₂_cons.mp hmirrors).1
  have hlt := (List.getElem?_eq_some_iff.mp hat).1
  refine (List.getElem?_inj hlt (hperm.nodup_iff.mpr List.nodup_range)).mp ?_
  rw [hat, List.getElem?_concat_length]

/-- With lineage, the datasets are built for the nodes of the document's lineage graph. -/
theorem resolve_built (hpolicy : r.policy = .follow failOnMissing verify)
    (h : r.resolve c d uri = .ok dg) :
    ∃ g known earlier, LineageGraph.ofDocument? r.layout d = .ok g ∧
      (∀ id ∈ LineageGraph.identities g.nodes, c.get? id = .ok (known.find? id)) ∧
      (earlier ++ [0]).Perm (List.range g.size) ∧ dg.root = earlier.length ∧
      Built r known g uri (earlier ++ [0]) dg.nodes ∧
      dg.stats.matched + dg.stats.fromCatalog = g.size ∧
      dg.stats.reused + g.size = 1 + references g.nodes := by
  rw [resolve, hpolicy] at h
  dsimp only at h
  split at h
  next => cases h
  next g hg =>
    obtain ⟨known, stats, hlookUp, hmatched, hfromCatalog, hreused, hassemble⟩ :=
      resolveGraph_eq_ok h
    obtain ⟨earlier, hperm, hroot, hbuilt, hcounted⟩ := built_of_assemble hg hassemble
    refine ⟨g, known, earlier, hg, ?_, hperm, hroot, hbuilt, ?_, ?_⟩
    · intro id hid
      exact get?_of_lookUp hlookUp (mem_keys_byIdentity.mpr hid)
    · have hclassified := hcounted.classified
      rwa [hmatched, hfromCatalog, Nat.zero_add] at hclassified
    · have hcount := hcounted.reused
      rwa [hreused, Nat.zero_add] at hcount

/-- Without lineage, the root is the only dataset. -/
theorem resolveFlat_eq_ok (h : r.resolveFlat d uri = .ok dg) : ∃ id product,
    r.layout.identity d = .ok id ∧
      r.matcher.matchDocument (r.layout.withoutLineage d) = .ok product ∧
      dg = ⟨[⟨id, product, r.layout.withoutLineage d, [uri], []⟩], 0, { matched := 1 }⟩ := by
  rw [resolveFlat] at h
  split at h
  next => cases h
  next id hid =>
    dsimp only at h
    split at h
    next => cases h
    next product hproduct =>
      cases h
      exact ⟨id, product, hid, hproduct, rfl⟩

theorem ordered_of_resolve (h : r.resolve c d uri = .ok dg) : dg.Ordered := by
  cases hpolicy : r.policy with
  | follow failOnMissing verify =>
      obtain ⟨g, known, earlier, hg, -, hperm, -, hbuilt, -, -⟩ := resolve_built hpolicy h
      exact hbuilt.ordered (LineageGraph.nodup_identities_of_ofDocument? hg) hperm
  | skip =>
      rw [resolve, hpolicy] at h
      obtain ⟨_, _, -, -, rfl⟩ := resolveFlat_eq_ok h
      refine ⟨?_, ?_⟩
      · intro k d hd s hs
        cases List.mem_singleton.mp (List.mem_of_getElem? hd)
        cases hs
      · intro j k d e id hd he _ _
        have hj := (List.getElem?_eq_some_iff.mp hd).1
        have hk := (List.getElem?_eq_some_iff.mp he).1
        exact (Nat.lt_one_iff.mp hj).trans (Nat.lt_one_iff.mp hk).symm

/-- With lineage, the root is built for the document itself. -/
theorem builtFor_root_of_resolve (hpolicy : r.policy = .follow failOnMissing verify)
    (h : r.resolve c d uri = .ok dg) :
    dg.root < dg.size ∧ ∃ g known order, LineageGraph.ofDocument? r.layout d = .ok g ∧
      (∀ id ∈ LineageGraph.identities g.nodes, c.get? id = .ok (known.find? id)) ∧
      BuiltFor r known g uri order dg.rootDataset 0 := by
  obtain ⟨g, known, earlier, hg, hknown, -, hroot, hbuilt, -, -⟩ := resolve_built hpolicy h
  have hlength : earlier.length + 1 = dg.size := by
    rw [DatasetGraph.size, ← hbuilt.length_eq, List.length_append, List.length_singleton]
  have hlt : dg.root < dg.size := by
    rw [hroot, ← hlength]
    exact Nat.lt_succ_self _
  have hfor := hbuilt.builtFor (DatasetGraph.getElem?_node hlt)
    (hroot ▸ List.getElem?_concat_length)
  exact ⟨hlt, g, known, _, hg, hknown, hfor⟩

/-- The root has the document's location. -/
theorem uris_root_of_resolve (h : r.resolve c d uri = .ok dg) :
    dg.root < dg.size ∧ dg.rootDataset.uris = [uri] := by
  cases hpolicy : r.policy with
  | follow failOnMissing verify =>
      obtain ⟨hlt, g, known, order, -, -, hfor⟩ := builtFor_root_of_resolve hpolicy h
      exact ⟨hlt, hfor.uris⟩
  | skip =>
      rw [resolve, hpolicy] at h
      obtain ⟨_, _, -, -, rfl⟩ := resolveFlat_eq_ok h
      exact ⟨Nat.one_pos, rfl⟩

theorem resolveChecked_eq_ok (h : r.resolveChecked c d uri = .ok dg) :
    r.resolve c d uri = .ok dg ∧ dg.rootDataset.checkMeasurements r.layout = .ok () := by
  obtain ⟨dg', hresolve, hchecked⟩ := bind_eq_ok.mp h
  split at hchecked
  next hmeasured =>
    cases hchecked
    exact ⟨hresolve, hmeasured⟩
  next => cases hchecked

/-- Following lineage gives exactly the deduplicated graph, its nodes in the order in which they are
finished, each with the product that the catalog or else the rules give it. -/
theorem resolve_renumbers_lineage (hpolicy : r.policy = .follow failOnMissing verify)
    (h : r.resolve c d uri = .ok dg) :
    ∃ g number, LineageGraph.ofDocument? r.layout d = .ok g ∧ dg.Renumbers g number ∧
      dg.Ordered ∧ dg.root + 1 = dg.size ∧
      (∀ k < dg.size, Classifies r c (dg.node k)) ∧
      (∀ k < dg.size, (dg.node k).uris = if k = dg.root then [uri] else []) ∧
      dg.stats.matched + dg.stats.fromCatalog = dg.size ∧
      dg.stats.reused + (dg.size - 1) = (dg.nodes.flatMap Dataset.sources).length := by
  obtain ⟨g, known, earlier, hg, hknown, hperm, hroot, hbuilt, hclassified, hreused⟩ :=
    resolve_built hpolicy h
  have hrenumbers := hbuilt.renumbers hperm hroot
  have hlength := hbuilt.length_eq
  rw [List.length_append, List.length_singleton] at hlength
  have hsize : dg.size = g.size := by
    rw [DatasetGraph.size, ← hbuilt.length_eq, hperm.length_eq, List.length_range]
  have hlast : dg.root + 1 = dg.size := by
    rw [hroot, hlength]
    rfl
  refine ⟨g, _, hg, hrenumbers, ?_, hlast, ?_, ?_, ?_, ?_⟩
  · exact hbuilt.ordered (LineageGraph.nodup_identities_of_ofDocument? hg) hperm
  · intro k hk
    exact (hbuilt.node hk).classifies hknown (hrenumbers.bijective.mapsTo hk)
  · intro k hk
    have hiff : (earlier ++ [0]).getD k 0 = 0 ↔ k = dg.root := by
      have hlt : dg.root < dg.size := hlast ▸ Nat.lt_succ_self _
      constructor
      · intro hzero
        exact hrenumbers.bijective.injOn hk hlt (hzero.trans hrenumbers.root.symm)
      · rintro rfl
        exact hrenumbers.root
    rw [(hbuilt.node hk).uris]
    simp only [hiff]
  · rw [hclassified, hsize]
  · rw [hbuilt.length_sources hperm, hsize]
    omega

section SharedAncestor

def soilProduct : Product := ⟨"soil", none, .empty, []⟩

/-- One rule, which every document satisfies. -/
def soilResolver : Resolver where
  matcher := ⟨[.ofProduct soilProduct], .sensitive, { sources := .ofKeys ["sources"] }, by simp⟩
  policy := .follow true true

def rockProduct : Product := ⟨"rock", none, .empty, []⟩

def ancestorId : Identity := ⟨0x22222222222222222222222222222222⟩

def ancestor : Document := .ofFields [("id", .text (String.ofList (List.replicate 32 '2')))]

def ancestorCatalog : Catalog :=
  Catalog.insert { Catalog.empty with products := [rockProduct] }
    { id := ancestorId, product := "rock", metadata := ancestor, locations := [],
      archivedLocations := [], sources := .empty, archived := none, indexed := none }

/-- Two survey documents without an identity share an ancestor. -/
def survey : Document := .ofFields
  [("sources", .mapping [("soil", ancestor.value),
    ("moss", .mapping [("sources", .mapping [("soil", ancestor.value)])])])]

def surveyGraph : DatasetGraph where
  nodes := [⟨some ancestorId, rockProduct, ancestor, [], []⟩,
    ⟨none, soilProduct, .empty, [], [("soil", 0)]⟩,
    ⟨none, soilProduct, .empty, ["survey"], [("soil", 0), ("moss", 1)]⟩]
  root := 2
  stats := { lookups := 1, matched := 2, fromCatalog := 1, reused := 1, missing := 0 }

/-- The ancestor comes first, is built once and keeps its catalogued product. -/
theorem survey_renumbers_lineage :
    soilResolver.resolve ancestorCatalog survey "survey" = .ok surveyGraph ∧
      ∃ g number, LineageGraph.ofDocument? soilResolver.layout survey = .ok g ∧
        surveyGraph.Renumbers g number ∧
        Classifies soilResolver ancestorCatalog (surveyGraph.node 0) := by
  have hresolve : soilResolver.resolve ancestorCatalog survey "survey" = .ok surveyGraph := by
    rfl
  obtain ⟨g, number, hg, hrenumbers, -, -, hclassifies, -⟩ :=
    resolve_renumbers_lineage (r := soilResolver) rfl hresolve
  exact ⟨hresolve, g, number, hg, hrenumbers, hclassifies 0 (by decide)⟩

end SharedAncestor

end Resolver

end DatasetCatalog
