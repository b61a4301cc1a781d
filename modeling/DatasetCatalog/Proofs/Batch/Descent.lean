import DatasetCatalog.Proofs.Catalog.Alone
import DatasetCatalog.Proofs.Catalog.Index
import DatasetCatalog.Proofs.Lineage.Reembedding

/-!
# From an ancestor back to the root

A graph that is added leads from its root to every ancestor, but only new datasets take their
sources from it: one that was recorded keeps the sources that it was recorded with. `Leads` follows
the graph from new datasets and the records from the others. Once the graph is added this is the
recorded lineage, so the root is derived from exactly the ancestors that it leads to.
-/

namespace DatasetCatalog

namespace DatasetGraph

/-- The dataset of identity `id` has `source` among its sources. -/
def Lists (g : DatasetGraph) (id source : Identity) : Prop :=
  ∃ d ∈ g.nodes, d.id = some id ∧ source ∈ (g.sourceIds d).map Prod.snd

/-- No dataset has two sources under one classifier. -/
def UniqueClassifiers (g : DatasetGraph) : Prop :=
  ∀ d ∈ g.nodes, (d.sources.map Prod.fst).Nodup

variable {g : DatasetGraph} {d : Dataset}

theorem mem_sourceIds {source : Identity} : source ∈ (g.sourceIds d).map Prod.snd ↔
    ∃ s ∈ d.sources, (g.node s.2).id = some source := by
  simp [sourceIds, sourcesOf]

theorem UniqueClassifiers.nodup_sourceIds (h : g.UniqueClassifiers) (hd : d ∈ g.nodes) :
    ((g.sourceIds d).map Prod.fst).Nodup := by
  have hsources := List.pairwise_map.mp (h d hd)
  rw [List.Nodup, List.pairwise_map, sourceIds, List.pairwise_filterMap, sourcesOf,
    List.pairwise_map]
  refine hsources.imp fun {s t} hne p hp q hq => ?_
  obtain ⟨_, -, rfl⟩ := Option.map_eq_some_iff.mp hp
  obtain ⟨_, -, rfl⟩ := Option.map_eq_some_iff.mp hq
  exact hne

end DatasetGraph

namespace Catalog

/-- From a dataset that is new the graph leads on, from one that is recorded its record. -/
def Leads (c : Catalog) (g : DatasetGraph) (id source : Identity) : Prop :=
  c.Lists id source ∨ (c.datasets.contains id = false ∧ g.Lists id source)

variable {c c' : Catalog} {g : DatasetGraph} {withLineage : Bool} {now : Timestamp}
  {id source : Identity}

/-! ## The lineage after adding a graph -/

theorem mem_record_iff (hunique : g.UniqueClassifiers) {d : Dataset} (hd : d ∈ g.nodes) :
    source ∈ (record g d id now).sources.values ↔ source ∈ (g.sourceIds d).map Prod.snd :=
  OrderedMap.mem_values_ofList (hunique.nodup_sourceIds hd)

/-- What was recorded keeps its sources, and what is new has those that the graph gives it. -/
theorem lists_of_add_iff (hordered : g.Ordered) (hunique : g.UniqueClassifiers)
    (h : c.add g withLineage now = .ok c') : c'.Lists id source ↔ c.Leads g id source := by
  cases hrecorded : c.datasets.contains id with
  | true =>
      obtain ⟨d, hd⟩ := OrderedMap.contains_iff.mp hrecorded
      have hd' := find?_of_add h hd
      simp [Leads, Lists, hrecorded, hd, hd']
  | false =>
      have hnew : ∀ {d}, c.datasets.find? id ≠ some d := by
        intro d hd
        rw [OrderedMap.contains_iff.mpr ⟨d, hd⟩] at hrecorded
        cases hrecorded
      constructor
      · rintro ⟨stored, hstored, hsource⟩
        rcases origin_of_add h hstored with hbefore | ⟨k, d, hd, hid, rfl⟩
        · exact (hnew hbefore).elim
        · have hmem := List.mem_of_getElem? hd
          exact .inr ⟨hrecorded, d, hmem, hid, (mem_record_iff hunique hmem).mp hsource⟩
      · rintro (⟨d, hd, -⟩ | ⟨-, d, hd, hid, hsource⟩)
        · exact (hnew hd).elim
        · obtain ⟨k, hk⟩ := List.mem_iff_getElem?.mp hd
          obtain ⟨stored, hstored⟩ := OrderedMap.contains_iff.mp (contains_node_of_add h hk hid)
          rcases origin_of_add h hstored with hbefore | ⟨k', d', hd', hid', rfl⟩
          · exact (hnew hbefore).elim
          · cases hordered.unique hd' hk hid' hid
            cases hd'.symm.trans hk
            exact ⟨_, hstored, (mem_record_iff hunique hd).mpr hsource⟩

/-- Adding a graph with its lineage needs an identity of every dataset. -/
theorem identified_of_add (h : c.add g withLineage now = .ok c') {d : Dataset}
    (hd : d ∈ g.nodes) : ∃ id, d.id = some id ∧ c'.datasets.contains id = true := by
  obtain ⟨_, -, -, hnodes⟩ := records_of_add h
  obtain ⟨k, hk⟩ := List.mem_iff_getElem?.mp hd
  obtain ⟨id, hid, -⟩ := hnodes k d hk
  exact ⟨id, hid, contains_node_of_add h hk hid⟩

/-! ## Derived sets -/

theorem Indexed.derives_iff (hindexed : c.Indexed) (hread : c.Readable) :
    c.Derives source id ↔ c.Lists id source := by
  obtain ⟨es, hes, -⟩ := hread.getDerived source
  rw [← hindexed.exact]
  constructor
  · rintro ⟨_, hes', hid⟩
    exact ((mem_ids_of_getDerived hes').mp hid).1
  · intro hindexes
    have hrecorded := contains_of_lists (hindexed.exact.mp hindexes)
    exact ⟨es, hes, (mem_ids_of_getDerived hes).mpr ⟨hindexes, hrecorded⟩⟩

/-- A dataset is in the derived set of what its recorded lineage leads to. -/
theorem Indexed.mem_derivedSet_iff (hindexed : c.Indexed) (hread : c.Readable)
    (hrecorded : c.datasets.contains source = true) (id : Identity) :
    ∃ es, c.derivedSet source = .ok es ∧
      (id ∈ es.map Entry.id ↔ Relation.ReflTransGen c.Lists id source) := by
  obtain ⟨es, hes, hmem⟩ := hread.exists_derivedSet hrecorded
  refine ⟨es, hes, ?_⟩
  have hderives : c.Derives = Function.swap c.Lists := by
    funext a b
    exact propext (hindexed.derives_iff hread)
  rw [hmem, hderives, Relation.reflTransGen_swap]

end Catalog

/-! ## Resolved graphs -/

namespace Resolver

variable {r : Resolver} {c : Catalog} {d : Document} {uri : String} {dg : DatasetGraph}

theorem uniqueClassifiers_of_resolve (h : r.resolve c d uri = .ok dg) : dg.UniqueClassifiers := by
  intro n hn
  cases hpolicy : r.policy with
  | follow failOnMissing verify =>
      obtain ⟨g, _, number, hg, -, hrenumbers, -⟩ := lineage_of_resolve hpolicy h
      obtain ⟨k, hk, rfl⟩ := DatasetGraph.exists_node hn
      have hnumber : number k < g.nodes.length := hrenumbers.bijective.mapsTo hk
      have hnode := LineageGraph.node_eq (List.getElem?_eq_getElem hnumber)
      obtain ⟨finished, hwalks⟩ := LineageGraph.walks_of_ofDocument? hg ""
      obtain ⟨_, entries, -, -, hlineage, hclassifiers⟩ :=
        hwalks.made _ (List.getElem_mem hnumber)
      have hsources := congrArg (List.map Prod.fst) (hrenumbers.sources k hk)
      rw [List.map_map, hnode, ← hclassifiers] at hsources
      have hsame : (dg.node k).sources.map Prod.fst = entries.map Prod.fst := hsources
      rw [hsame]
      exact Layout.nodup_classifiers hlineage
  | skip =>
      rw [resolve, hpolicy] at h
      obtain ⟨_, _, -, -, rfl⟩ := resolveFlat_eq_ok h
      cases List.mem_singleton.mp hn
      exact List.nodup_nil

/-- The root of a graph leads to every dataset in it, when all of them have an identity. -/
theorem lists_of_resolve (h : r.resolve c d uri = .ok dg)
    (hidentified : ∀ n ∈ dg.nodes, ∃ id, n.id = some id) {root id : Identity}
    (hroot : dg.rootDataset.id = some root) {n : Dataset} (hn : n ∈ dg.nodes)
    (hid : n.id = some id) : Relation.ReflTransGen dg.Lists root id := by
  cases hpolicy : r.policy with
  | follow failOnMissing verify =>
      obtain ⟨g, _, number, hg, -, hrenumbers, hlast⟩ := lineage_of_resolve hpolicy h
      -- Every lineage node is a dataset, whose identity the root leads to by the same references.
      have hchain : ∀ i, Relation.ReflTransGen g.Refers 0 i → ∀ id, (g.node i).id = some id →
          Relation.ReflTransGen dg.Lists root id := by
        intro i hreach
        induction hreach with
        | refl =>
            intro id hid
            rw [← hrenumbers.root, ← hrenumbers.id _ (Nat.lt_of_succ_le hlast.le)] at hid
            cases hroot.symm.trans hid
            exact .refl
        | @tail i j _ hrefers ih =>
            intro id hid
            obtain ⟨m, hm, -⟩ := hrefers.exists_node
            obtain ⟨k, hk, rfl⟩ :=
              hrenumbers.bijective.surjOn (List.getElem?_eq_some_iff.mp hm).1
            have hnode := DatasetGraph.getElem?_node hk
            obtain ⟨before, hbefore⟩ := hidentified _ (List.mem_of_getElem? hnode)
            obtain ⟨classifier, hsource⟩ := hrefers
            rw [← hrenumbers.sources k hk] at hsource
            obtain ⟨s, hs, hpair⟩ := List.mem_map.mp hsource
            obtain ⟨-, rfl⟩ := Prod.mk.inj hpair
            have hlt := (ordered_of_resolve h).sources_lt hnode s hs
            rw [← hrenumbers.id s.2 (Nat.lt_trans hlt hk)] at hid
            refine (ih before (hrenumbers.id k hk ▸ hbefore)).tail ?_
            exact ⟨_, List.mem_of_getElem? hnode, hbefore,
              DatasetGraph.mem_sourceIds.mpr ⟨s, hs, hid⟩⟩
      obtain ⟨k, hk, rfl⟩ := DatasetGraph.exists_node hn
      rw [hrenumbers.id k hk] at hid
      exact hchain _ (LineageGraph.reachable_of_referenced
        (fun i => LineageGraph.exists_smaller_referrer hg)
        (hrenumbers.bijective.mapsTo hk)) id hid
  | skip =>
      rw [resolve, hpolicy] at h
      obtain ⟨_, _, -, -, rfl⟩ := resolveFlat_eq_ok h
      cases List.mem_singleton.mp hn
      cases hroot.symm.trans hid
      exact .refl

end Resolver

namespace Session

variable {r : Resolver} {d : Document} {uri : String} {g : DatasetGraph} {withLineage : Bool}
  {now : Timestamp} {c c' : Catalog}

/-- After a graph was added the derived set of any of its datasets can be found. It contains the
root exactly if the root leads there, through new datasets by the graph and through recorded ones by
their records. So the root is derived from every ancestor if the recorded ones list the sources that
the graph gives them. -/
theorem root_derived_from_ancestors (actions : List Action) (hc : c = (run actions).catalog)
    (hresolve : r.resolve c d uri = .ok g) (hadd : c.add g withLineage now = .ok c') :
    ∃ root, g.rootDataset.id = some root ∧
      ∀ n ∈ g.nodes, ∃ id es, n.id = some id ∧ c'.derivedSet id = .ok es ∧
        (root ∈ es.map Entry.id ↔ Relation.ReflTransGen (c.Leads g) root id) ∧
        ((∀ a b, g.Lists a b → c.datasets.contains a = true → c.Lists a b) →
          root ∈ es.map Entry.id) := by
  have hordered := Resolver.ordered_of_resolve hresolve
  have hindexed : c'.Indexed := by
    have hbefore := invariant_run Catalog.invariant_indexed actions
    rw [← hc] at hbefore
    exact hbefore.add hordered hadd
  have hregistered : c'.Registered := by
    have hbefore := invariant_run Catalog.invariant_registered actions
    rw [← hc] at hbefore
    exact hbefore.outcome (.add g withLineage now) (map_eq_ok.mpr ⟨c', hadd, rfl⟩)
  have hleads : c'.Lists = c.Leads g := by
    funext a b
    exact propext (Catalog.lists_of_add_iff hordered
      (Resolver.uniqueClassifiers_of_resolve hresolve) hadd)
  have hidentified : ∀ n ∈ g.nodes, ∃ id, n.id = some id := by
    intro n hn
    obtain ⟨id, hid, -⟩ := Catalog.identified_of_add hadd hn
    exact ⟨id, hid⟩
  obtain ⟨root, _, hroot, -⟩ := Catalog.add_eq_ok hadd
  refine ⟨root, hroot, fun n hn => ?_⟩
  obtain ⟨id, hid, hrecorded⟩ := Catalog.identified_of_add hadd hn
  obtain ⟨es, hes, hmem⟩ := hindexed.mem_derivedSet_iff hregistered.readable hrecorded root
  rw [hleads] at hmem
  refine ⟨id, es, hid, hes, hmem, fun hkept => hmem.mpr ?_⟩
  -- The root leads to the dataset by the graph, and no step of that is lost.
  have hsteps : g.Lists ≤ c.Leads g := by
    intro a b hab
    cases hrecorded : c.datasets.contains a with
    | true => exact .inl (hkept a b hab hrecorded)
    | false => exact .inr ⟨hrecorded, hab⟩
  have hchain := Resolver.lists_of_resolve hresolve hidentified hroot hn hid
  exact Relation.ReflTransGen.mono hsteps root id hchain

section Strata

def stratum (digit : Char) (below : Fields) : Fields :=
  [("id", .text (String.ofList (List.replicate 32 digit))), ("sources", .mapping below)]

/-- Layer 1 lies on layer 2, and that on layer 3. -/
def strata : Document :=
  .ofFields (stratum '1' [("below", .mapping (stratum '2' [("below", .mapping (stratum '3' []))]))])

def strataGraph (stats : ResolutionStats) : DatasetGraph :=
  let body := fun digit => layerResolver.layout.withoutLineage (.ofFields (stratum digit []))
  { nodes := [⟨some ⟨0x33333333333333333333333333333333⟩, layerProduct, body '3', [], []⟩,
      ⟨some ⟨0x22222222222222222222222222222222⟩, layerProduct, body '2', [], [("below", 0)]⟩,
      ⟨some ⟨0x11111111111111111111111111111111⟩, layerProduct, body '1', ["strata"],
        [("below", 1)]⟩]
    root := 2
    stats }

/-- Layer 2 is recorded with what is said to be below it. -/
def recordLayer (below : Fields) : List Action :=
  [.addProduct layerProduct, .resolve layerResolver (.ofFields (stratum '2' below)) "layer",
    .add 0 true default]

/-- When layer 2 was recorded with layer 3, its record leads from layer 1 on to layer 3. -/
theorem strata_derived_from_lowest :
    let recorded := (run (recordLayer [("below", .mapping (stratum '3' []))])).catalog
    let g := strataGraph { lookups := 1, matched := 1, fromCatalog := 2 }
    layerResolver.resolve recorded strata "strata" = .ok g ∧
      ∃ c', recorded.add g true default = .ok c' ∧
        ∃ es, c'.derivedSet ⟨0x33333333333333333333333333333333⟩ = .ok es ∧
          ⟨0x11111111111111111111111111111111⟩ ∈ es.map Entry.id := by
  intro recorded g
  have hresolve : layerResolver.resolve recorded strata "strata" = .ok g := by
    rfl
  obtain ⟨c', hadd⟩ : ∃ c', recorded.add g true default = .ok c' := ⟨_, rfl⟩
  obtain ⟨root, hroot, hnodes⟩ := root_derived_from_ancestors
    (recordLayer [("below", .mapping (stratum '3' []))]) rfl hresolve hadd
  obtain ⟨id, es, hid, hes, hmem, -⟩ := hnodes _ List.mem_cons_self
  cases hid
  cases hroot
  have habove : recorded.Leads g ⟨0x11111111111111111111111111111111⟩
      ⟨0x22222222222222222222222222222222⟩ :=
    .inr ⟨rfl, _, List.mem_cons_of_mem _ (List.mem_cons_of_mem _ List.mem_cons_self), rfl,
      DatasetGraph.mem_sourceIds.mpr ⟨("below", 1), List.mem_cons_self, rfl⟩⟩
  have hbelow : recorded.Leads g ⟨0x22222222222222222222222222222222⟩
      ⟨0x33333333333333333333333333333333⟩ :=
    .inl ⟨_, rfl, List.mem_cons_self⟩
  exact ⟨hresolve, c', hadd, es, hes, hmem.mpr (.tail (.single habove) hbelow)⟩

/-- When it was recorded with nothing below, layer 1 is not derived from layer 3. -/
theorem strata_not_derived_from_lowest :
    layerResolver.policy = .follow false true ∧
      let recorded := (run (recordLayer [])).catalog
      let g := strataGraph { lookups := 1, matched := 2, fromCatalog := 1, missing := 1 }
      layerResolver.resolve recorded strata "strata" = .ok g ∧
        g.rootDataset.id = some ⟨0x11111111111111111111111111111111⟩ ∧
        (∃ n ∈ g.nodes, n.id = some ⟨0x33333333333333333333333333333333⟩) ∧
        ∃ c', recorded.add g true default = .ok c' ∧
          ∃ es, c'.derivedSet ⟨0x33333333333333333333333333333333⟩ = .ok es ∧
            ⟨0x11111111111111111111111111111111⟩ ∉ es.map Entry.id := by
  refine ⟨rfl, rfl, rfl, ⟨_, List.mem_cons_self, rfl⟩, _, rfl, _, rfl, ?_⟩
  decide

end Strata

end Session

end DatasetCatalog
