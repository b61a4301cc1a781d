import DatasetCatalog.Proofs.Dataset.Assembly
import DatasetCatalog.Proofs.Document.Removal
import DatasetCatalog.Proofs.Lineage.Preorder
import Mathlib.Logic.Relation

/-!
# The shape of a deduplicated lineage

In the middle of a walk a node is open, its lineage being walked over, or it is closed. A reference
never leads to a node that was open already, as its identity is active. So every chain of references
from a closed node ends, and none returns to its start. A node is opened for a reference from an
open node, which has the smaller number; nodes without an identity are never referred to again.
-/

namespace DatasetCatalog

namespace LineageGraph

/-- Node `i` has node `j` as a source. -/
def Refers (g : LineageGraph) (i j : Nat) : Prop :=
  ∃ classifier, (classifier, j) ∈ (g.node i).sources

/-- The numbers that the sources of these nodes lead to, one for each source. -/
def targets (nodes : List LineageNode) : List Nat := nodes.flatMap fun n => n.sources.map Prod.snd

/-- Node 0 is the document, every reference leads further down to a node that is there, and only
nodes with an identity, each of which has one node, are shared. -/
structure WellFormed (layout : Layout) (d : Document) (g : LineageGraph) : Prop where
  nonempty : 0 < g.size
  root_id : layout.identity d = .ok (g.node 0).id
  root_document : (g.node 0).document = layout.withoutLineage d
  in_range : ∀ i j, g.Refers i j → j < g.size
  indexOf?_iff : ∀ id i, g.indexOf? id = some i ↔ i < g.size ∧ (g.node i).id = some id
  unique : ∀ i j id, Carries g.nodes i id → Carries g.nodes j id → i = j
  acyclic : ∀ i, ¬ Relation.TransGen g.Refers i i
  reachable : ∀ i, i < g.size → Relation.ReflTransGen g.Refers 0 i
  referenced : ∀ i, 0 < i → i < g.size → ∃ j, j < i ∧ g.Refers j i
  anonymous_once : ∀ i, 0 < i → i < g.size → (g.node i).id = none → (targets g.nodes).count i = 1
  root_unreferenced : ∀ i, ¬ g.Refers i 0
  no_lineage : ∀ n ∈ g.nodes, n.document.get? layout.sources = none

variable {layout : Layout} {g : LineageGraph} {active : List Identity}
  {entries : List (String × Document)} {nodes new : List LineageNode}
  {sources : List (String × Nat)} {finished : List Nat}

theorem targets_append (nodes more : List LineageNode) :
    targets (nodes ++ more) = targets nodes ++ targets more := List.flatMap_append

theorem targets_cons (n : LineageNode) (nodes : List LineageNode) :
    targets (n :: nodes) = n.sources.map Prod.snd ++ targets nodes := List.flatMap_cons

/-- Only nodes of the graph refer to anything. -/
theorem Refers.exists_node {i j : Nat} (h : g.Refers i j) :
    ∃ n, g.nodes[i]? = some n ∧ j ∈ n.sources.map Prod.snd := by
  obtain ⟨classifier, hs⟩ := h
  cases hi : g.nodes[i]? with
  | none =>
      rw [node, List.getD_eq_getElem?_getD, hi] at hs
      cases hs
  | some n =>
      rw [node_eq hi] at hs
      exact ⟨n, rfl, List.mem_map_of_mem hs⟩

theorem refers_of_getElem? {i j : Nat} {n : LineageNode} (hn : g.nodes[i]? = some n)
    (hj : j ∈ n.sources.map Prod.snd) : g.Refers i j := by
  obtain ⟨⟨classifier, _⟩, hs, rfl⟩ := List.mem_map.mp hj
  exact ⟨classifier, by rwa [node_eq hn]⟩

theorem mem_targets_iff {j : Nat} : j ∈ targets g.nodes ↔ ∃ i, g.Refers i j := by
  constructor
  · intro hj
    obtain ⟨n, hn, hs⟩ := List.mem_flatMap.mp hj
    obtain ⟨i, hi⟩ := List.mem_iff_getElem?.mp hn
    exact ⟨i, refers_of_getElem? hi hs⟩
  · rintro ⟨i, hij⟩
    obtain ⟨n, hn, hs⟩ := hij.exists_node
    exact List.mem_flatMap.mpr ⟨n, List.mem_of_getElem? hn, hs⟩

theorem carries_iff {i : Nat} {id : Identity} :
    Carries g.nodes i id ↔ i < g.size ∧ (g.node i).id = some id := by
  constructor
  · rintro ⟨n, hn, hid⟩
    rw [node_eq hn]
    exact ⟨(List.getElem?_eq_some_iff.mp hn).1, hid⟩
  · rintro ⟨hlt, hid⟩
    have hn : g.nodes[i]? = some g.nodes[i] := List.getElem?_eq_getElem hlt
    rw [node_eq hn] at hid
    exact ⟨_, hn, hid⟩

theorem carries_append {more : List LineageNode} {i : Nat} {id : Identity}
    (h : Carries (nodes ++ more) i id) :
    Carries nodes i id ∨ nodes.length ≤ i ∧ Carries more (i - nodes.length) id := by
  obtain ⟨n, hn, hid⟩ := h
  by_cases hlt : i < nodes.length
  · rw [List.getElem?_append_left hlt] at hn
    exact .inl ⟨n, hn, hid⟩
  · rw [List.getElem?_append_right (Nat.le_of_not_lt hlt)] at hn
    exact .inr ⟨Nat.le_of_not_lt hlt, n, hn, hid⟩

theorem Walks.documents (h : Walks layout active entries nodes sources new finished) :
    ∀ n ∈ new, ∃ d, n.document = layout.withoutLineage d := by
  induction h with
  | done => simp
  | repeated _ _ _ _ _ _ ih => exact ih
  | @first _ _ d _ _ _ _ _ _ _ _ _ _ _ _ _ _ _ ihbelow ihrest =>
      intro n hn
      rcases List.mem_append.mp hn with hn | hn
      · rcases List.mem_cons.mp hn with rfl | hn
        · exact ⟨d, rfl⟩
        · exact ihbelow n hn
      · exact ihrest n hn

theorem Walks.in_range (h : Walks layout active entries nodes sources new finished) :
    ∀ j ∈ sources.map Prod.snd ++ targets new, j < nodes.length + new.length := by
  induction h with
  | done => simp [targets]
  | repeated _ hn _ _ _ _ ih =>
      intro j hj
      rcases List.mem_cons.mp hj with rfl | hj
      · exact Nat.lt_add_right _ (List.getElem?_eq_some_iff.mp hn).1
      · exact ih j hj
  | first _ _ _ _ _ ihbelow ihrest =>
      intro j hj
      simp only [List.map_cons, targets_append, targets_cons, List.length_append, List.length_cons,
        List.length_nil, List.mem_append, List.mem_cons] at hj ihbelow ihrest ⊢
      rcases hj with (rfl | hj) | (hj | hj) | hj
      · omega
      · have hlt := ihrest j (.inl hj)
        omega
      · have hlt := ihbelow j (.inl hj)
        omega
      · have hlt := ihbelow j (.inr hj)
        omega
      · have hlt := ihrest j (.inr hj)
        omega

/-- A new node is referred to by the entries that the walk is over, or by a smaller node. -/
theorem Walks.referenced (h : Walks layout active entries nodes sources new finished)
    (hnew : Resolver.Continues g nodes new) {j : Nat} (hge : nodes.length ≤ j)
    (hlt : j < nodes.length + new.length) :
    j ∈ sources.map Prod.snd ∨ ∃ i, i < j ∧ g.Refers i j := by
  induction h with
  | done => exact absurd hlt (Nat.not_lt.mpr hge)
  | repeated _ _ _ _ _ _ ih => exact (ih hnew hge hlt).imp_left (List.mem_cons_of_mem _)
  | @first _ _ _ _ _ nodes _ inner _ below more _ _ _ _ _ _ _ ihbelow ihrest =>
      simp only [List.length_append, List.length_cons, List.length_nil] at hlt ihbelow ihrest
      rcases Nat.eq_or_lt_of_le hge with rfl | hgt
      · exact .inl List.mem_cons_self
      by_cases hinner : j < nodes.length + 1 + below.length
      · right
        rcases ihbelow hnew.opened hgt hinner with hj | hreferred
        · exact ⟨nodes.length, hgt, refers_of_getElem? hnew.next hj⟩
        · exact hreferred
      · exact (ihrest hnew.closed (by omega) (by omega)).imp_left (List.mem_cons_of_mem _)

/-- A new node without an identity is referred to once, any other such node not at all. -/
theorem Walks.count_anonymous (h : Walks layout active entries nodes sources new finished)
    (hnew : Resolver.Continues g nodes new) {j : Nat} (hj : (g.node j).id = none) :
    (sources.map Prod.snd ++ targets new).count j =
      if nodes.length ≤ j ∧ j < nodes.length + new.length then 1 else 0 := by
  induction h with
  | done => simp [targets]
  | @repeated _ _ _ _ _ _ i _ _ _ _ _ hn hid _ _ _ ih =>
      have hne : i ≠ j := by
        rintro rfl
        obtain ⟨m, hm, hmid⟩ := hnew.getElem? hn
        rw [node_eq hm, hmid, hid] at hj
        cases hj
      rw [List.map_cons, List.cons_append, List.count_cons_of_ne hne, ih hnew]
  | @first _ _ _ _ _ nodes _ inner sources below more _ _ _ _ _ _ _ ihbelow ihrest =>
      have hbelow := ihbelow hnew.opened
      have hrest := ihrest hnew.closed
      simp only [List.map_cons, targets_append, targets_cons, List.count_append, List.count_cons,
        List.length_append, List.length_cons, List.length_nil, beq_iff_eq, List.cons_append]
        at hbelow hrest ⊢
      split at hbelow <;> split at hrest <;> split <;> split <;> omega

/-- No infinite chain of references starts at a node whose identity is not active. -/
def Grounded (g : LineageGraph) (active : List Identity) (nodes : List LineageNode) : Prop :=
  ∀ i id, Carries nodes i id → id ∈ active ∨ Acc (Function.swap g.Refers) i

theorem Grounded.opened (h : Grounded g active nodes) (n : LineageNode) :
    Grounded g (n.id.toList ++ active) (nodes ++ [n]) := by
  intro i id hcarries
  rcases carries_append hcarries with hcarries | ⟨-, m, hm, hid⟩
  · exact (h i id hcarries).imp_left (List.mem_append_right _)
  · cases List.mem_singleton.mp (List.mem_of_getElem? hm)
    exact .inl (List.mem_append_left _ (Option.mem_toList.mpr hid))

theorem Grounded.closed {more : List LineageNode} (h : Grounded g active nodes)
    (hmore : ∀ i, nodes.length ≤ i → i < nodes.length + more.length →
      Acc (Function.swap g.Refers) i) : Grounded g active (nodes ++ more) := by
  intro i id hcarries
  rcases carries_append hcarries with hcarries | ⟨hge, n, hn, -⟩
  · exact h i id hcarries
  · have hlt := (List.getElem?_eq_some_iff.mp hn).1
    exact .inr (hmore i hge (by omega))

/-- A walk refers to closed nodes only, and closes those that it adds. -/
theorem Walks.grounded (h : Walks layout active entries nodes sources new finished)
    (hnew : Resolver.Continues g nodes new) (hnodes : Grounded g active nodes) :
    (∀ s ∈ sources, Acc (Function.swap g.Refers) s.2) ∧
      ∀ i, nodes.length ≤ i → i < nodes.length + new.length →
        Acc (Function.swap g.Refers) i := by
  induction h with
  | done => exact ⟨by simp, fun i hge hlt => absurd hlt (Nat.not_lt.mpr hge)⟩
  | repeated _ hn hid hactive _ _ ih =>
      obtain ⟨hsources, hadded⟩ := ih hnew hnodes
      refine ⟨?_, hadded⟩
      intro s hs
      rcases List.mem_cons.mp hs with rfl | hs
      · exact (hnodes _ _ ⟨_, hn, hid⟩).resolve_left hactive
      · exact hsources s hs
  | @first active _ d _ _ nodes id inner _ below more _ _ _ _ _ _ _ ihbelow ihrest =>
      simp only [List.length_append, List.length_cons, List.length_nil] at ihbelow ihrest ⊢
      obtain ⟨hinner, hbelow⟩ :=
        ihbelow hnew.opened (hnodes.opened ⟨id, layout.withoutLineage d, []⟩)
      have hnext : Acc (Function.swap g.Refers) nodes.length := by
        refine ⟨_, ?_⟩
        rintro j ⟨classifier, hs⟩
        rw [node_eq hnew.next] at hs
        exact hinner _ hs
      have hclosed : ∀ i, nodes.length ≤ i → i < nodes.length + (below.length + 1) →
          Acc (Function.swap g.Refers) i := by
        intro i hge hlt
        rcases Nat.eq_or_lt_of_le hge with rfl | hgt
        · exact hnext
        · exact hbelow i hgt (by omega)
      obtain ⟨hsources, hmore⟩ := ihrest hnew.closed (hnodes.closed hclosed)
      refine ⟨?_, ?_⟩
      · intro s hs
        rcases List.mem_cons.mp hs with rfl | hs
        · exact hnext
        · exact hsources s hs
      · intro i hge hlt
        by_cases hlow : i < nodes.length + (below.length + 1)
        · exact hclosed i hge hlow
        · exact hmore i (by omega) (by omega)

theorem not_transGen_self {i : Nat} (h : Acc (Function.swap g.Refers) i) :
    ¬ Relation.TransGen g.Refers i i := by
  induction h with
  | intro i _ ih =>
      intro hcycle
      obtain ⟨j, hij, hji⟩ := Relation.TransGen.head'_iff.mp hcycle
      exact ih j hij (Relation.TransGen.tail' hji hij)

/-- If every other node is referred to by a smaller one, all can be reached from node 0. -/
theorem reachable_of_referenced
    (h : ∀ i, 0 < i → i < g.size → ∃ j, j < i ∧ g.Refers j i) {i : Nat} (hi : i < g.size) :
    Relation.ReflTransGen g.Refers 0 i := by
  induction i using Nat.strong_induction_on with
  | _ i ih =>
      rcases Nat.eq_zero_or_pos i with rfl | hpos
      · exact .refl
      · obtain ⟨j, hlt, hj⟩ := h i hpos hi
        exact (ih j hlt (Nat.lt_trans hlt hi)).tail hj

/-- The walk over a root document makes it node 0. -/
theorem Walks.root {classifier : String} {d : Document}
    (h : Walks layout [] [(classifier, d)] [] [(classifier, 0)] new finished) :
    ∃ n, new[0]? = some n ∧ layout.identity d = .ok n.id ∧
      n.document = layout.withoutLineage d := by
  cases h with
  | repeated _ hm => simp at hm
  | first hid => exact ⟨_, rfl, hid, rfl⟩

section OfDocument

variable {d : Document} (h : ofDocument? layout d = .ok g)
include h

/-- The root stands for the document. -/
theorem root_of_ofDocument? :
    0 < g.size ∧ layout.identity d = .ok g.root.id ∧ g.root.document = layout.withoutLineage d := by
  obtain ⟨finished, hwalk⟩ := walks_of_ofDocument? h ""
  obtain ⟨root, hroot, hid, hdocument⟩ := hwalk.root
  have hnode : g.root = root := node_eq hroot
  rw [hnode]
  exact ⟨(List.getElem?_eq_some_iff.mp hroot).1, hid, hdocument⟩

theorem lt_size_of_refers {i j : Nat} (hij : g.Refers i j) : j < g.size := by
  obtain ⟨finished, hwalk⟩ := walks_of_ofDocument? h ""
  have hlt := hwalk.in_range j (List.mem_append_right _ (mem_targets_iff.mpr ⟨i, hij⟩))
  rwa [List.length_nil, Nat.zero_add] at hlt

theorem exists_smaller_referrer {i : Nat} (hpos : 0 < i) (hi : i < g.size) :
    ∃ j, j < i ∧ g.Refers j i := by
  obtain ⟨finished, hwalk⟩ := walks_of_ofDocument? h ""
  have hlt : i < ([] : List LineageNode).length + g.nodes.length := by
    rwa [List.length_nil, Nat.zero_add]
  rcases hwalk.referenced Resolver.continues_nil (Nat.zero_le i) hlt with hroot | hreferred
  · cases List.mem_singleton.mp hroot
    cases hpos
  · exact hreferred

theorem not_transGen_of_ofDocument? (i : Nat) : ¬ Relation.TransGen g.Refers i i := by
  intro hcycle
  obtain ⟨finished, hwalk⟩ := walks_of_ofDocument? h ""
  have hgrounded : Grounded g [] [] := by
    rintro i id ⟨n, hn, -⟩
    cases hn
  obtain ⟨j, -, hji⟩ := Relation.TransGen.tail'_iff.mp hcycle
  have hlt : i < ([] : List LineageNode).length + g.nodes.length := by
    rw [List.length_nil, Nat.zero_add]
    exact lt_size_of_refers h hji
  obtain ⟨-, hnodes⟩ := hwalk.grounded Resolver.continues_nil hgrounded
  exact not_transGen_self (hnodes i (Nat.zero_le i) hlt) hcycle

theorem count_targets_of_anonymous {i : Nat} (hpos : 0 < i) (hi : i < g.size)
    (hanonymous : (g.node i).id = none) : (targets g.nodes).count i = 1 := by
  obtain ⟨finished, hwalk⟩ := walks_of_ofDocument? h ""
  have hcount := hwalk.count_anonymous Resolver.continues_nil hanonymous
  have hnew : ([] : List LineageNode).length ≤ i ∧
      i < ([] : List LineageNode).length + g.nodes.length := by
    rw [List.length_nil, Nat.zero_add]
    exact ⟨Nat.zero_le i, hi⟩
  rwa [if_pos hnew, List.map_singleton, List.singleton_append,
    List.count_cons_of_ne (Nat.ne_of_lt hpos)] at hcount

end OfDocument

/-- Every deduplicated graph is well formed, when sources stand under a key. -/
theorem wellFormed_of_ofDocument? {k : String} {d : Document}
    (hlast : layout.sources.getLast? = some (.key k)) (h : ofDocument? layout d = .ok g) :
    g.WellFormed layout d := by
  have hnodup := nodup_identities_of_ofDocument? h
  obtain ⟨finished, hwalk⟩ := walks_of_ofDocument? h ""
  obtain ⟨root, hnode, hid, hdocument⟩ := hwalk.root
  have hreachable : ∀ i, i < g.size → Relation.ReflTransGen g.Refers 0 i :=
    fun i => reachable_of_referenced fun i => exists_smaller_referrer h
  refine
    { nonempty := (List.getElem?_eq_some_iff.mp hnode).1
      root_id := ?_
      root_document := ?_
      in_range := fun i j => lt_size_of_refers h
      indexOf?_iff := ?_
      unique := fun i j id => carries_unique hnodup
      acyclic := not_transGen_of_ofDocument? h
      reachable := hreachable
      referenced := fun i => exists_smaller_referrer h
      anonymous_once := fun i => count_targets_of_anonymous h
      root_unreferenced := ?_
      no_lineage := ?_ }
  · rw [node_eq hnode, hid]
  · rw [node_eq hnode, hdocument]
  · intro id i
    rw [indexOf?_eq_some_iff hnodup, carries_iff]
  · -- A reference to the root would close a cycle, as the root reaches every node.
    intro i hi
    obtain ⟨n, hn, -⟩ := hi.exists_node
    have hlt : i < g.size := (List.getElem?_eq_some_iff.mp hn).1
    exact not_transGen_of_ofDocument? h 0 (Relation.TransGen.tail' (hreachable i hlt) hi)
  · intro n hn
    obtain ⟨e, he⟩ := hwalk.documents n hn
    rw [he]
    exact Layout.get?_sources_withoutLineage hlast e

section SharedLineage

/-- Datasets 1 and 3 both come from dataset 2, which comes from a dataset without identity. -/
def sharedLineage : Document :=
  let shared := fieldsOf '2' [("raw", .mapping [("name", .text "scene")])]
  .ofFields (fieldsOf '1'
    [("a", .mapping shared), ("b", .mapping (fieldsOf '3' [("a", .mapping shared)]))])

def sharedGraph : LineageGraph :=
  let body := fun digit => sourcesLayout.withoutLineage (.ofFields (fieldsOf digit []))
  ⟨[⟨some firstId, body '1', [("a", 1), ("b", 3)]⟩,
    ⟨some ⟨0x22222222222222222222222222222222⟩, body '2', [("raw", 2)]⟩,
    ⟨none, .ofFields [("name", .text "scene")], []⟩,
    ⟨some ⟨0x33333333333333333333333333333333⟩, body '3', [("a", 1)]⟩]⟩

/-- Node 1 is referred to twice, also by a greater node. -/
theorem wellFormed_sharedGraph :
    sourcesLayout.sources.getLast? = some (.key "sources") ∧
      ofDocument? sourcesLayout sharedLineage = .ok sharedGraph ∧
      sharedGraph.WellFormed sourcesLayout sharedLineage := by
  have hlast : sourcesLayout.sources.getLast? = some (.key "sources") := by
    rfl
  have hgraph : ofDocument? sourcesLayout sharedLineage = .ok sharedGraph := by
    rfl
  exact ⟨hlast, hgraph, wellFormed_of_ofDocument? hlast hgraph⟩

end SharedLineage

end LineageGraph

end DatasetCatalog
