import DatasetCatalog.Dataset.Resolution
import DatasetCatalog.Proofs.Catalog.Operation
import DatasetCatalog.Proofs.Lineage.Walk
import Mathlib.Data.Set.Function

/-!
# From the lineage graph to the dataset graph

Lineage nodes are numbered as the walk opens them, datasets as they are finished. `Built` holds of
the datasets at any time during the assembly; its list gives for each of them the lineage node that
it was built for. An induction over the walk that made the lineage graph shows that the assembly
builds every node once, in the order in which the walk finished them.
-/

namespace DatasetCatalog

namespace Resolver

/-- The first sources are the second ones, with the datasets that were built for their nodes. -/
def Mirrors (order : List Nat) : List (String × Nat) → List (String × Nat) → Prop :=
  List.Forall₂ fun s t => s.1 = t.1 ∧ order[s.2]? = some t.2

/-- The catalogued product of a lineage node, or else the one that matches. -/
def HasProduct (r : Resolver) (known : OrderedMap Identity Entry) (n : LineageNode) (p : Product) :
    Prop :=
  match n.id.bind known.find? with
  | some entry => entry.product = p
  | none => r.matcher.matchDocument n.document = .ok p

/-- The dataset of lineage node `i`, whose sources are among the datasets built before it. -/
structure BuiltFor (r : Resolver) (known : OrderedMap Identity Entry) (g : LineageGraph)
    (uri : String) (order : List Nat) (d : Dataset) (i : Nat) : Prop where
  id : d.id = (g.node i).id
  metadata : d.metadata = (g.node i).document
  product : HasProduct r known (g.node i) d.product
  uris : d.uris = if i = 0 then [uri] else []
  sources : Mirrors order d.sources (g.node i).sources

/-- The datasets are built for the nodes in `order`, one after the other. -/
inductive Built (r : Resolver) (known : OrderedMap Identity Entry) (g : LineageGraph)
    (uri : String) : List Nat → List Dataset → Prop
  | nil : Built r known g uri [] []
  | snoc {order : List Nat} {datasets : List Dataset} {d : Dataset} {i : Nat} :
    Built r known g uri order datasets → BuiltFor r known g uri order d i →
    Built r known g uri (order ++ [i]) (datasets ++ [d])

variable {r : Resolver} {known : OrderedMap Identity Entry} {g : LineageGraph} {uri : String}

theorem Mirrors.append {order : List Nat} {built sources : List (String × Nat)}
    (h : Mirrors order built sources) (more : List Nat) :
    Mirrors (order ++ more) built sources := by
  refine List.Forall₂.imp (fun s t hst => ⟨hst.1, ?_⟩) h
  rw [List.getElem?_append_left (List.getElem?_eq_some_iff.mp hst.2).1]
  exact hst.2

theorem Built.length_eq {order : List Nat} {datasets : List Dataset}
    (h : Built r known g uri order datasets) : order.length = datasets.length := by
  induction h with
  | nil => rfl
  | snoc _ _ ih => rw [List.length_append, List.length_append, ih]; rfl

/-- Each dataset has its node. -/
theorem Built.builtFor {order : List Nat} {datasets : List Dataset}
    (h : Built r known g uri order datasets) {k : Nat} {d : Dataset} {i : Nat}
    (hd : datasets[k]? = some d) (hi : order[k]? = some i) :
    BuiltFor r known g uri (order.take k) d i := by
  induction h with
  | nil => cases hd
  | @snoc order datasets e j hbuilt hfor ih =>
      have hlength := hbuilt.length_eq
      rcases Nat.lt_trichotomy k order.length with hlt | rfl | hgt
      · rw [List.getElem?_append_left (by omega)] at hd hi
        rw [List.take_append_of_le_length (by omega)]
        exact ih hd hi
      · rw [List.getElem?_concat_length] at hi
        rw [hlength, List.getElem?_concat_length] at hd
        cases hd
        cases hi
        rw [List.take_left]
        exact hfor
      · have hout := (List.getElem?_eq_some_iff.mp hd).1
        rw [List.length_append, List.length_singleton] at hout
        omega

theorem Built.exists_dataset {order : List Nat} {datasets : List Dataset}
    (h : Built r known g uri order datasets) {k i : Nat} (hi : order[k]? = some i) :
    ∃ d, datasets[k]? = some d ∧ BuiltFor r known g uri (order.take k) d i := by
  have hlt := (List.getElem?_eq_some_iff.mp hi).1
  rw [h.length_eq] at hlt
  exact ⟨_, List.getElem?_eq_getElem hlt, h.builtFor (List.getElem?_eq_getElem hlt) hi⟩

theorem Built.exists_node {order : List Nat} {datasets : List Dataset}
    (h : Built r known g uri order datasets) {k : Nat} {d : Dataset}
    (hd : datasets[k]? = some d) :
    ∃ i, order[k]? = some i ∧ BuiltFor r known g uri (order.take k) d i := by
  have hlt := (List.getElem?_eq_some_iff.mp hd).1
  rw [← h.length_eq] at hlt
  exact ⟨_, List.getElem?_eq_getElem hlt, h.builtFor hd (List.getElem?_eq_getElem hlt)⟩

/-! ## One dataset -/

theorem built?_eq_some {a : Assembly} {id : Option Identity} {k : Nat} (h : a.built? id = some k) :
    ∃ found d, id = some found ∧ a.nodes[k]? = some d ∧ d.id = some found := by
  obtain ⟨found, rfl, hk⟩ := Option.bind_eq_some_iff.mp h
  obtain ⟨hlt, hsame, -⟩ := List.findIdx?_eq_some_iff_getElem.mp hk
  exact ⟨found, a.nodes[k], rfl, List.getElem?_eq_getElem hlt, by simpa using hsame⟩

theorem built?_eq_none {a : Assembly} {id : Identity} (h : a.built? (some id) = none) :
    ∀ d ∈ a.nodes, d.id ≠ some id := by
  intro d hd hsame
  simpa [hsame] using List.findIdx?_eq_none_iff.mp h d hd

/-- Placing a dataset appends it with its product, and counts it. -/
theorem place_eq_ok {i j : Nat} {sources : List (String × Nat)} {a b : Assembly}
    (h : r.place known g uri i sources a = .ok (j, b)) :
    j = a.nodes.length ∧
      (∃ product, HasProduct r known (g.node i) product ∧
        b.nodes = a.nodes ++ [⟨(g.node i).id, product, (g.node i).document,
          if i = 0 then [uri] else [], sources⟩]) ∧
      b.stats.matched + b.stats.fromCatalog = a.stats.matched + a.stats.fromCatalog + 1 ∧
      b.stats.reused = a.stats.reused := by
  obtain ⟨⟨product, c⟩, hclassify, hplaced⟩ := bind_eq_ok.mp h
  cases hplaced
  rw [classify] at hclassify
  split at hclassify
  next entry hentry =>
    cases hclassify
    refine ⟨rfl, ⟨_, ?_, rfl⟩, ?_, rfl⟩
    · rw [HasProduct, hentry]
    · exact Nat.add_assoc _ _ 1
  next hnone =>
    split at hclassify
    next hmatch =>
      cases hclassify
      refine ⟨rfl, ⟨_, ?_, rfl⟩, ?_, rfl⟩
      · rw [HasProduct, hnone]
        exact hmatch
      · exact Nat.add_right_comm _ 1 _
    next => cases hclassify

theorem Built.place {order : List Nat} {i j : Nat} {sources : List (String × Nat)}
    {a b : Assembly} (h : Built r known g uri order a.nodes)
    (hsources : Mirrors order sources (g.node i).sources)
    (hplace : r.place known g uri i sources a = .ok (j, b)) :
    j = order.length ∧ Built r known g uri (order ++ [i]) b.nodes := by
  obtain ⟨rfl, ⟨product, hproduct, hnodes⟩, -, -⟩ := place_eq_ok hplace
  refine ⟨h.length_eq.symm, ?_⟩
  rw [hnodes]
  exact .snoc h ⟨rfl, rfl, hproduct, rfl, hsources⟩

theorem assembleSources_congr
    {first second : Nat → Assembly → Except ResolveError (Nat × Assembly)}
    (h : ∀ i a, first i a = second i a) (sources : List (String × Nat)) (a : Assembly) :
    assembleSources first sources a = assembleSources second sources a :=
  congrArg (fun assembleNode => assembleSources assembleNode sources a)
    (funext fun i => funext (h i))

/-- The rules and the catalog only have a say in how nodes are classified. -/
theorem assemble_congr {r' : Resolver} {known' : OrderedMap Identity Entry}
    (h : ∀ n a, r.classify known n a = r'.classify known' n a) (levels i : Nat) (a : Assembly) :
    r.assemble known g uri levels i a = r'.assemble known' g uri levels i a := by
  have hplace : ∀ i sources a,
      r.place known g uri i sources a = r'.place known' g uri i sources a := by
    intro i sources a
    rw [place, place, h]
  induction levels generalizing i a with
  | zero => exact hplace i [] a
  | succ levels ih =>
      rw [assemble, assemble]
      simp only [assembleSources_congr ih, hplace]

/-! ## Failures -/

/-- Only matching can fail. -/
theorem place_eq_error {i : Nat} {sources : List (String × Nat)} {a : Assembly} {e : ResolveError}
    (h : r.place known g uri i sources a = .error e) : ∃ cause, e = .unmatched cause := by
  rcases bind_eq_error.mp h with hclassify | ⟨_, -, ⟨⟩⟩
  rw [classify] at hclassify
  split at hclassify
  next => cases hclassify
  next =>
    split at hclassify
    next => cases hclassify
    next cause _ =>
      cases hclassify
      exact ⟨cause, rfl⟩

theorem assembleSources_eq_error
    {assembleNode : Nat → Assembly → Except ResolveError (Nat × Assembly)} {e : ResolveError}
    {sources : List (String × Nat)} {a : Assembly}
    (h : assembleSources assembleNode sources a = .error e) :
    ∃ i b, assembleNode i b = .error e := by
  induction sources generalizing a with
  | nil => cases h
  | cons s rest ih =>
      rcases bind_eq_error.mp h with hfirst | ⟨_, -, h⟩
      · exact ⟨s.2, a, hfirst⟩
      · rcases bind_eq_error.mp h with hrest | ⟨_, -, ⟨⟩⟩
        exact ih hrest

theorem assemble_eq_error {levels i : Nat} {a : Assembly} {e : ResolveError}
    (h : r.assemble known g uri levels i a = .error e) : ∃ cause, e = .unmatched cause := by
  induction levels generalizing i a with
  | zero => exact place_eq_error h
  | succ levels ih =>
      rw [assemble] at h
      split at h
      next => cases h
      next =>
        rcases bind_eq_error.mp h with hbelow | ⟨_, -, h⟩
        · obtain ⟨_, _, hnode⟩ := assembleSources_eq_error hbelow
          exact ih hnode
        · exact place_eq_error h

/-! ## The whole assembly -/

/-- Apart from sources the graph's nodes begin like `nodes`; `new` comes next. -/
def Continues (g : LineageGraph) (nodes new : List LineageNode) : Prop :=
  ∃ before after, before.map LineageGraph.face = nodes.map LineageGraph.face ∧
    g.nodes = before ++ new ++ after

theorem continues_nil : Continues g [] g.nodes := ⟨[], [], rfl, by simp⟩

theorem Continues.length_eq {before nodes : List LineageNode}
    (h : before.map LineageGraph.face = nodes.map LineageGraph.face) :
    before.length = nodes.length := by
  simpa using congrArg List.length h

theorem Continues.length_le {nodes new : List LineageNode} (h : Continues g nodes new) :
    nodes.length + new.length ≤ g.size := by
  obtain ⟨before, after, hface, hg⟩ := h
  rw [LineageGraph.size, hg, List.length_append, List.length_append, Continues.length_eq hface]
  exact Nat.le_add_right _ _

/-- A node that was found stays what it is when it is opened. -/
theorem Continues.exists_face {nodes new : List LineageNode} (h : Continues g nodes new) {i : Nat}
    {n : LineageNode} (hn : nodes[i]? = some n) :
    ∃ m, g.nodes[i]? = some m ∧ LineageGraph.face m = LineageGraph.face n := by
  obtain ⟨before, after, hface, hg⟩ := h
  have hsame : (before.map LineageGraph.face)[i]? = some (LineageGraph.face n) := by
    rw [hface, List.getElem?_map, hn]
    rfl
  rw [List.getElem?_map] at hsame
  obtain ⟨m, hm, hmn⟩ := Option.map_eq_some_iff.mp hsame
  refine ⟨m, ?_, hmn⟩
  rw [hg, List.append_assoc, List.getElem?_append_left (List.getElem?_eq_some_iff.mp hm).1, hm]

theorem Continues.getElem? {nodes new : List LineageNode} (h : Continues g nodes new) {i : Nat}
    {n : LineageNode} (hn : nodes[i]? = some n) : ∃ m, g.nodes[i]? = some m ∧ m.id = n.id := by
  obtain ⟨m, hm, hmn⟩ := h.exists_face hn
  exact ⟨m, hm, (Prod.mk.inj hmn).1⟩

theorem Continues.next {nodes rest : List LineageNode} {n : LineageNode}
    (h : Continues g nodes (n :: rest)) : g.nodes[nodes.length]? = some n := by
  obtain ⟨before, after, hface, hg⟩ := h
  rw [hg, ← Continues.length_eq hface, List.append_assoc, List.getElem?_append_right (Nat.le_refl _),
    Nat.sub_self]
  rfl

theorem Continues.opened {nodes below more : List LineageNode} {n : LineageNode}
    (h : Continues g nodes (n :: below ++ more)) :
    Continues g (nodes ++ [{ n with sources := [] }]) below := by
  obtain ⟨before, after, hface, hg⟩ := h
  refine ⟨before ++ [n], more ++ after, ?_, ?_⟩
  · rw [List.map_append, List.map_append, hface]
    rfl
  · rw [hg]
    simp

theorem Continues.closed {nodes below more : List LineageNode} {n : LineageNode}
    (h : Continues g nodes (n :: below ++ more)) : Continues g (nodes ++ n :: below) more := by
  obtain ⟨before, after, hface, hg⟩ := h
  refine ⟨before ++ n :: below, after, ?_, ?_⟩
  · rw [List.map_append, List.map_append, hface]
  · rw [hg, ← List.append_assoc before (n :: below)]

/-- In the middle of an assembly every node that the walk has found is built or is in the lineage
being walked over, and the remaining levels suffice for the nodes not found yet. -/
structure Ready (r : Resolver) (known : OrderedMap Identity Entry) (g : LineageGraph)
    (uri : String) (active : List Identity) (nodes : List LineageNode) (levels : Nat)
    (order : List Nat) (a : Assembly) : Prop where
  built : Built r known g uri order a.nodes
  bound : ∀ i ∈ order, i < nodes.length
  settled : ∀ i id, LineageGraph.Carries nodes i id → id ∈ active ∨ i ∈ order
  levels : g.size + order.length ≤ levels + nodes.length

section Ready

variable {active : List Identity} {nodes new : List LineageNode} {levels : Nat} {order : List Nat}
  {a b : Assembly}

theorem Ready.reuse (h : Ready r known g uri active nodes levels order a) :
    Ready r known g uri active nodes levels order a.reuse :=
  ⟨h.built, h.bound, h.settled, h.levels⟩

/-- A node whose identity is no longer active is found again. -/
theorem Ready.built?_of_settled (h : Ready r known g uri active nodes levels order a)
    (hnodup : (LineageGraph.identities g.nodes).Nodup) (hnew : Continues g nodes new) {i : Nat}
    {n : LineageNode} {id : Identity} (hn : nodes[i]? = some n) (hid : n.id = some id)
    (hactive : id ∉ active) : ∃ k, a.built? (g.node i).id = some k ∧ order[k]? = some i := by
  obtain ⟨m, hm, hmid⟩ := hnew.getElem? hn
  rw [hid] at hmid
  have hi : i ∈ order := (h.settled i id ⟨n, hn, hid⟩).resolve_left hactive
  rw [LineageGraph.node_eq hm, hmid]
  cases hk : a.built? (some id) with
  | none =>
      obtain ⟨k, hk'⟩ := List.mem_iff_getElem?.mp hi
      obtain ⟨d, hd, hfor⟩ := h.built.exists_dataset hk'
      have hdid : d.id = some id := by
        rw [hfor.id, LineageGraph.node_eq hm, hmid]
      exact (built?_eq_none hk d (List.mem_of_getElem? hd) hdid).elim
  | some k =>
      refine ⟨k, rfl, ?_⟩
      obtain ⟨_, d, ⟨⟩, hd, hdid⟩ := built?_eq_some hk
      obtain ⟨j, hj, hfor⟩ := h.built.exists_node hd
      have hlt : j < g.nodes.length :=
        Nat.lt_of_lt_of_le (h.bound j (List.mem_of_getElem? hj))
          (Nat.le_trans (Nat.le_add_right _ _) hnew.length_le)
      have hjid : g.nodes[j].id = some id := by
        rw [← hdid, hfor.id, LineageGraph.node_eq (List.getElem?_eq_getElem hlt)]
      rw [hj, LineageGraph.carries_unique hnodup ⟨_, List.getElem?_eq_getElem hlt, hjid⟩
        ⟨m, hm, hmid⟩]

/-- A node of a new identity, or of none, is not there yet. -/
theorem Ready.built?_of_fresh (h : Ready r known g uri active nodes levels order a)
    (hnew : Continues g nodes new) {id : Option Identity}
    (hfresh : ∀ i ∈ id, i ∉ LineageGraph.identities nodes) : a.built? id = none := by
  cases hk : a.built? id with
  | none => rfl
  | some k =>
      obtain ⟨found, d, rfl, hd, hdid⟩ := built?_eq_some hk
      obtain ⟨j, hj, hfor⟩ := h.built.exists_node hd
      have hlt := h.bound j (List.mem_of_getElem? hj)
      obtain ⟨m, hm, hmid⟩ := hnew.getElem? (List.getElem?_eq_getElem hlt)
      refine (hfresh found rfl ?_).elim
      refine LineageGraph.mem_identities.mpr ⟨nodes[j], List.getElem_mem hlt, ?_⟩
      rw [← hmid, ← hdid, hfor.id, LineageGraph.node_eq hm]

theorem Ready.opened (h : Ready r known g uri active nodes (levels + 1) order a)
    (n : LineageNode) :
    Ready r known g uri (n.id.toList ++ active) (nodes ++ [n]) levels order a := by
  refine ⟨h.built, ?_, ?_, ?_⟩
  · intro i hi
    rw [List.length_append]
    exact Nat.lt_add_right _ (h.bound i hi)
  · rintro i id ⟨m, hm, hid⟩
    by_cases hlt : i < nodes.length
    · rw [List.getElem?_append_left hlt] at hm
      rcases h.settled i id ⟨m, hm, hid⟩ with hactive | hi
      · exact .inl (List.mem_append_right _ hactive)
      · exact .inr hi
    · rw [List.getElem?_append_right (Nat.le_of_not_lt hlt)] at hm
      cases List.mem_singleton.mp (List.mem_of_getElem? hm)
      refine .inl (List.mem_append_left _ ?_)
      rw [hid]
      exact List.mem_singleton_self id
  · have hlevels := h.levels
    rw [List.length_append, List.length_singleton]
    omega

/-- With its lineage finished a node is built, and its identity need not be active any more. -/
theorem Ready.closed (h : Ready r known g uri active nodes levels order a) {n : LineageNode}
    {below : List LineageNode} {earlier : List Nat}
    (hperm : earlier.Perm (List.range' (nodes.length + 1) below.length))
    (hbuilt : Built r known g uri (order ++ earlier ++ [nodes.length]) b.nodes) :
    Ready r known g uri active (nodes ++ n :: below) levels (order ++ earlier ++ [nodes.length])
      b := by
  refine ⟨hbuilt, ?_, ?_, ?_⟩
  · intro i hi
    rw [List.length_append, List.length_cons]
    simp only [List.mem_append, hperm.mem_iff, List.mem_range'_1, List.mem_singleton] at hi
    rcases hi with (hi | hi) | rfl
    · have hlt := h.bound i hi
      omega
    · omega
    · omega
  · rintro i id ⟨m, hm, hid⟩
    have hbound := (List.getElem?_eq_some_iff.mp hm).1
    rw [List.length_append, List.length_cons] at hbound
    by_cases hlt : i < nodes.length
    · rw [List.getElem?_append_left hlt] at hm
      rcases h.settled i id ⟨m, hm, hid⟩ with hactive | hi
      · exact .inl hactive
      · exact .inr (List.mem_append_left _ (List.mem_append_left _ hi))
    · right
      simp only [List.mem_append, hperm.mem_iff, List.mem_range'_1, List.mem_singleton]
      omega
  · have hlevels := h.levels
    have hlength := hperm.length_eq
    rw [List.length_range'] at hlength
    simp only [List.length_append, List.length_cons, List.length_nil]
    omega

end Ready

/-- Building a lineage node finds it, or else builds its sources and places it after them. -/
theorem assemble_eq_ok {levels i j : Nat} {a b : Assembly}
    (h : r.assemble known g uri (levels + 1) i a = .ok (j, b)) :
    (a.built? (g.node i).id = some j ∧ b = a.reuse) ∨
      (a.built? (g.node i).id = none ∧ ∃ sources c,
        assembleSources (r.assemble known g uri levels) (g.node i).sources a = .ok (sources, c) ∧
          r.place known g uri i sources c = .ok (j, b)) := by
  rw [assemble] at h
  split at h
  next hk =>
    cases h
    exact .inl ⟨hk, rfl⟩
  next hk =>
    obtain ⟨⟨sources, c⟩, hsources, hplace⟩ := bind_eq_ok.mp h
    exact .inr ⟨hk, sources, c, hsources, hplace⟩

/-- How many sources these nodes have together. -/
def references (nodes : List LineageNode) : Nat := (nodes.flatMap LineageNode.sources).length

/-- Every new node is classified once, and every reference but the first one to a node is reuse. -/
structure Counted (a b : Assembly) (new : List LineageNode) (count : Nat) : Prop where
  classified : b.stats.matched + b.stats.fromCatalog =
    a.stats.matched + a.stats.fromCatalog + new.length
  reused : b.stats.reused + new.length = a.stats.reused + count + references new

theorem Counted.repeated {a b : Assembly} {new : List LineageNode} {count : Nat}
    (h : Counted a.reuse b new count) : Counted a b new (count + 1) := by
  have hreused := h.reused
  simp only [Assembly.reuse] at hreused
  exact ⟨h.classified, by omega⟩

theorem Counted.first {a b c e : Assembly} {n : LineageNode} {below more : List LineageNode}
    {i j count : Nat} {sources : List (String × Nat)} (hbelow : Counted a c below n.sources.length)
    (hplace : r.place known g uri i sources c = .ok (j, e)) (hmore : Counted e b more count) :
    Counted a b (n :: below ++ more) (count + 1) := by
  obtain ⟨-, -, hclassified, hreused⟩ := place_eq_ok hplace
  refine ⟨?_, ?_⟩
  · have hfewer := hbelow.classified
    have hlater := hmore.classified
    simp only [List.length_append, List.length_cons]
    omega
  · have hfewer := hbelow.reused
    have hlater := hmore.reused
    simp only [references, List.flatMap_append, List.flatMap_cons, List.length_append,
      List.length_cons] at hfewer hlater ⊢
    omega

/-- Building the sources of a walk builds its new nodes in the order in which they are finished. -/
theorem built_of_walks {active : List Identity} {entries : List (String × Document)}
    {nodes new : List LineageNode} {sources built : List (String × Nat)}
    {finished order : List Nat} {levels : Nat} {a b : Assembly}
    (h : LineageGraph.Walks r.layout active entries nodes sources new finished)
    (hnodup : (LineageGraph.identities g.nodes).Nodup) (hnew : Continues g nodes new)
    (hready : Ready r known g uri active nodes levels order a)
    (hrun : assembleSources (r.assemble known g uri levels) sources a = .ok (built, b)) :
    Mirrors (order ++ finished) built sources ∧
      Built r known g uri (order ++ finished) b.nodes ∧ Counted a b new sources.length := by
  induction h generalizing levels order a b built with
  | done =>
      cases hrun
      rw [List.append_nil]
      exact ⟨.nil, hready.built, rfl, rfl⟩
  | @repeated active classifier _ rest nodes id i n sources more later _ hn hid hactive _ _ ih =>
      obtain ⟨k, hk, hki⟩ := hready.built?_of_settled hnodup hnew hn hid hactive
      -- The node is built, so a level is left.
      obtain ⟨levels, rfl⟩ : ∃ m, levels = m + 1 := by
        have hlevels := hready.levels
        have hlength := hnew.length_le
        have horder := (List.getElem?_eq_some_iff.mp hki).1
        exact ⟨levels - 1, by omega⟩
      obtain ⟨⟨j, c⟩, hassemble, hrun⟩ := bind_eq_ok.mp hrun
      obtain ⟨⟨built, _⟩, hrest, ⟨⟩⟩ := bind_eq_ok.mp hrun
      rcases assemble_eq_ok hassemble with ⟨hj, rfl⟩ | ⟨hnone, -⟩
      · cases hk.symm.trans hj
        obtain ⟨hmirrors, hbuilt, hcounted⟩ := ih hnew hready.reuse hrest
        refine ⟨.cons ⟨rfl, ?_⟩ hmirrors, hbuilt, hcounted.repeated⟩
        rw [List.getElem?_append_left (List.getElem?_eq_some_iff.mp hki).1]
        exact hki
      · cases hk.symm.trans hnone
  | @first active classifier d entries rest nodes id inner sources below more earlier later _
      hfresh _ hbelow _ ihbelow ihrest =>
      have hnode := LineageGraph.node_eq hnew.next
      obtain ⟨levels, rfl⟩ : ∃ m, levels = m + 1 := by
        have hlevels := hready.levels
        have hlength := hnew.length_le
        simp only [List.length_append, List.length_cons] at hlength
        exact ⟨levels - 1, by omega⟩
      obtain ⟨⟨j, c⟩, hassemble, hrun⟩ := bind_eq_ok.mp hrun
      obtain ⟨⟨built, _⟩, hrest, ⟨⟩⟩ := bind_eq_ok.mp hrun
      have hnone := hready.built?_of_fresh hnew hfresh
      rcases assemble_eq_ok hassemble with ⟨hj, -⟩ | ⟨-, under, e, hunder, hplace⟩
      · rw [hnode, hnone] at hj
        cases hj
      · rw [hnode] at hunder
        obtain ⟨hmirrors, hbuilt, hcounted⟩ :=
          ihbelow hnew.opened (hready.opened ⟨id, r.layout.withoutLineage d, []⟩) hunder
        obtain ⟨hj, hplaced⟩ := hbuilt.place (by rwa [hnode]) hplace
        have hperm := hbelow.finished_perm
        rw [List.length_append, List.length_singleton] at hperm
        obtain ⟨hmirrors', hbuilt', hcounted'⟩ :=
          ihrest hnew.closed (hready.closed hperm hplaced) hrest
        have horder : order ++ (earlier ++ nodes.length :: later) =
            order ++ earlier ++ [nodes.length] ++ later := by
          simp
        rw [horder]
        refine ⟨.cons ⟨rfl, ?_⟩ hmirrors', hbuilt', .first hcounted hplace hcounted'⟩
        rw [hj, List.getElem?_append_left (by simp), List.getElem?_concat_length]

end Resolver

end DatasetCatalog
