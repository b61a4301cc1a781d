import DatasetCatalog.Lineage.Graph
import DatasetCatalog.Proofs.Document.Difference
import DatasetCatalog.Proofs.Outcome

/-!
# Successful walks over a lineage

`Walks` says what a walk over lineage entries does when it succeeds, without the bound on its depth:
which node each entry leads to, which nodes are new, and in which order their lineages are finished.
`walks_of_ofDocument?` relates every deduplicated graph to such a walk. Facts about graphs are then
inductions over `Walks`, with one case for a repeated identity and one for a first occurrence.
-/

namespace DatasetCatalog

namespace LineageGraph

/-- The identities that have a node, in node order. -/
def identities (nodes : List LineageNode) : List Identity := nodes.filterMap LineageNode.id

/-- Node `i` has this identity. -/
def Carries (nodes : List LineageNode) (i : Nat) (id : Identity) : Prop :=
  ∃ n, nodes[i]? = some n ∧ n.id = some id

/-- A successful walk over the entries, from the nodes found before them: the sources they become,
the nodes they add, and the numbers of these nodes in the order in which they are finished. -/
inductive Walks (layout : Layout) : List Identity → List (String × Document) → List LineageNode →
    List (String × Nat) → List LineageNode → List Nat → Prop
  | done {active : List Identity} {nodes : List LineageNode} : Walks layout active [] nodes [] [] []
  | repeated {active : List Identity} {classifier : String} {d : Document}
      {rest : List (String × Document)} {nodes : List LineageNode} {id : Identity} {i : Nat}
      {n : LineageNode} {sources : List (String × Nat)} {more : List LineageNode}
      {later : List Nat} :
    layout.identity d = .ok (some id) → nodes[i]? = some n → n.id = some id → id ∉ active →
    n.document.changes (layout.withoutLineage d) = [] →
    Walks layout active rest nodes sources more later →
    Walks layout active ((classifier, d) :: rest) nodes ((classifier, i) :: sources) more later
  | first {active : List Identity} {classifier : String} {d : Document}
      {entries rest : List (String × Document)} {nodes : List LineageNode} {id : Option Identity}
      {inner sources : List (String × Nat)} {below more : List LineageNode}
      {earlier later : List Nat} :
    layout.identity d = .ok id → (∀ i ∈ id, i ∉ identities nodes) →
    layout.lineage d = .ok entries →
    Walks layout (id.toList ++ active) entries (nodes ++ [⟨id, layout.withoutLineage d, []⟩])
      inner below earlier →
    Walks layout active rest (nodes ++ ⟨id, layout.withoutLineage d, inner⟩ :: below)
      sources more later →
    Walks layout active ((classifier, d) :: rest) nodes ((classifier, nodes.length) :: sources)
      (⟨id, layout.withoutLineage d, inner⟩ :: below ++ more)
      (earlier ++ nodes.length :: later)

/-- What a walk over one document contributes, whatever entries follow it. -/
def WalksOver (layout : Layout) (active : List Identity) (d : Document) (nodes : List LineageNode)
    (i : Nat) (new : List LineageNode) (finished : List Nat) : Prop :=
  ∀ {classifier : String} {rest : List (String × Document)} {sources : List (String × Nat)}
    {more : List LineageNode} {later : List Nat},
    Walks layout active rest (nodes ++ new) sources more later →
    Walks layout active ((classifier, d) :: rest) nodes ((classifier, i) :: sources) (new ++ more)
      (finished ++ later)

theorem mem_identities {nodes : List LineageNode} {id : Identity} :
    id ∈ identities nodes ↔ ∃ n ∈ nodes, n.id = some id := by
  simp [identities]

theorem identities_append (nodes more : List LineageNode) :
    identities (nodes ++ more) = identities nodes ++ identities more := List.filterMap_append

theorem identities_cons (n : LineageNode) (nodes : List LineageNode) :
    identities (n :: nodes) = n.id.toList ++ identities nodes := by
  rcases n with ⟨_ | id, body, sources⟩ <;> rfl

theorem seen?_eq_some {nodes : List LineageNode} {id : Option Identity} {found : Identity}
    {i : Nat} {n : LineageNode} (h : seen? nodes id = some (found, i, n)) :
    id = some found ∧ nodes[i]? = some n ∧ n.id = some found := by
  simp only [seen?, Option.bind_eq_bind, Option.bind_eq_some_iff, Option.some.injEq,
    Prod.mk.injEq] at h
  obtain ⟨id', hid, j, hj, m, hm, rfl, rfl, rfl⟩ := h
  refine ⟨hid, hm, ?_⟩
  obtain ⟨hlt, hsame, -⟩ := List.findIdx?_eq_some_iff_getElem.mp hj
  rw [List.getElem?_eq_getElem hlt] at hm
  cases hm
  simpa using hsame

theorem seen?_eq_none {nodes : List LineageNode} {id : Option Identity}
    (h : seen? nodes id = none) : ∀ i ∈ id, i ∉ identities nodes := by
  rintro id' rfl hmem
  obtain ⟨n, hn, hsame⟩ := mem_identities.mp hmem
  cases hj : nodes.findIdx? fun n => n.id == some id' with
  | none => simpa [hsame] using List.findIdx?_eq_none_iff.mp hj n hn
  | some j =>
      obtain ⟨hlt, -⟩ := List.findIdx?_eq_some_iff_getElem.mp hj
      simp [seen?, hj, hlt] at h

theorem modify_length_append (nodes below : List LineageNode) (n : LineageNode)
    (f : LineageNode → LineageNode) :
    (nodes ++ n :: below).modify nodes.length f = nodes ++ f n :: below := by
  induction nodes with
  | nil => rfl
  | cons m nodes ih => simp [ih]

variable {layout : Layout}

theorem walks_of_walkEntries {n : Nat} {active : List Identity}
    {walkDocument : (d : Document) → d.size < n → List LineageNode → Walk}
    (hwalk : ∀ {d : Document} {hd : d.size < n} {nodes found : List LineageNode} {i : Nat},
      walkDocument d hd nodes = .ok (i, found) →
      ∃ new finished, found = nodes ++ new ∧ WalksOver layout active d nodes i new finished)
    {entries : List (String × Document)} {hentries : ∀ e ∈ entries, e.2.size < n}
    {nodes found : List LineageNode} {sources : List (String × Nat)}
    (h : walkEntries walkDocument entries hentries nodes = .ok (sources, found)) :
    ∃ new finished, found = nodes ++ new ∧ Walks layout active entries nodes sources new finished := by
  induction entries generalizing nodes found sources with
  | nil =>
      cases h
      exact ⟨[], [], (List.append_nil nodes).symm, .done⟩
  | cons e rest ih =>
      obtain ⟨classifier, d⟩ := e
      obtain ⟨⟨i, middle⟩, hd, h⟩ := bind_eq_ok.mp h
      obtain ⟨⟨later, last⟩, hrest, ⟨⟩⟩ := bind_eq_ok.mp h
      obtain ⟨new, finished, rfl, hover⟩ := hwalk hd
      obtain ⟨more, order, rfl, hmore⟩ := ih hrest
      exact ⟨new ++ more, finished ++ order, List.append_assoc .., hover hmore⟩

/-- A walk that succeeds is one of the two cases of `Walks` at its document. -/
theorem walksOver_of_walk {n : Nat} {active : List Identity} {d : Document} {hd : d.size < n}
    {nodes found : List LineageNode} {i : Nat}
    (h : walk layout n active d hd nodes = .ok (i, found)) :
    ∃ new finished, found = nodes ++ new ∧ WalksOver layout active d nodes i new finished := by
  induction n generalizing active d nodes found i with
  | zero => cases hd
  | succ n ih =>
      rw [walk] at h
      split at h
      next => cases h
      next id hid =>
        split at h
        next id' j m hseen =>
          obtain ⟨rfl, hm, hsame⟩ := seen?_eq_some hseen
          split at h
          next => cases h
          next hactive =>
            dsimp only at h
            split at h
            next hsilent =>
              cases h
              refine ⟨[], [], (List.append_nil nodes).symm, ?_⟩
              intro classifier rest sources more later hrest
              rw [List.append_nil] at hrest
              exact .repeated hid hm hsame hactive hsilent hrest
            next => cases h
        next hseen =>
          split at h
          next => cases h
          next entries hlineage =>
            obtain ⟨⟨inner, all⟩, hinner, ⟨⟩⟩ := bind_eq_ok.mp h
            obtain ⟨below, earlier, rfl, hbelow⟩ := walks_of_walkEntries (fun h => ih h) hinner
            refine ⟨⟨id, layout.withoutLineage d, inner⟩ :: below, earlier ++ [nodes.length], ?_, ?_⟩
            · rw [List.append_assoc, List.singleton_append, modify_length_append]
            · intro classifier rest sources more later hrest
              rw [List.append_assoc, List.singleton_append]
              exact .first hid (seen?_eq_none hseen) hlineage hbelow hrest

/-- Every deduplicated graph comes from a walk over its root document, which becomes node 0. -/
theorem walks_of_ofDocument? {d : Document} {g : LineageGraph}
    (h : ofDocument? layout d = .ok g) (classifier : String) :
    ∃ finished, Walks layout [] [(classifier, d)] [] [(classifier, 0)] g.nodes finished := by
  obtain ⟨⟨i, found⟩, hwalk, rfl⟩ := map_eq_ok.mp h
  obtain ⟨new, finished, rfl, hover⟩ := walksOver_of_walk hwalk
  have hw : Walks layout [] [(classifier, d)] [] [(classifier, i)] (found ++ []) (finished ++ []) :=
    hover .done
  rw [List.append_nil, List.append_nil] at hw
  refine ⟨finished, ?_⟩
  -- No node has been seen, so only the case of a first occurrence is left.
  cases hw with
  | repeated _ hm => simp at hm
  | first hid hfresh hlineage hbelow hrest => exact .first hid hfresh hlineage hbelow hrest

/-! ## Identities -/

/-- Closing a node fills in its sources and leaves its identity. -/
theorem identities_closed (nodes below : List LineageNode) (id : Option Identity) (body : Document)
    (inner : List (String × Nat)) :
    identities (nodes ++ ⟨id, body, inner⟩ :: below) =
      identities (nodes ++ [⟨id, body, []⟩] ++ below) := by
  simp [identities_append, identities_cons]

theorem nodup_identities_opened {nodes : List LineageNode} (hnodup : (identities nodes).Nodup)
    {n : LineageNode} (hfresh : ∀ i ∈ n.id, i ∉ identities nodes) :
    (identities (nodes ++ [n])).Nodup := by
  rw [identities_append, identities_cons, List.nodup_append]
  refine ⟨hnodup, by cases n.id <;> simp [identities], ?_⟩
  rintro a ha b hb rfl
  exact hfresh a (by simpa [identities, eq_comm] using hb) ha

theorem Walks.nodup_identities {active : List Identity} {entries : List (String × Document)}
    {nodes new : List LineageNode} {sources : List (String × Nat)} {finished : List Nat}
    (h : Walks layout active entries nodes sources new finished)
    (hnodup : (identities nodes).Nodup) : (identities (nodes ++ new)).Nodup := by
  induction h with
  | done => rwa [List.append_nil]
  | repeated _ _ _ _ _ _ ih => exact ih hnodup
  | @first _ _ d _ _ nodes id inner _ below more _ _ _ hfresh _ _ _ ihbelow ihrest =>
      have hclosed := ihbelow (nodup_identities_opened hnodup hfresh)
      rw [← identities_closed nodes below id _ inner] at hclosed
      have hall := ihrest hclosed
      rwa [List.append_assoc] at hall

theorem nodup_identities_of_ofDocument? {d : Document} {g : LineageGraph}
    (h : ofDocument? layout d = .ok g) : (identities g.nodes).Nodup := by
  obtain ⟨finished, hw⟩ := walks_of_ofDocument? h ""
  exact hw.nodup_identities .nil

theorem carries_unique {nodes : List LineageNode} (h : (identities nodes).Nodup) {i j : Nat}
    {id : Identity} (hi : Carries nodes i id) (hj : Carries nodes j id) : i = j := by
  obtain ⟨m, hm, hmid⟩ := hi
  obtain ⟨n, hn, hnid⟩ := hj
  obtain ⟨hilt, rfl⟩ := List.getElem?_eq_some_iff.mp hm
  obtain ⟨hjlt, rfl⟩ := List.getElem?_eq_some_iff.mp hn
  have hpair := List.pairwise_iff_getElem.mp (List.pairwise_filterMap.mp h)
  rcases Nat.lt_trichotomy i j with hlt | heq | hgt
  · exact (hpair i j hilt hjlt hlt id hmid id hnid rfl).elim
  · exact heq
  · exact (hpair j i hjlt hilt hgt id hnid id hmid rfl).elim

theorem node_eq {g : LineageGraph} {i : Nat} {n : LineageNode} (h : g.nodes[i]? = some n) :
    g.node i = n := by
  rw [node, List.getD_eq_getElem?_getD, h]
  rfl

theorem indexOf?_eq_some_iff {g : LineageGraph} (h : (identities g.nodes).Nodup) {id : Identity}
    {i : Nat} : g.indexOf? id = some i ↔ Carries g.nodes i id := by
  have hsound : ∀ {j}, g.indexOf? id = some j → Carries g.nodes j id := by
    intro j hj
    obtain ⟨hlt, hsame, -⟩ := List.findIdx?_eq_some_iff_getElem.mp hj
    exact ⟨g.nodes[j], List.getElem?_eq_getElem hlt, by simpa using hsame⟩
  refine ⟨hsound, fun hi => ?_⟩
  cases hj : g.indexOf? id with
  | none =>
      obtain ⟨n, hn, hid⟩ := hi
      have hno := List.findIdx?_eq_none_iff.mp hj n (List.mem_of_getElem? hn)
      simp [hid] at hno
  | some j => rw [carries_unique h (hsound hj) hi]

/-! ## What the nodes stand for -/

/-- What a node keeps from the moment it is opened. -/
def face (n : LineageNode) : Option Identity × Document := (n.id, n.document)

/-- Node `i` has the identity of the document and, lineage left out, no differences from it. -/
def Represents (layout : Layout) (nodes : List LineageNode) (i : Nat) (d : Document) : Prop :=
  ∃ n, nodes[i]? = some n ∧ layout.identity d = .ok n.id ∧
    n.document.changes (layout.withoutLineage d) = []

/-- Each entry's classifier leads to the node of the entry's document. -/
def LeadsTo (layout : Layout) (nodes : List LineageNode) :
    List (String × Document) → List (String × Nat) → Prop :=
  List.Forall₂ fun e s => e.1 = s.1 ∧ Represents layout nodes s.2 e.2

theorem Represents.mono {nodes all : List LineageNode} {i : Nat} {d : Document}
    (h : Represents layout nodes i d) (hmore : nodes.map face <+: all.map face) :
    Represents layout all i d := by
  obtain ⟨n, hn, hid, hsilent⟩ := h
  obtain ⟨tail, htail⟩ := hmore
  have hface : (all.map face)[i]? = some (face n) := by
    rw [← htail, List.getElem?_append_left, List.getElem?_map, hn]
    · rfl
    · rw [List.length_map]
      exact (List.getElem?_eq_some_iff.mp hn).1
  rw [List.getElem?_map] at hface
  obtain ⟨m, hm, hmn⟩ := Option.map_eq_some_iff.mp hface
  obtain ⟨hmid, hmdoc⟩ := Prod.mk.inj hmn
  exact ⟨m, hm, hmid ▸ hid, hmdoc ▸ hsilent⟩

theorem LeadsTo.mono {nodes all : List LineageNode} {entries : List (String × Document)}
    {sources : List (String × Nat)} (h : LeadsTo layout nodes entries sources)
    (hmore : nodes.map face <+: all.map face) : LeadsTo layout all entries sources :=
  List.Forall₂.imp (fun _ _ hs => ⟨hs.1, hs.2.mono hmore⟩) h

theorem LeadsTo.exists_source {nodes : List LineageNode} {entries : List (String × Document)}
    {sources : List (String × Nat)} (h : LeadsTo layout nodes entries sources)
    {classifier : String} {child : Document} (hmem : (classifier, child) ∈ entries) :
    ∃ i, (classifier, i) ∈ sources ∧ Represents layout nodes i child := by
  obtain ⟨⟨_, i⟩, hi, rfl, hrepresents⟩ := exists_of_mem_left h hmem
  exact ⟨i, hi, hrepresents⟩

/-- The nodes found with a node still open look like those with its sources filled in. -/
theorem map_face_closed (nodes below more : List LineageNode) (id : Option Identity)
    (body : Document) (inner : List (String × Nat)) :
    (nodes ++ [(⟨id, body, []⟩ : LineageNode)] ++ below).map face <+:
      (nodes ++ ((⟨id, body, inner⟩ : LineageNode) :: below ++ more)).map face := by
  refine ⟨more.map face, ?_⟩
  simp [face]

theorem Walks.leadsTo {active : List Identity} {entries : List (String × Document)}
    {nodes new : List LineageNode} {sources : List (String × Nat)} {finished : List Nat}
    (h : Walks layout active entries nodes sources new finished) :
    LeadsTo layout (nodes ++ new) entries sources := by
  induction h with
  | done => exact .nil
  | repeated hid hn hsame _ hsilent _ ih =>
      refine .cons ⟨rfl, _, ?_, hsame ▸ hid, hsilent⟩ ih
      rw [List.getElem?_append_left (List.getElem?_eq_some_iff.mp hn).1]
      exact hn
  | @first _ _ d _ _ _ id inner _ _ _ _ _ hid _ _ _ _ _ ihrest =>
      refine .cons ⟨rfl, ⟨id, layout.withoutLineage d, inner⟩, ?_, hid, Document.changes_self _⟩ ?_
      · rw [List.getElem?_append_right (Nat.le_refl _), Nat.sub_self]
        rfl
      · rw [List.append_assoc] at ihrest
        exact ihrest

/-! ## The order in which nodes are finished -/

/-- Every new node is finished once. -/
theorem Walks.finished_perm {active : List Identity} {entries : List (String × Document)}
    {nodes new : List LineageNode} {sources : List (String × Nat)} {finished : List Nat}
    (h : Walks layout active entries nodes sources new finished) :
    finished.Perm (List.range' nodes.length new.length) := by
  induction h with
  | done => rfl
  | repeated _ _ _ _ _ _ ih => exact ih
  | @first _ _ _ _ _ nodes _ _ _ below more earlier later _ _ _ _ _ ihbelow ihrest =>
      simp only [List.length_append, List.length_cons, List.length_nil] at ihbelow ihrest
      have hsplit : List.range' nodes.length (below.length + 1 + more.length) =
          nodes.length :: (List.range' (nodes.length + (0 + 1)) below.length ++
            List.range' (nodes.length + (below.length + 1)) more.length) := by
        rw [show nodes.length + (below.length + 1) = nodes.length + (0 + 1) + below.length by omega,
          List.range'_append_1,
          show below.length + 1 + more.length = below.length + more.length + 1 by omega,
          List.range'_succ]
      rw [List.cons_append, List.length_cons, List.length_append,
        show below.length + more.length + 1 = below.length + 1 + more.length by omega, hsplit]
      exact List.perm_middle.trans ((ihbelow.append ihrest).cons _)

/-- The root is finished last. -/
theorem Walks.finished_root {classifier : String} {d : Document} {new : List LineageNode}
    {finished : List Nat}
    (h : Walks layout [] [(classifier, d)] [] [(classifier, 0)] new finished) :
    ∃ earlier, finished = earlier ++ [0] := by
  cases h with
  | repeated _ hm => simp at hm
  | first _ _ _ _ hrest =>
      cases hrest
      exact ⟨_, rfl⟩

end LineageGraph

end DatasetCatalog
