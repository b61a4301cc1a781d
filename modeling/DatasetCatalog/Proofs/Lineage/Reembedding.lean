import DatasetCatalog.Proofs.Document.Grafting
import DatasetCatalog.Proofs.Lineage.Shape
import Mathlib.Data.Finset.Card

/-!
# Embedding a deduplicated lineage again

A graph is written back as one document, in which a shared node is embedded wherever it is referred
to. The document may be much larger than the one that the graph was made of, and it need not be that
one. It gives the same graph: each embedded document has the identity, the body and the classifiers
of its node, so a walk over it decides as the first walk did, entry by entry.
-/

namespace DatasetCatalog

namespace LineageGraph

variable {layout : Layout} {g : LineageGraph} {active : List Identity}
  {entries : List (String × Document)} {nodes new : List LineageNode}
  {sources : List (String × Nat)} {finished : List Nat}

/-! ## Walks run -/

theorem seen?_of_getElem? (hnodup : (identities nodes).Nodup) {i : Nat} {n : LineageNode}
    {id : Identity} (hn : nodes[i]? = some n) (hid : n.id = some id) :
    seen? nodes (some id) = some (id, i, n) := by
  cases hseen : seen? nodes (some id) with
  | none =>
      have hmem : id ∈ identities nodes := mem_identities.mpr ⟨n, List.mem_of_getElem? hn, hid⟩
      exact (seen?_eq_none hseen id rfl hmem).elim
  | some found =>
      obtain ⟨id', j, m⟩ := found
      obtain ⟨⟨⟩, hm, hmid⟩ := seen?_eq_some hseen
      cases carries_unique hnodup ⟨n, hn, hid⟩ ⟨m, hm, hmid⟩
      cases hn.symm.trans hm
      rfl

theorem seen?_of_fresh {id : Option Identity} (h : ∀ i ∈ id, i ∉ identities nodes) :
    seen? nodes id = none := by
  cases hseen : seen? nodes id with
  | none => rfl
  | some found =>
      obtain ⟨id', j, m⟩ := found
      obtain ⟨rfl, hm, hmid⟩ := seen?_eq_some hseen
      exact (h id' rfl (mem_identities.mpr ⟨m, List.mem_of_getElem? hm, hmid⟩)).elim

theorem walkEntries_cons_eq {n : Nat}
    {walkDocument : (d : Document) → d.size < n → List LineageNode → Walk} {classifier : String}
    {d : Document} {rest : List (String × Document)}
    {hn : ∀ e ∈ (classifier, d) :: rest, e.2.size < n} {i : Nat} {middle found : List LineageNode}
    (hd : walkDocument d (hn _ List.mem_cons_self) nodes = .ok (i, middle))
    (hrest : walkEntries walkDocument rest (fun e he => hn e (List.mem_cons_of_mem _ he)) middle =
      .ok (sources, found)) :
    walkEntries walkDocument ((classifier, d) :: rest) hn nodes =
      .ok ((classifier, i) :: sources, found) := by
  rw [walkEntries, hd]
  change (walkEntries walkDocument rest _ middle >>= _) = _
  rw [hrest]
  rfl

/-- A walk that can be described is what happens, however far it may go down. -/
theorem Walks.walkEntries_eq (h : Walks layout active entries nodes sources new finished)
    (hnodup : (identities nodes).Nodup) {n : Nat} (hn : ∀ e ∈ entries, e.2.size < n) :
    walkEntries (walk layout n active) entries hn nodes = .ok (sources, nodes ++ new) := by
  induction h generalizing n with
  | done => rw [walkEntries, List.append_nil]
  | repeated hid hm hsame hactive hsilent _ ih =>
      refine walkEntries_cons_eq ?_ (ih hnodup _)
      cases n with
      | zero => cases hn _ List.mem_cons_self
      | succ n =>
          rw [walk, hid]
          dsimp only
          rw [seen?_of_getElem? hnodup hm hsame]
          dsimp only
          rw [if_neg hactive, hsilent]
  | @first active classifier d entries rest nodes id inner sources below more _ _ hid hfresh hlineage
      hbelow _ ihbelow ihrest =>
      have hopened := nodup_identities_opened hnodup (n := ⟨id, layout.withoutLineage d, []⟩) hfresh
      have hclosed :
          (identities (nodes ++ ⟨id, layout.withoutLineage d, inner⟩ :: below)).Nodup := by
        rw [identities_closed]
        exact hbelow.nodup_identities hopened
      rw [← List.append_assoc]
      refine walkEntries_cons_eq ?_ (ihrest hclosed _)
      cases n with
      | zero => cases hn _ List.mem_cons_self
      | succ n =>
          rw [walk, hid]
          dsimp only
          rw [seen?_of_fresh hfresh]
          dsimp only
          split
          next he => cases hlineage.symm.trans he
          next entries' he =>
            cases hlineage.symm.trans he
            rw [ihbelow hopened]
            change Except.ok (nodes.length, List.modify _ _ _) = _
            rw [List.append_assoc, List.singleton_append, modify_length_append]

/-- A document that can be walked over from the root gives the nodes of the walk. -/
theorem ofDocument?_of_walks {classifier : String} {d : Document}
    (h : Walks layout [] [(classifier, d)] [] [(classifier, 0)] new finished) :
    ofDocument? layout d = .ok ⟨new⟩ := by
  have hsize : ∀ e ∈ [(classifier, d)], e.2.size < d.size + 1 := by
    intro e he
    cases List.mem_singleton.mp he
    exact Nat.lt_succ_self _
  have hwalk := h.walkEntries_eq .nil hsize
  rw [walkEntries] at hwalk
  obtain ⟨⟨i, found⟩, hd, hwalk⟩ := bind_eq_ok.mp hwalk
  obtain ⟨⟨_, _⟩, hnone, hsame⟩ := bind_eq_ok.mp hwalk
  cases hnone
  cases hsame
  rw [ofDocument?, hd]
  rfl

/-! ## The same walk over another document -/

/-- A document has the identity, the body and the sources of node `i`, with the documents in `tree`
for the nodes that it refers to. -/
structure Regrows (layout : Layout) (g : LineageGraph) (tree : Nat → Document) (i : Nat) :
    Prop where
  identity : layout.identity (tree i) = .ok (g.node i).id
  body : layout.withoutLineage (tree i) = (g.node i).document
  lineage : layout.lineage (tree i) = .ok ((g.node i).sources.map fun s => (s.1, tree s.2))

/-- A walk that made nodes of a graph makes them again from what they are regrown to. -/
theorem Walks.regrown (h : Walks layout active entries nodes sources new finished)
    (hnew : Resolver.Continues g nodes new) {tree : Nat → Document}
    (htree : ∀ i, i < g.size → Regrows layout g tree i) :
    Walks layout active (sources.map fun s => (s.1, tree s.2)) nodes sources new finished := by
  induction h with
  | done => exact .done
  | repeated hid hn hsame hactive hsilent _ ih =>
      obtain ⟨m, hm, hface⟩ := hnew.exists_face hn
      obtain ⟨hmid, hmbody⟩ := Prod.mk.inj hface
      have hregrows := htree _ (List.getElem?_eq_some_iff.mp hm).1
      refine .repeated ?_ hn hsame hactive ?_ (ih hnew)
      · rw [hregrows.identity, node_eq hm, hmid, hsame]
      · rw [hregrows.body, node_eq hm, hmbody, Document.changes_self]
  | @first active classifier d entries rest nodes id inner sources below more _ _ hid hfresh hlineage
      _ _ ihbelow ihrest =>
      have hnext := node_eq hnew.next
      have hregrows := htree _ (List.getElem?_eq_some_iff.mp hnew.next).1
      have hidentity := hregrows.identity
      have hbody := hregrows.body
      have hentries := hregrows.lineage
      rw [hnext] at hidentity hbody hentries
      have hbelow := ihbelow hnew.opened
      have hrest := ihrest hnew.closed
      dsimp only at hbody
      rw [← hbody] at hbelow hrest ⊢
      exact .first hidentity hfresh hentries hbelow hrest

/-- A node is made of a document and has the classifiers of its lineage. -/
structure Made (layout : Layout) (n : LineageNode) (d : Document)
    (entries : List (String × Document)) : Prop where
  identity : layout.identity d = .ok n.id
  body : n.document = layout.withoutLineage d
  lineage : layout.lineage d = .ok entries
  classifiers : entries.map Prod.fst = n.sources.map Prod.fst

theorem LeadsTo.classifiers (h : LeadsTo layout nodes entries sources) :
    entries.map Prod.fst = sources.map Prod.fst := by
  induction h with
  | nil => rfl
  | cons hs _ ih => rw [List.map_cons, List.map_cons, hs.1, ih]

theorem Walks.made (h : Walks layout active entries nodes sources new finished) :
    ∀ n ∈ new, ∃ d entries, Made layout n d entries := by
  induction h with
  | done => simp
  | repeated _ _ _ _ _ _ ih => exact ih
  | first hid _ hlineage hbelow _ ihbelow ihrest =>
      intro n hn
      rcases List.mem_append.mp hn with hn | hn
      · rcases List.mem_cons.mp hn with rfl | hn
        · exact ⟨_, _, hid, rfl, hlineage, hbelow.leadsTo.classifiers⟩
        · exact ihbelow n hn
      · exact ihrest n hn

/-! ## Embedding -/

/-- The number of nodes that can be reached from node `i` by references. -/
noncomputable def height (g : LineageGraph) (i : Nat) : Nat :=
  open Classical in ((Finset.range g.size).filter (Relation.TransGen g.Refers i)).card

theorem height_le_size (g : LineageGraph) (i : Nat) : g.height i ≤ g.size := by
  classical
  have hle := Finset.card_filter_le (Finset.range g.size) (Relation.TransGen g.Refers i)
  rwa [Finset.card_range] at hle

section OfDocument

variable {d : Document} (h : ofDocument? layout d = .ok g)
include h

/-- A reference leads to a node from which less can be reached. -/
theorem height_lt_of_refers {i j : Nat} (hij : g.Refers i j) : g.height j < g.height i := by
  classical
  refine Finset.card_lt_card (Finset.ssubset_iff_of_subset ?_ |>.mpr ⟨j, ?_, ?_⟩)
  · intro l hl
    obtain ⟨hrange, hjl⟩ := Finset.mem_filter.mp hl
    exact Finset.mem_filter.mpr ⟨hrange, .head hij hjl⟩
  · exact Finset.mem_filter.mpr ⟨Finset.mem_range.mpr (lt_size_of_refers h hij), .single hij⟩
  · intro hj
    exact not_transGen_of_ofDocument? h j (Finset.mem_filter.mp hj).2

/-- More levels than there are nodes below make no difference. -/
theorem embed_succ {levels i : Nat} (hi : g.height i ≤ levels) :
    g.embed layout (levels + 1) i = g.embed layout levels i := by
  induction levels generalizing i with
  | zero =>
      cases hsources : (g.node i).sources with
      | nil =>
          rw [embed, embed, hsources]
          rfl
      | cons s rest =>
          have hlt := height_lt_of_refers h (i := i) (j := s.2) ⟨s.1, hsources ▸ List.mem_cons_self⟩
          omega
  | succ levels ih =>
      rw [embed, embed]
      split
      next => rfl
      next =>
        refine congrArg (· >>= _) (mapM_congr fun s hs => ?_)
        rw [ih (Nat.le_of_lt_succ (Nat.lt_of_lt_of_le (height_lt_of_refers h ⟨s.1, hs⟩) hi))]

theorem embed_eq_of_le {levels more i : Nat} (hi : g.height i ≤ levels) (hmore : levels ≤ more) :
    g.embed layout more i = g.embed layout levels i := by
  induction more, hmore using Nat.le_induction with
  | base => rfl
  | succ more hmore ih => rw [embed_succ h (Nat.le_trans hi hmore), ih]

end OfDocument

section Keys

variable {k : String} {rest : List String} (hkeys : layout.sources.keys? = some (k :: rest))
  (hbeyond : ¬ layout.sources <+: layout.id)
include hkeys hbeyond

/-- A node is embedded as a document of its identity, body and sources. -/
theorem Made.exists_embed {i levels : Nat} {d : Document}
    (h : Made layout (g.node i) d entries) {tree : Nat → Document}
    (htree : ∀ s ∈ (g.node i).sources, g.embed layout levels s.2 = .ok (tree s.2)) :
    ∃ e, g.embed layout (levels + 1) i = .ok e ∧ layout.identity e = .ok (g.node i).id ∧
      layout.withoutLineage e = (g.node i).document ∧
      layout.lineage e = .ok ((g.node i).sources.map fun s => (s.1, tree s.2)) := by
  obtain ⟨hid, hbody, hlineage, hclassifiers⟩ := h
  rw [embed]
  split
  next hempty =>
    have hnone : (g.node i).document.get? layout.sources = none := by
      rw [hbody]
      exact Layout.get?_sources_withoutLineage_of_keys hkeys d
    refine ⟨_, rfl, ?_, Layout.withoutLineage_of_get?_eq_none hnone, ?_⟩
    · rw [hbody]
      exact Layout.identity_withoutLineage hid hbeyond
    · rw [List.isEmpty_iff.mp hempty]
      exact Layout.lineage_of_get?_eq_none hnone
  next hsources =>
    have hentries : entries ≠ [] := by
      rintro rfl
      rw [List.map_nil, eq_comm, List.map_eq_nil_iff] at hclassifiers
      exact hsources (List.isEmpty_iff.mpr hclassifiers)
    obtain ⟨v, hv⟩ := Layout.exists_get?_of_lineage hlineage hentries
    have hnodup : (((g.node i).sources.map fun s => (s.1, tree s.2)).map Prod.fst).Nodup := by
      rw [List.map_map]
      exact hclassifiers ▸ Layout.nodup_classifiers hlineage
    have hwell := Layout.wellFormed_values hnodup
    have hfields : ((g.node i).sources.mapM fun s => do
        let d ← g.embed layout levels s.2
        pure (s.1, d.value)) =
        .ok (((g.node i).sources.map fun s => (s.1, tree s.2)).map fun s => (s.1, s.2.value)) := by
      rw [List.map_map]
      refine mapM_eq_ok.mpr (List.forall₂_map_right_iff.mpr (List.forall₂_same.mpr fun s hs => ?_))
      rw [htree s hs]
      rfl
    obtain ⟨e, he, -⟩ := Layout.exists_withLineage hkeys (layout.withoutLineage d) hwell
    rw [hfields, hbody]
    refine ⟨e, ?_, ?_, ?_, ?_⟩
    · refine (congrArg (layout.withLineage _) ?_).trans he
      exact Fields.collapse_of_nodup hwell.keys_nodup
    · exact Layout.identity_withLineage hkeys hid hbeyond hv hwell he
    · exact Layout.withoutLineage_withLineage hkeys hv hwell he
    · exact Layout.lineage_withLineage hkeys hnodup he

variable {d : Document} (h : ofDocument? layout d = .ok g)
include h

/-- Every node can be embedded, and the documents embedded for all nodes regrow the graph. -/
theorem exists_regrown :
    ∃ tree : Nat → Document, ∀ i, i < g.size →
      g.embed layout g.size i = .ok (tree i) ∧ Regrows layout g tree i := by
  obtain ⟨finished, hwalk⟩ := walks_of_ofDocument? h ""
  let tree : Nat → Document := fun i => (g.embed layout g.size i).toOption.getD default
  have htree : ∀ {i e}, g.embed layout g.size i = .ok e → tree i = e := by
    intro i e he
    simp [tree, he, Except.toOption]
  refine ⟨tree, fun i hi => ?_⟩
  induction hheight : g.height i using Nat.strong_induction_on generalizing i with
  | _ height ih =>
      have hmem : g.node i ∈ g.nodes := by
        rw [node_eq (List.getElem?_eq_getElem hi)]
        exact List.getElem_mem hi
      obtain ⟨e, entries, hmade⟩ := hwalk.made _ hmem
      obtain ⟨levels, hlevels⟩ :=
        Nat.exists_eq_succ_of_ne_zero (Nat.ne_of_gt (Nat.zero_lt_of_lt hi))
      have hbelow : ∀ s ∈ (g.node i).sources, g.embed layout levels s.2 = .ok (tree s.2) := by
        intro s hs
        have hlower := height_lt_of_refers h (i := i) (j := s.2) ⟨s.1, hs⟩
        have hbound := g.height_le_size i
        have hembed := (ih _ (hheight ▸ hlower) s.2 (lt_size_of_refers h ⟨s.1, hs⟩) rfl).1
        have henough : g.height s.2 ≤ levels := by omega
        have hmore : levels ≤ g.size := by omega
        exact (embed_eq_of_le h henough hmore).symm.trans hembed
      obtain ⟨e, he, hid, hbody, hlineage⟩ := hmade.exists_embed hkeys hbeyond hbelow
      rw [← Nat.succ_eq_add_one, ← hlevels] at he
      cases htree he
      exact ⟨he, hid, hbody, hlineage⟩

/-- A deduplicated graph can be embedded again, and what is embedded is deduplicated to the same
graph. -/
theorem ofDocument?_toDocument :
    ∃ e, g.toDocument layout = .ok e ∧ ofDocument? layout e = .ok g := by
  obtain ⟨finished, hwalk⟩ := walks_of_ofDocument? h ""
  obtain ⟨tree, htree⟩ := exists_regrown hkeys hbeyond h
  obtain ⟨root, hroot, -⟩ := hwalk.root
  have hpos : 0 < g.size := (List.getElem?_eq_some_iff.mp hroot).1
  refine ⟨tree 0, (htree 0 hpos).1, ?_⟩
  exact ofDocument?_of_walks (hwalk.regrown Resolver.continues_nil fun i hi => (htree i hi).2)

end Keys

section NotedLineage

/-- Dataset 2 stands twice in the lineage of dataset 1, once without its own lineage. Beside the
lineage of dataset 1 stands a note. -/
def notedLineage : Document :=
  let idField := fun digit => ("id", Value.text (String.ofList (List.replicate 32 digit)))
  let sources := fun entries => ("source_datasets", Value.mapping entries)
  .ofFields [idField '1', ("lineage", .mapping [("note", .text "mosaic"), sources
    [("a", .mapping [idField '2', ("lineage", .mapping
        [sources [("raw", .mapping [("name", .text "scene")])]])]),
      ("b", .mapping [idField '2'])]])]

def notedGraph : LineageGraph :=
  let idField := fun digit => ("id", Value.text (String.ofList (List.replicate 32 digit)))
  ⟨[⟨some firstId, .ofFields [idField '1', ("lineage", .mapping [("note", .text "mosaic")])],
      [("a", 1), ("b", 1)]⟩,
    ⟨some ⟨0x22222222222222222222222222222222⟩, .ofFields [idField '2'], [("raw", 2)]⟩,
    ⟨none, .ofFields [("name", .text "scene")], []⟩]⟩

/-- What is embedded again is another document, which has the same graph. -/
theorem notedGraph_toDocument :
    Layout.standard.sources.keys? = some ["lineage", "source_datasets"] ∧
      ¬ Layout.standard.sources <+: Layout.standard.id ∧
      ofDocument? Layout.standard notedLineage = .ok notedGraph ∧
      ∃ e, notedGraph.toDocument Layout.standard = .ok e ∧
        ofDocument? Layout.standard e = .ok notedGraph := by
  have hkeys : Layout.standard.sources.keys? = some ["lineage", "source_datasets"] := by
    rfl
  have hbeyond : ¬ Layout.standard.sources <+: Layout.standard.id := by
    decide
  have hgraph : ofDocument? Layout.standard notedLineage = .ok notedGraph := by
    rfl
  exact ⟨hkeys, hbeyond, hgraph, ofDocument?_toDocument hkeys hbeyond hgraph⟩

end NotedLineage

end LineageGraph

end DatasetCatalog
