import DatasetCatalog.Proofs.Catalog.Ancestry
import DatasetCatalog.Proofs.Lineage.Shape

/-!
# Resolving again what has been added

Adding a graph leaves the records that are there alone and makes one of each other node. A
resolution afterwards therefore knows every node: by an entry that agreed with the embedded copy
before, or by one that was made of it. So nothing is missing or matched, the copies verify, and the
assembly goes through the same steps as the first one.
-/

namespace DatasetCatalog

/-- Two datasets that differ at most in the definitions behind their product's name. -/
structure Dataset.Alike (d e : Dataset) : Prop where
  id : d.id = e.id
  product : d.product.name = e.product.name
  metadata : d.metadata = e.metadata
  uris : d.uris = e.uris
  sources : d.sources = e.sources

/-- The same root among the same nodes. -/
structure DatasetGraph.Alike (g h : DatasetGraph) : Prop where
  root : g.root = h.root
  nodes : List.Forall₂ Dataset.Alike g.nodes h.nodes

namespace Catalog

variable {c c' : Catalog} {g : DatasetGraph} {withLineage : Bool} {now : Timestamp}

/-- An entry stays as it is. -/
theorem get?_of_add (h : c.add g withLineage now = .ok c') {id : Identity} {e : Entry}
    (he : c.get? id = .ok (some e)) : c'.get? id = .ok (some e) := by
  obtain ⟨stored, hstored, hentry⟩ := get?_eq_some he
  refine get?_of_entry (find?_of_add h hstored) ?_
  rwa [entry, product?_of_add h]

/-- A node that had no entry has the one that was made of it. -/
theorem get?_node_of_add (h : c.add g withLineage now = .ok c') (hordered : g.Ordered) {k : Nat}
    {d : Dataset} {id : Identity} (hd : g.nodes[k]? = some d) (hid : d.id = some id)
    (hnone : c.get? id = .ok none) :
    ∃ e, c'.get? id = .ok (some e) ∧ e.product.name = d.product.name ∧ e.metadata = d.metadata := by
  have habsent : c.datasets.find? id = none := by
    cases hfind : c.datasets.find? id with
    | none => rfl
    | some stored =>
        rw [get?, hfind] at hnone
        obtain ⟨_, -, hsome⟩ := map_eq_ok.mp hnone
        cases hsome
  obtain ⟨stored, hstored⟩ := OrderedMap.contains_iff.mp (contains_node_of_add h hd hid)
  rcases origin_of_add h hstored with hbefore | ⟨k', d', hd', hid', rfl⟩
  · cases habsent.symm.trans hbefore
  · cases hordered.unique hd' hd hid' hid
    cases hd'.symm.trans hd
    rcases registered_of_add h hstored with hbefore | ⟨p, hp⟩
    · cases habsent.symm.trans hbefore
    · refine ⟨_, get?_of_entry hstored (by rw [entry, hp]), product?_name hp, rfl⟩

end Catalog

namespace Resolver

variable {r : Resolver} {known known' : OrderedMap Identity Entry} {g : LineageGraph}
  {uri : String} {a a' b b' : Assembly}

/-! ## Two assemblies in step -/

/-- The second map has an entry for every node, whose product has the name of the one that the node
gets by the first map. -/
def Confirms (r : Resolver) (known known' : OrderedMap Identity Entry) (g : LineageGraph) : Prop :=
  ∀ i, i < g.size → ∀ p, HasProduct r known (g.node i) p →
    ∃ entry, (g.node i).id.bind known'.find? = some entry ∧ p.name = entry.product.name

/-- The second assembly has got from `b` to `b'`, where it is like the first one; nothing was
matched. -/
structure InStep (a' b b' : Assembly) : Prop where
  alike : List.Forall₂ Dataset.Alike a'.nodes b'.nodes
  matched : b'.stats.matched = b.stats.matched
  missing : b'.stats.missing = b.stats.missing

theorem InStep.trans {a'' b'' : Assembly} (h : InStep a' b b') (h' : InStep a'' b' b'') :
    InStep a'' b b'' :=
  ⟨h'.alike, h'.matched.trans h.matched, h'.missing.trans h.missing⟩

theorem built?_of_alike (h : List.Forall₂ Dataset.Alike a.nodes b.nodes) (id : Option Identity) :
    a.built? id = b.built? id := by
  have hfind : ∀ {ds es : List Dataset}, List.Forall₂ Dataset.Alike ds es → ∀ id : Identity,
      ds.findIdx? (fun n => n.id == some id) = es.findIdx? fun n => n.id == some id := by
    intro ds es hdes id
    induction hdes with
    | nil => rfl
    | cons hde _ ih => rw [List.findIdx?_cons, List.findIdx?_cons, hde.id, ih]
  cases id with
  | none => rfl
  | some id => exact hfind h id

/-- A node with an entry is placed with the product of the entry, and counted. -/
theorem place_of_known {i : Nat} {entry : Entry}
    (h : (g.node i).id.bind known.find? = some entry) (sources : List (String × Nat)) :
    r.place known g uri i sources a = .ok (a.countFromCatalog.push
      ⟨(g.node i).id, entry.product, (g.node i).document, if i = 0 then [uri] else [],
        sources⟩) := by
  rw [place, classify, h]
  rfl

theorem place_inStep (r' : Resolver) (hconfirms : Confirms r known known' g) {i j : Nat}
    (hi : i < g.size) {sources : List (String × Nat)}
    (h : List.Forall₂ Dataset.Alike a.nodes b.nodes)
    (hrun : r.place known g uri i sources a = .ok (j, a')) :
    ∃ b', r'.place known' g uri i sources b = .ok (j, b') ∧ InStep a' b b' := by
  obtain ⟨rfl, ⟨p, hp, hnodes⟩, -, -⟩ := place_eq_ok hrun
  obtain ⟨entry, hentry, hname⟩ := hconfirms i hi p hp
  rw [place_of_known hentry, h.length_eq]
  refine ⟨_, rfl, ⟨?_, rfl, rfl⟩⟩
  rw [hnodes]
  exact List.rel_append h (.cons ⟨rfl, hname, rfl, rfl, rfl⟩ .nil)

theorem assembleSources_inStep
    {first second : Nat → Assembly → Except ResolveError (Nat × Assembly)}
    {sources built : List (String × Nat)} (hsources : ∀ s ∈ sources, s.2 < g.size)
    (hstep : ∀ {i j : Nat} {a a' b : Assembly}, i < g.size →
      List.Forall₂ Dataset.Alike a.nodes b.nodes → first i a = .ok (j, a') →
      ∃ b', second i b = .ok (j, b') ∧ InStep a' b b')
    (h : List.Forall₂ Dataset.Alike a.nodes b.nodes)
    (hrun : assembleSources first sources a = .ok (built, a')) :
    ∃ b', assembleSources second sources b = .ok (built, b') ∧ InStep a' b b' := by
  induction sources generalizing a b built with
  | nil =>
      cases hrun
      exact ⟨b, rfl, ⟨h, rfl, rfl⟩⟩
  | cons s rest ih =>
      obtain ⟨⟨j, middle⟩, hfirst, hrun⟩ := bind_eq_ok.mp hrun
      obtain ⟨⟨later, _⟩, hrest, ⟨⟩⟩ := bind_eq_ok.mp hrun
      obtain ⟨middle', hsecond, hmiddle⟩ := hstep (hsources s List.mem_cons_self) h hfirst
      obtain ⟨b', hrest', hb'⟩ :=
        ih (fun t ht => hsources t (List.mem_cons_of_mem _ ht)) hmiddle.alike hrest
      refine ⟨b', ?_, hmiddle.trans hb'⟩
      exact bind_eq_ok.mpr ⟨_, hsecond, bind_eq_ok.mpr ⟨_, hrest', rfl⟩⟩

/-- Whatever the first assembly builds, the second one builds too, from entries only. -/
theorem assemble_inStep (r' : Resolver) (hconfirms : Confirms r known known' g)
    (hrange : ∀ i j, g.Refers i j → j < g.size) {levels i j : Nat} (hi : i < g.size)
    (h : List.Forall₂ Dataset.Alike a.nodes b.nodes)
    (hrun : r.assemble known g uri levels i a = .ok (j, a')) :
    ∃ b', r'.assemble known' g uri levels i b = .ok (j, b') ∧ InStep a' b b' := by
  induction levels generalizing i j a a' b with
  | zero => exact place_inStep r' hconfirms hi h hrun
  | succ levels ih =>
      rw [assemble, ← built?_of_alike h]
      rcases assemble_eq_ok hrun with ⟨hbuilt, rfl⟩ | ⟨hbuilt, sources, c, hsources, hplace⟩
      · rw [hbuilt]
        exact ⟨b.reuse, rfl, ⟨h, rfl, rfl⟩⟩
      · rw [hbuilt]
        have hsmall : ∀ s ∈ (g.node i).sources, s.2 < g.size :=
          fun s hs => hrange i s.2 ⟨s.1, hs⟩
        obtain ⟨c', hsources', hc'⟩ := assembleSources_inStep hsmall ih h hsources
        obtain ⟨b', hplace', hb'⟩ := place_inStep r' hconfirms hi hc'.alike hplace
        exact ⟨b', bind_eq_ok.mpr ⟨_, hsources', hplace'⟩, hc'.trans hb'⟩

/-! ## Verification -/

/-- The identities of the graph but that of its root. -/
def ancestorsOf (g : LineageGraph) : List Identity :=
  g.byIdentity.keys.filter fun id => g.root.id ≠ some id

theorem inconsistencies_eq_nil_iff {ids : List Identity} : inconsistencies known g ids = [] ↔
    ∀ id ∈ ids, ∀ entry document, known.find? id = some entry → g.document? id = some document →
      document.changes entry.metadata = [] := by
  rw [inconsistencies, List.filterMap_eq_nil_iff]
  refine forall₂_congr fun id _ => ?_
  cases known.find? id <;> cases g.document? id <;> simp

variable {c c' : Catalog} {dg : DatasetGraph} {failOnMissing verify withLineage : Bool}
  {now : Timestamp} {d : Document}

/-- A resolution that verifies finds nothing inconsistent. -/
theorem verified_of_resolveGraph (h : r.resolveGraph c g uri failOnMissing true = .ok dg) :
    ∃ known stats, lookUp c g.byIdentity.keys = .ok known ∧
      inconsistencies known g (ancestorsOf g) = [] ∧
      r.assemble known g uri g.size 0 ⟨[], stats⟩ = .ok (dg.root, ⟨dg.nodes, dg.stats⟩) := by
  obtain ⟨known, hknown, h⟩ := bind_eq_ok.mp h
  dsimp only at h
  rw [if_pos (rfl : true = true)] at h
  split at h
  next => cases h
  next =>
    split at h
    next => cases h
    next hreports =>
      obtain ⟨⟨root, built⟩, hassemble, ⟨⟩⟩ := bind_eq_ok.mp h
      refine ⟨known, _, hknown, ?_, hassemble⟩
      rwa [Bool.not_eq_true', Bool.not_eq_false, List.isEmpty_iff] at hreports

/-- With every identity known and consistent only the assembly can fail. -/
theorem resolveGraph_of_known (hknown : lookUp c g.byIdentity.keys = .ok known)
    (hall : ∀ id ∈ g.byIdentity.keys, known.contains id = true)
    (hconsistent : inconsistencies known g (ancestorsOf g) = []) {root : Nat} {built : Assembly}
    (hassemble : r.assemble known g uri g.size 0
      ⟨[], { lookups := if g.byIdentity.keys.isEmpty then 0 else 1, missing := 0 }⟩ =
        .ok (root, built)) :
    r.resolveGraph c g uri true true = .ok ⟨built.nodes, root, built.stats⟩ := by
  have hmissing : (ancestorsOf g).filter (fun id => !known.contains id) = [] := by
    rw [List.filter_eq_nil_iff]
    intro id hid
    rw [hall id (List.mem_of_mem_filter hid)]
    exact Bool.false_ne_true
  refine bind_eq_ok.mpr ⟨known, hknown, ?_⟩
  dsimp only
  rw [ancestorsOf] at hmissing hconsistent
  rw [if_pos (rfl : true = true), hmissing, hconsistent]
  exact bind_eq_ok.mpr ⟨_, hassemble, rfl⟩

/-! ## After adding -/

theorem HasProduct.unique {n : LineageNode} {p q : Product} (hp : HasProduct r known n p)
    (hq : HasProduct r known n q) : p = q := by
  rw [HasProduct] at hp hq
  cases hfound : n.id.bind known.find? with
  | some entry =>
      rw [hfound] at hp hq
      exact hp.symm.trans hq
  | none =>
      rw [hfound] at hp hq
      exact Except.ok.inj (hp.symm.trans hq)

/-- Lineage node `n`, looked up in `known` when it was resolved, now has the entry `e`: the same as
before, or one with its document. -/
structure Settles (r : Resolver) (known : OrderedMap Identity Entry) (c : Catalog) (n : LineageNode)
    (id : Identity) (e : Entry) : Prop where
  carried : n.id = some id
  found : c.get? id = .ok (some e)
  product : ∀ p, HasProduct r known n p → p.name = e.product.name
  metadata : known.find? id = some e ∨ e.metadata = n.document

theorem BuiltFor.settles {order : List Nat} {k i : Nat} {ds : Dataset}
    (h : BuiltFor r known g uri order ds i) (hordered : dg.Ordered)
    (hadd : c.add dg withLineage now = .ok c') (hds : dg.nodes[k]? = some ds)
    (hget : ∀ id, (g.node i).id = some id → c.get? id = .ok (known.find? id)) :
    ∃ id e, Settles r known c' (g.node i) id e := by
  obtain ⟨_, -, -, hnodes⟩ := Catalog.records_of_add hadd
  obtain ⟨id, hid, -⟩ := hnodes k ds hds
  have hnode : (g.node i).id = some id := h.id.symm.trans hid
  have hfound := hget id hnode
  cases hfind : known.find? id with
  | some e =>
      have hentry : (g.node i).id.bind known.find? = some e := by
        rw [hnode, Option.bind_some, hfind]
      refine ⟨id, e, hnode, Catalog.get?_of_add hadd (hfind ▸ hfound), ?_, .inl hfind⟩
      intro p hp
      rw [HasProduct, hentry] at hp
      rw [hp]
  | none =>
      obtain ⟨e, he, hname, hmetadata⟩ :=
        Catalog.get?_node_of_add hadd hordered hds hid (hfind ▸ hfound)
      refine ⟨id, e, hnode, he, ?_, .inr (hmetadata.trans h.metadata)⟩
      intro p hp
      rw [hp.unique h.product, hname]

theorem exists_lookUp {ids : List Identity} (h : ∀ id ∈ ids, ∃ found, c.get? id = .ok found) :
    ∃ known, lookUp c ids = .ok known := by
  rw [lookUp]
  split
  next => exact ⟨_, rfl⟩
  next =>
    obtain ⟨known, hknown⟩ := Catalog.exists_bulkGet h
    exact ⟨known, by rw [hknown]⟩

/-- The identities of a graph are those of its nodes. -/
theorem mem_keys_iff_node {id : Identity} :
    id ∈ g.byIdentity.keys ↔ ∃ i, i < g.size ∧ (g.node i).id = some id := by
  rw [mem_keys_byIdentity, LineageGraph.mem_identities]
  constructor
  · rintro ⟨n, hn, hid⟩
    obtain ⟨i, hi⟩ := List.mem_iff_getElem?.mp hn
    exact ⟨i, LineageGraph.carries_iff.mp ⟨n, hi, hid⟩⟩
  · rintro ⟨i, hnode⟩
    obtain ⟨n, hn, hid⟩ := LineageGraph.carries_iff.mpr hnode
    exact ⟨n, List.mem_of_getElem? hn, hid⟩

theorem document?_eq_node (hnodup : (LineageGraph.identities g.nodes).Nodup) {i : Nat}
    {id : Identity} (hi : i < g.size) (hid : (g.node i).id = some id) {document : Document}
    (h : g.document? id = some document) : document = (g.node i).document := by
  obtain ⟨n, hn, rfl⟩ := Option.map_eq_some_iff.mp h
  obtain ⟨j, hj⟩ := List.mem_iff_getElem?.mp (List.mem_of_find?_eq_some hn)
  have hnid : n.id = some id := by
    simpa using List.find?_some hn
  rw [LineageGraph.carries_unique hnodup (LineageGraph.carries_iff.mpr ⟨hi, hid⟩) ⟨n, hj, hnid⟩,
    LineageGraph.node_eq hj]

section Settled

variable (hsettled : ∀ i, i < g.size → ∃ id e, Settles r known c' (g.node i) id e)
include hsettled

theorem exists_settles {id : Identity} (hid : id ∈ g.byIdentity.keys) :
    ∃ i e, i < g.size ∧ Settles r known c' (g.node i) id e := by
  obtain ⟨i, hi, hnode⟩ := mem_keys_iff_node.mp hid
  obtain ⟨_, e, hsettles⟩ := hsettled i hi
  cases hsettles.carried.symm.trans hnode
  exact ⟨i, e, hi, hsettles⟩

theorem confirms_of_settled
    (hknown' : ∀ id ∈ g.byIdentity.keys, c'.get? id = .ok (known'.find? id)) :
    Confirms r known known' g := by
  intro i hi p hp
  obtain ⟨id, e, hsettles⟩ := hsettled i hi
  have hget := hknown' id (mem_keys_iff_node.mpr ⟨i, hi, hsettles.carried⟩)
  refine ⟨e, ?_, hsettles.product p hp⟩
  rw [hsettles.carried, Option.bind_some]
  exact Except.ok.inj (hget.symm.trans hsettles.found)

/-- Entries that were verified before, and entries made of the graph's own documents, verify. -/
theorem consistent_of_settled
    (hknown' : ∀ id ∈ g.byIdentity.keys, c'.get? id = .ok (known'.find? id))
    (hnodup : (LineageGraph.identities g.nodes).Nodup)
    (hconsistent : inconsistencies known g (ancestorsOf g) = []) :
    inconsistencies known' g (ancestorsOf g) = [] := by
  rw [inconsistencies_eq_nil_iff] at hconsistent ⊢
  intro id hid entry document hentry hdocument
  have hkey : id ∈ g.byIdentity.keys := List.mem_of_mem_filter hid
  obtain ⟨i, e, hi, hsettles⟩ := exists_settles hsettled hkey
  have hfound : c'.get? id = .ok (some entry) := hentry ▸ hknown' id hkey
  cases Except.ok.inj (hsettles.found.symm.trans hfound)
  rcases hsettles.metadata with hbefore | hsame
  · exact hconsistent id hid entry document hbefore hdocument
  · rw [document?_eq_node hnodup hi hsettles.carried hdocument, hsame]
    exact Document.changes_self _

/-- With every node settled the graph resolves to what it was resolved to before. -/
theorem resolveGraph_of_settled (r' : Resolver)
    (hg : LineageGraph.ofDocument? r.layout d = .ok g) (hroot : 0 < g.size)
    (hconsistent : inconsistencies known g (ancestorsOf g) = []) {stats : ResolutionStats}
    (hassemble : r.assemble known g uri g.size 0 ⟨[], stats⟩ =
      .ok (dg.root, ⟨dg.nodes, dg.stats⟩)) :
    ∃ dg', r'.resolveGraph c' g uri true true = .ok dg' ∧
      dg.Alike dg' ∧ dg'.stats.matched = 0 ∧ dg'.stats.missing = 0 := by
  obtain ⟨known', hlookUp⟩ : ∃ known', lookUp c' g.byIdentity.keys = .ok known' := by
    refine exists_lookUp fun id hid => ?_
    obtain ⟨_, _, _, hsettles⟩ := exists_settles hsettled hid
    exact ⟨_, hsettles.found⟩
  have hknown : ∀ id ∈ g.byIdentity.keys, c'.get? id = .ok (known'.find? id) :=
    fun id => get?_of_lookUp hlookUp
  have hall : ∀ id ∈ g.byIdentity.keys, known'.contains id = true := by
    intro id hid
    obtain ⟨_, e, _, hsettles⟩ := exists_settles hsettled hid
    have hfind := (hknown id hid).symm.trans hsettles.found
    exact OrderedMap.contains_iff.mpr ⟨e, Except.ok.inj hfind⟩
  have hverified := consistent_of_settled hsettled hknown
    (LineageGraph.nodup_identities_of_ofDocument? hg) hconsistent
  obtain ⟨built, hbuilt, hinStep⟩ := assemble_inStep
    (b := ⟨[], { lookups := if g.byIdentity.keys.isEmpty then 0 else 1, missing := 0 }⟩)
    r' (confirms_of_settled hsettled hknown) (fun i j => LineageGraph.lt_size_of_refers hg) hroot
    .nil hassemble
  exact ⟨_, resolveGraph_of_known hlookUp hall hverified hbuilt, ⟨rfl, hinStep.alike⟩,
    hinStep.matched, hinStep.missing⟩

end Settled

/-- What was added resolves again, even if everything has to be there and to agree with its embedded
copy: to the same graph, and without any matching, whatever the rules are. -/
theorem resolve_of_add (hpolicy : r.policy = .follow failOnMissing true)
    (hresolve : r.resolve c d uri = .ok dg) (hadd : c.add dg withLineage now = .ok c') :
    ∃ dg', { r with policy := .follow true true : Resolver }.resolve c' d uri = .ok dg' ∧
      dg.Alike dg' ∧ dg'.stats.matched = 0 ∧ dg'.stats.missing = 0 := by
  have hordered := ordered_of_resolve hresolve
  rw [resolve, hpolicy] at hresolve
  dsimp only at hresolve
  split at hresolve
  next => cases hresolve
  next g hg =>
    obtain ⟨known, stats, hlookUp, hconsistent, hassemble⟩ := verified_of_resolveGraph hresolve
    obtain ⟨earlier, hperm, -, hbuilt, -⟩ := built_of_assemble hg hassemble
    have hroot : 0 < g.size :=
      List.mem_range.mp (hperm.mem_iff.mp (List.mem_append_right _ (List.mem_singleton_self 0)))
    have hsettled : ∀ i, i < g.size → ∃ id e, Settles r known c' (g.node i) id e := by
      intro i hi
      obtain ⟨k, hk⟩ := List.mem_iff_getElem?.mp (hperm.mem_iff.mpr (List.mem_range.mpr hi))
      obtain ⟨ds, hds, hfor⟩ := hbuilt.exists_dataset hk
      exact hfor.settles hordered hadd hds fun id hid =>
        get?_of_lookUp hlookUp (mem_keys_iff_node.mpr ⟨i, hi, hid⟩)
    have hagain : LineageGraph.ofDocument? (layout { r with policy := .follow true true }) d =
        .ok g := hg
    rw [resolve]
    dsimp only
    rw [hagain]
    exact resolveGraph_of_settled hsettled _ hg hroot hconsistent hassemble

section NewAndKnownAncestors

/-- Rules for a registered product, and an ancestor of another product. -/
def surveyCatalog : Catalog :=
  { ancestorCatalog with products := [rockProduct, soilProduct] }

def surveyResolver : Resolver := { soilResolver with policy := .follow false true }

def mossDocument : Document := .ofFields (LineageGraph.fieldsOf '3' [("soil", ancestor.value)])

/-- Dataset 1 comes from the recorded ancestor and, by a new dataset, from it again. -/
def identifiedSurvey : Document :=
  .ofFields (LineageGraph.fieldsOf '1' [("soil", ancestor.value), ("moss", mossDocument.value)])

def identifiedGraph : DatasetGraph where
  nodes := [⟨some ancestorId, rockProduct, ancestor, [], []⟩,
    ⟨some ⟨0x33333333333333333333333333333333⟩, soilProduct,
      soilResolver.layout.withoutLineage mossDocument, [], [("soil", 0)]⟩,
    ⟨some LineageGraph.firstId, soilProduct, soilResolver.layout.withoutLineage identifiedSurvey,
      ["survey"], [("soil", 0), ("moss", 1)]⟩]
  root := 2
  stats := { lookups := 1, matched := 2, fromCatalog := 1, reused := 1, missing := 1 }

/-- One ancestor was known before, the other is missing in the first resolution only. -/
theorem identifiedSurvey_resolves_again :
    surveyResolver.policy = .follow false true ∧
      surveyResolver.resolve surveyCatalog identifiedSurvey "survey" = .ok identifiedGraph ∧
      ∃ c', surveyCatalog.add identifiedGraph true default = .ok c' ∧
        ∃ dg', soilResolver.resolve c' identifiedSurvey "survey" = .ok dg' ∧
          identifiedGraph.Alike dg' ∧ dg'.stats.matched = 0 ∧ dg'.stats.missing = 0 := by
  have hresolve : surveyResolver.resolve surveyCatalog identifiedSurvey "survey" =
      .ok identifiedGraph := by
    rfl
  obtain ⟨c', hadd⟩ : ∃ c', surveyCatalog.add identifiedGraph true default = .ok c' := ⟨_, rfl⟩
  exact ⟨rfl, hresolve, c', hadd, resolve_of_add rfl hresolve hadd⟩

end NewAndKnownAncestors

end Resolver

end DatasetCatalog
