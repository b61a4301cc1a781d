import DatasetCatalog.Proofs.Lineage.Walk

/-!
# The documents a deduplication comes upon

A depth-first walk in document order meets a document before its lineage. When it meets an identity
again it passes over what stands below, so a lineage that only a later occurrence spells out is not
in the graph. `Layout.Meets` lists what is met. Every document in that list has its node, and every
first occurrence keeps its lineage there. Nothing at all is lost when documents of one identity are
the same wherever they stand.
-/

namespace DatasetCatalog

namespace Layout

/-- The document's identity is that of one met before. -/
def Repeats (layout : Layout) (met : List Document) (d : Document) : Prop :=
  ∃ id, layout.identity d = .ok (some id) ∧ ∃ f ∈ met, layout.identity f = .ok (some id)

/-- When `met` have been met and `pending` wait, the walk goes on to meet exactly the last list. It
takes up the lineage of a first occurrence at once, and never that of a repeated identity. -/
inductive Meets (layout : Layout) : List Document → List Document → List Document → Prop
  | done {met : List Document} : Meets layout met [] []
  | repeated {met pending later : List Document} {d : Document} :
    layout.Repeats met d → Meets layout (met ++ [d]) pending later →
    Meets layout met (d :: pending) (d :: later)
  | first {met pending later : List Document} {d : Document} {entries : List (String × Document)} :
    ¬ layout.Repeats met d → layout.lineage d = .ok entries →
    Meets layout (met ++ [d]) (entries.map Prod.snd ++ pending) later →
    Meets layout met (d :: pending) (d :: later)

/-- A property of every document in a list, given those met before it. -/
def EachMet (P : List Document → Document → Prop) : List Document → List Document → Prop
  | _, [] => True
  | met, d :: later => P met d ∧ EachMet P (met ++ [d]) later

variable {layout : Layout} {P Q : List Document → Document → Prop}

theorem EachMet.imp (h : ∀ met d, P met d → Q met d) {met later : List Document}
    (hp : EachMet P met later) : EachMet Q met later := by
  induction later generalizing met with
  | nil => trivial
  | cons d later ih => exact ⟨h met d hp.1, ih hp.2⟩

theorem eachMet_append {met first second : List Document} :
    EachMet P met (first ++ second) ↔ EachMet P met first ∧ EachMet P (met ++ first) second := by
  induction first generalizing met with
  | nil => simp [EachMet]
  | cons d first ih =>
      rw [List.cons_append, EachMet, EachMet, ih, and_assoc, List.append_assoc]
      rfl

theorem EachMet.split {met before after : List Document} {e : Document}
    (h : EachMet P met (before ++ e :: after)) : P (met ++ before) e :=
  (eachMet_append.mp h).2.1

/-- Nothing that waits is forgotten. -/
theorem Meets.pending_subset {met pending later : List Document}
    (h : layout.Meets met pending later) : pending ⊆ later := by
  induction h with
  | done => exact List.Subset.refl _
  | repeated _ _ ih => exact List.cons_subset_cons _ ih
  | first _ _ _ ih =>
      exact List.cons_subset_cons _ fun _ hd => ih (List.mem_append_right _ hd)

/-- A first occurrence is followed by its lineage entries. -/
theorem Meets.entries_follow {met pending later : List Document}
    (h : layout.Meets met pending later) {before after : List Document} {e : Document}
    (hsplit : later = before ++ e :: after) (hfirst : ¬ layout.Repeats (met ++ before) e) :
    ∃ entries, layout.lineage e = .ok entries ∧ ∀ entry ∈ entries, entry.2 ∈ after := by
  induction h generalizing before with
  | done => simp at hsplit
  | repeated hrepeats _ ih =>
      cases before with
      | nil =>
          cases hsplit
          rw [List.append_nil] at hfirst
          exact (hfirst hrepeats).elim
      | cons d before =>
          cases hsplit
          exact ih rfl (by rwa [List.append_assoc])
  | first _ hlineage hmeets ih =>
      cases before with
      | nil =>
          cases hsplit
          refine ⟨_, hlineage, fun entry hentry => hmeets.pending_subset ?_⟩
          exact List.mem_append_left _ (List.mem_map_of_mem hentry)
      | cons d before =>
          cases hsplit
          exact ih rfl (by rwa [List.append_assoc])

/-- Only what is embedded is met. -/
theorem Meets.embeds {met pending later : List Document} (h : layout.Meets met pending later)
    {e : Document} (he : e ∈ later) : ∃ d ∈ pending, layout.Embeds d e := by
  induction h with
  | done => cases he
  | repeated _ _ ih =>
      rcases List.mem_cons.mp he with rfl | he
      · exact ⟨e, List.mem_cons_self, .refl e⟩
      · obtain ⟨d, hd, hembeds⟩ := ih he
        exact ⟨d, List.mem_cons_of_mem _ hd, hembeds⟩
  | @first _ _ _ d entries _ hlineage _ ih =>
      rcases List.mem_cons.mp he with rfl | he
      · exact ⟨e, List.mem_cons_self, .refl e⟩
      · obtain ⟨x, hx, hembeds⟩ := ih he
        rcases List.mem_append.mp hx with hx | hx
        · obtain ⟨⟨classifier, child⟩, hentry, rfl⟩ := List.mem_map.mp hx
          exact ⟨d, List.mem_cons_self, .entry ⟨entries, hlineage, hentry⟩ hembeds⟩
        · exact ⟨x, List.mem_cons_of_mem _ hx, hembeds⟩

/-- Of the documents with one identity, one is met first. -/
theorem exists_first {met : List Document} {f : Document} {id : Identity} (hf : f ∈ met)
    (hid : layout.identity f = .ok (some id)) :
    ∃ before e after, met = before ++ e :: after ∧ layout.identity e = .ok (some id) ∧
      ¬ layout.Repeats before e := by
  induction met with
  | nil => cases hf
  | cons d met ih =>
      by_cases hd : layout.identity d = .ok (some id)
      · refine ⟨[], d, met, rfl, hd, ?_⟩
        rintro ⟨_, _, _, hmem, _⟩
        cases hmem
      · have hf : f ∈ met := by
          rcases List.mem_cons.mp hf with rfl | hf
          · exact (hd hid).elim
          · exact hf
        obtain ⟨before, e, after, rfl, he, hfirst⟩ := ih hf
        refine ⟨d :: before, e, after, rfl, he, ?_⟩
        rintro ⟨id', he', x, hx, hxid⟩
        rw [he] at he'
        cases he'
        rcases List.mem_cons.mp hx with rfl | hx
        · exact hd hxid
        · exact hfirst ⟨id, he, x, hx, hxid⟩

/-- A document that is met has the lineage of a first occurrence, when documents of one identity have
the same lineage. -/
theorem exists_first_lineage {met : List Document} {x : Document} (hx : x ∈ met)
    (hsame : ∀ f ∈ met, ∀ id, layout.identity x = .ok (some id) →
      layout.identity f = .ok (some id) → layout.lineage x = layout.lineage f) :
    ∃ before f after, met = before ++ f :: after ∧ ¬ layout.Repeats before f ∧
      layout.lineage x = layout.lineage f := by
  obtain ⟨front, back, hsplit⟩ := List.append_of_mem hx
  by_cases hrepeats : layout.Repeats front x
  · obtain ⟨id, hid, _⟩ := hrepeats
    obtain ⟨before, f, after, hmet, hfid, hfirst⟩ := exists_first hx hid
    have hf : f ∈ met := hmet ▸ List.mem_append_right _ List.mem_cons_self
    exact ⟨before, f, after, hmet, hfirst, hsame f hf id hid hfid⟩
  · exact ⟨front, x, back, hsplit, hrepeats, rfl⟩

/-- When documents of one identity have the same lineage, everything embedded is met. -/
theorem Meets.mem_of_embeds {d : Document} {met : List Document}
    (h : layout.Meets [] [d] met)
    (hsame : ∀ e f id, layout.Embeds d e → layout.Embeds d f →
      layout.identity e = .ok (some id) → layout.identity f = .ok (some id) →
      layout.lineage e = layout.lineage f)
    {x e : Document} (hx : x ∈ met) (he : layout.Embeds x e) : e ∈ met := by
  have hembedded : ∀ y ∈ met, layout.Embeds d y := by
    intro y hy
    obtain ⟨_, hd, hembeds⟩ := h.embeds hy
    cases List.mem_singleton.mp hd
    exact hembeds
  induction he with
  | refl => exact hx
  | entry hentry _ ih =>
      obtain ⟨before, f, after, hmet, hfirst, hlineage⟩ := exists_first_lineage hx
        fun f hf id => hsame _ f id (hembedded _ hx) (hembedded f hf)
      obtain ⟨entries, hentries, hfollow⟩ := h.entries_follow hmet hfirst
      obtain ⟨_, hlineage', hmem⟩ := hentry
      rw [hlineage, hentries] at hlineage'
      cases hlineage'
      apply ih
      rw [hmet]
      exact List.mem_append_right _ (List.mem_cons_of_mem _ (hfollow _ hmem))

end Layout

namespace LineageGraph

/-- Node `i` has the identity, and the document found there has no changes against its document. -/
def Records (layout : Layout) (g : LineageGraph) (e : Document) (id : Identity) (i : Nat) : Prop :=
  g.indexOf? id = some i ∧ (g.node i).document.changes (layout.withoutLineage e) = []

/-- Node `i` leads, under every classifier of the document's lineage, to the identity found there. -/
def KeepsLineage (layout : Layout) (g : LineageGraph) (e : Document) (i : Nat) : Prop :=
  ∀ classifier child id, layout.EmbedsAs e classifier child →
    layout.identity child = .ok (some id) →
    ∃ j, g.indexOf? id = some j ∧ (classifier, j) ∈ (g.node i).sources

/-- The identities of the documents met are those that have a node. -/
def Covers (layout : Layout) (met : List Document) (nodes : List LineageNode) : Prop :=
  ∀ id, (∃ f ∈ met, layout.identity f = .ok (some id)) ↔ id ∈ identities nodes

/-- What a walk keeps of a document that it meets: a node, and for the first of its identity a new
node that leads to everything in its lineage. -/
def Kept (layout : Layout) (all new : List LineageNode) (before : List Document) (e : Document) :
    Prop :=
  (∃ i, Represents layout all i e) ∧
    (¬ layout.Repeats before e → ∃ n ∈ new, layout.identity e = .ok n.id ∧
      ∃ entries, layout.lineage e = .ok entries ∧ LeadsTo layout all entries n.sources)

variable {layout : Layout}

theorem Kept.mono {all new more : List LineageNode} {before : List Document} {e : Document}
    (h : Kept layout all new before e) (hmore : new ⊆ more) : Kept layout all more before e := by
  refine ⟨h.1, fun hfirst => ?_⟩
  obtain ⟨n, hn, hkept⟩ := h.2 hfirst
  exact ⟨n, hmore hn, hkept⟩

theorem Covers.repeats_iff {met : List Document} {nodes : List LineageNode} {d : Document}
    (h : Covers layout met nodes) :
    layout.Repeats met d ↔ ∃ id, layout.identity d = .ok (some id) ∧ id ∈ identities nodes := by
  constructor
  · rintro ⟨id, hid, hmet⟩
    exact ⟨id, hid, (h id).mp hmet⟩
  · rintro ⟨id, hid, hmem⟩
    exact ⟨id, hid, (h id).mpr hmem⟩

theorem Covers.repeated {met : List Document} {nodes : List LineageNode} {d : Document}
    {id : Identity} (h : Covers layout met nodes) (hid : layout.identity d = .ok (some id))
    (hmem : id ∈ identities nodes) : Covers layout (met ++ [d]) nodes := by
  intro id'
  rw [← h id']
  constructor
  · rintro ⟨f, hf, hfid⟩
    rcases List.mem_append.mp hf with hf | hf
    · exact ⟨f, hf, hfid⟩
    · cases List.mem_singleton.mp hf
      rw [hid] at hfid
      cases hfid
      exact (h id).mpr hmem
  · rintro ⟨f, hf, hfid⟩
    exact ⟨f, List.mem_append_left _ hf, hfid⟩

theorem Covers.first {met : List Document} {nodes : List LineageNode} {d : Document}
    {n : LineageNode} (h : Covers layout met nodes) (hid : layout.identity d = .ok n.id) :
    Covers layout (met ++ [d]) (nodes ++ [n]) := by
  intro id
  rw [identities_append, List.mem_append, ← h id]
  constructor
  · rintro ⟨f, hf, hfid⟩
    rcases List.mem_append.mp hf with hf | hf
    · exact .inl ⟨f, hf, hfid⟩
    · cases List.mem_singleton.mp hf
      rw [hid] at hfid
      exact .inr (mem_identities.mpr ⟨n, List.mem_singleton_self n, Except.ok.inj hfid⟩)
  · rintro (⟨f, hf, hfid⟩ | hmem)
    · exact ⟨f, List.mem_append_left _ hf, hfid⟩
    · obtain ⟨m, hm, hmid⟩ := mem_identities.mp hmem
      cases List.mem_singleton.mp hm
      exact ⟨d, List.mem_append_right _ (List.mem_singleton_self d), hmid ▸ hid⟩

/-- A successful walk meets what `Meets` lists, and keeps it. -/
theorem Walks.meets {active : List Identity} {entries : List (String × Document)}
    {nodes new all : List LineageNode} {sources : List (String × Nat)} {finished : List Nat}
    (h : Walks layout active entries nodes sources new finished) {met : List Document}
    (hcovers : Covers layout met nodes) (hall : (nodes ++ new).map face <+: all.map face) :
    ∃ more,
      (∀ pending rest, layout.Meets (met ++ more) pending rest →
        layout.Meets met (entries.map Prod.snd ++ pending) (more ++ rest)) ∧
      Covers layout (met ++ more) (nodes ++ new) ∧
      Layout.EachMet (Kept layout all new) met more := by
  induction h generalizing met with
  | done =>
      refine ⟨[], ?_, ?_, trivial⟩
      · intro pending rest hrest
        rwa [List.append_nil] at hrest
      · rwa [List.append_nil, List.append_nil]
  | @repeated _ _ d _ nodes id i n _ new _ hid hn hsame _ hsilent _ ih =>
      have hmem : id ∈ identities nodes :=
        mem_identities.mpr ⟨n, List.mem_of_getElem? hn, hsame⟩
      have hrepeats : layout.Repeats met d := hcovers.repeats_iff.mpr ⟨id, hid, hmem⟩
      have hrepresents : Represents layout nodes i d := ⟨n, hn, hsame ▸ hid, hsilent⟩
      have hnodes : nodes.map face <+: all.map face := by
        refine List.IsPrefix.trans ?_ hall
        rw [List.map_append]
        exact List.prefix_append _ _
      obtain ⟨more, hmeets, hcover, hkept⟩ := ih (hcovers.repeated hid hmem) hall
      refine ⟨d :: more, ?_, ?_, ⟨⟨i, hrepresents.mono hnodes⟩, ?_⟩, hkept⟩
      · intro pending rest hrest
        refine .repeated hrepeats (hmeets pending rest ?_)
        rwa [List.append_assoc]
      · rwa [List.append_assoc] at hcover
      · intro hfirst
        exact (hfirst hrepeats).elim
  | @first _ _ d entries _ nodes id inner _ below more _ _ hid hfresh hlineage hbelow _ ihbelow
      ihrest =>
      have hfirst : ¬ layout.Repeats met d := by
        rw [hcovers.repeats_iff]
        rintro ⟨id', hid', hmem⟩
        rw [hid] at hid'
        cases hid'
        exact hfresh id' rfl hmem
      have hopen := (map_face_closed nodes below more id (layout.withoutLineage d) inner).trans hall
      have hopened : Represents layout all nodes.length d := by
        have hnew : Represents layout (nodes ++ [⟨id, layout.withoutLineage d, []⟩] ++ below)
            nodes.length d := by
          refine ⟨⟨id, layout.withoutLineage d, []⟩, ?_, hid, Document.changes_self _⟩
          rw [List.append_assoc, List.getElem?_append_right (Nat.le_refl _), Nat.sub_self]
          rfl
        exact hnew.mono hopen
      obtain ⟨upper, hupper, hcover, hkept⟩ :=
        ihbelow (hcovers.first hid) hopen
      have hclosed : Covers layout (met ++ [d] ++ upper)
          (nodes ++ ⟨id, layout.withoutLineage d, inner⟩ :: below) := by
        intro id'
        rw [hcover id', identities_closed]
      obtain ⟨lower, hlower, hcover', hkept'⟩ := ihrest hclosed (by rwa [List.append_assoc])
      refine ⟨d :: (upper ++ lower), ?_, ?_, ⟨⟨nodes.length, hopened⟩, ?_⟩, ?_⟩
      · intro pending rest hrest
        have hrest' : layout.Meets (met ++ [d] ++ upper ++ lower) pending rest := by
          simpa using hrest
        have hmeets := hupper _ _ (hlower _ _ hrest')
        rw [← List.append_assoc upper] at hmeets
        exact .first hfirst hlineage hmeets
      · simpa using hcover'
      · intro _
        exact ⟨_, List.mem_cons_self, hid, entries, hlineage, hbelow.leadsTo.mono hopen⟩
      · refine Layout.eachMet_append.mpr ⟨?_, ?_⟩
        · exact hkept.imp fun _ _ hk => hk.mono fun _ hm =>
            List.mem_cons_of_mem _ (List.mem_append_left _ hm)
        · exact hkept'.imp fun _ _ hk => hk.mono fun _ hm =>
            List.mem_cons_of_mem _ (List.mem_append_right _ hm)

theorem records_of_represents {g : LineageGraph} (h : (identities g.nodes).Nodup) {e : Document}
    {id : Identity} {i : Nat} (hi : Represents layout g.nodes i e)
    (hid : layout.identity e = .ok (some id)) : Records layout g e id i := by
  obtain ⟨n, hn, hnid, hsilent⟩ := hi
  rw [hid] at hnid
  refine ⟨(indexOf?_eq_some_iff h).mpr ⟨n, hn, (Except.ok.inj hnid).symm⟩, ?_⟩
  rwa [node_eq hn]

/-- The document of a first occurrence finds its lineage at the node of its identity. -/
theorem Kept.keepsLineage {g : LineageGraph} (h : (identities g.nodes).Nodup)
    {before : List Document} {e : Document} (hkept : Kept layout g.nodes g.nodes before e)
    (hfirst : ¬ layout.Repeats before e) {id : Identity} {i : Nat}
    (hid : layout.identity e = .ok (some id)) (hi : g.indexOf? id = some i) :
    KeepsLineage layout g e i := by
  obtain ⟨n, hn, hnid, entries, hlineage, hleads⟩ := hkept.2 hfirst
  rw [hid] at hnid
  obtain ⟨j, hj⟩ := List.mem_iff_getElem?.mp hn
  have hnode : g.nodes[i]? = some n := by
    rw [carries_unique h ((indexOf?_eq_some_iff h).mp hi) ⟨n, hj, (Except.ok.inj hnid).symm⟩]
    exact hj
  rintro classifier child cid ⟨_, hlineage', hmem⟩ hcid
  rw [hlineage] at hlineage'
  cases hlineage'
  obtain ⟨k, hs, hk⟩ := hleads.exists_source hmem
  refine ⟨k, (records_of_represents h hk hcid).1, ?_⟩
  rwa [node_eq hnode]

/-- Nothing that the walk meets is lost: every document with an identity has its node, which has no
changes against it and, for the first document of the identity, leads to the identities of its whole
lineage. When documents of one identity have the same lineage, this holds of every embedded one. -/
theorem records_of_ofDocument? {d : Document} {g : LineageGraph}
    (h : ofDocument? layout d = .ok g) :
    (∃ met, layout.Meets [] [d] met ∧
      ∀ before e after, met = before ++ e :: after →
        ∀ id, layout.identity e = .ok (some id) →
          ∃ i, Records layout g e id i ∧ (¬ layout.Repeats before e → KeepsLineage layout g e i)) ∧
    ((∀ e f id, layout.Embeds d e → layout.Embeds d f →
        layout.identity e = .ok (some id) → layout.identity f = .ok (some id) →
        layout.lineage e = layout.lineage f) →
      ∀ e id, layout.Embeds d e → layout.identity e = .ok (some id) →
        ∃ i, Records layout g e id i ∧ KeepsLineage layout g e i) := by
  have hnodup := nodup_identities_of_ofDocument? h
  obtain ⟨finished, hw⟩ := walks_of_ofDocument? h ""
  have hnone : Covers layout [] [] := by
    simp [Covers, identities]
  obtain ⟨met, hmeets, -, hkept⟩ := hw.meets hnone List.prefix_rfl
  have hmet : layout.Meets [] [d] met := by
    simpa using hmeets [] [] .done
  have hrecords : ∀ before e after, met = before ++ e :: after →
      ∀ id, layout.identity e = .ok (some id) →
        ∃ i, Records layout g e id i ∧
          (¬ layout.Repeats before e → KeepsLineage layout g e i) := by
    rintro before e after rfl id hid
    obtain ⟨i, hi⟩ := hkept.split.1
    have hrecord := records_of_represents hnodup hi hid
    exact ⟨i, hrecord, fun hfirst => hkept.split.keepsLineage hnodup hfirst hid hrecord.1⟩
  refine ⟨⟨met, hmet, hrecords⟩, ?_⟩
  intro hsame e id he hid
  have hmem : e ∈ met := hmet.mem_of_embeds hsame (hmet.pending_subset List.mem_cons_self) he
  obtain ⟨front, back, hsplit⟩ := List.append_of_mem hmem
  obtain ⟨i, hrecord, _⟩ := hrecords front e back hsplit id hid
  obtain ⟨before, f, after, hmetf, hfid, hfirst⟩ := Layout.exists_first hmem hid
  obtain ⟨j, hrecordf, hkeeps⟩ := hrecords before f after hmetf id hfid
  -- Both are the one node of the identity.
  cases hrecord.1.symm.trans hrecordf.1
  refine ⟨i, hrecord, ?_⟩
  have hf : layout.Embeds d f := by
    have hmemf : f ∈ met := hmetf ▸ List.mem_append_right _ List.mem_cons_self
    obtain ⟨_, hd, hembeds⟩ := hmet.embeds hmemf
    cases List.mem_singleton.mp hd
    exact hembeds
  rintro classifier child cid ⟨entries, hlineage, hmemc⟩ hcid
  rw [hsame e f id he hf hid hfid] at hlineage
  exact hkeeps hfirst classifier child cid ⟨entries, hlineage, hmemc⟩ hcid

section LaterLineage

def sourcesLayout : Layout := { sources := .ofKeys ["sources"] }

/-- The fields of a document whose identity repeats a digit. -/
def fieldsOf (digit : Char) (lineage : Fields) : Fields :=
  [("id", .text (String.ofList (List.replicate 32 digit))), ("sources", .mapping lineage)]

/-- Dataset 2 stands twice in the lineage of dataset 1, and only the later one names dataset 3. -/
def laterLineage : Document := .ofFields (fieldsOf '1'
  [("s1", .mapping (fieldsOf '2' [])),
    ("s2", .mapping (fieldsOf '2' [("up", .mapping (fieldsOf '3' []))]))])

def firstId : Identity := ⟨0x11111111111111111111111111111111⟩

def laterGraph : LineageGraph := ⟨
  [⟨some firstId, sourcesLayout.withoutLineage (.ofFields (fieldsOf '1' [])), [("s1", 1), ("s2", 1)]⟩,
    ⟨some ⟨0x22222222222222222222222222222222⟩,
      sourcesLayout.withoutLineage (.ofFields (fieldsOf '2' [])), []⟩]⟩

/-- The root is met first, so it keeps its lineage. -/
theorem records_of_laterLineage :
    ofDocument? sourcesLayout laterLineage = .ok laterGraph ∧
      ∃ i, Records sourcesLayout laterGraph laterLineage firstId i ∧
        KeepsLineage sourcesLayout laterGraph laterLineage i := by
  have hgraph : ofDocument? sourcesLayout laterLineage = .ok laterGraph := by
    rfl
  have hid : sourcesLayout.identity laterLineage = .ok (some firstId) := by
    rfl
  refine ⟨hgraph, ?_⟩
  obtain ⟨⟨met, hmeets, hrecords⟩, -⟩ := records_of_ofDocument? hgraph
  have hfirst : ¬ sourcesLayout.Repeats [] laterLineage := by
    rintro ⟨_, _, _, hmem, _⟩
    cases hmem
  cases hmeets with
  | repeated hrepeats => exact (hfirst hrepeats).elim
  | first =>
      obtain ⟨i, hrecord, hkeeps⟩ := hrecords [] laterLineage _ rfl firstId hid
      exact ⟨i, hrecord, hkeeps hfirst⟩

/-- Dataset 3 is embedded and has no node. -/
theorem laterLineage_passed_over :
    ¬ ∀ (layout : Layout) (d : Document) (g : LineageGraph), layout.sources ≠ [] →
      layout.sources.keys?.isSome → ofDocument? layout d = .ok g →
      ∀ e id, layout.Embeds d e → layout.identity e = .ok (some id) →
        ∃ i, Records layout g e id i ∧ KeepsLineage layout g e i := by
  intro hall
  have hgraph : ofDocument? sourcesLayout laterLineage = .ok laterGraph := by
    rfl
  have hlineage : sourcesLayout.lineage laterLineage = .ok
      [("s1", .ofFields (fieldsOf '2' [])),
        ("s2", .ofFields (fieldsOf '2' [("up", .mapping (fieldsOf '3' []))]))] := by
    rfl
  have hlineage' : sourcesLayout.lineage
      (.ofFields (fieldsOf '2' [("up", .mapping (fieldsOf '3' []))])) =
      .ok [("up", .ofFields (fieldsOf '3' []))] := by
    rfl
  have hid : sourcesLayout.identity (.ofFields (fieldsOf '3' [])) =
      .ok (some ⟨0x33333333333333333333333333333333⟩) := by
    rfl
  obtain ⟨i, ⟨hindex, -⟩, -⟩ := hall sourcesLayout laterLineage laterGraph (by decide) rfl hgraph
    (.ofFields (fieldsOf '3' [])) _
    (.entry ⟨_, hlineage, List.mem_cons_of_mem _ List.mem_cons_self⟩
      (.entry ⟨_, hlineage', List.mem_cons_self⟩ (.refl _))) hid
  have hnone : laterGraph.indexOf? ⟨0x33333333333333333333333333333333⟩ = none := by
    decide
  rw [hnone] at hindex
  cases hindex

end LaterLineage

end LineageGraph

end DatasetCatalog
