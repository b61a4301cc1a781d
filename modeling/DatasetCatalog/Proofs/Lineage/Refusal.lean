import DatasetCatalog.Proofs.Lineage.Preorder

/-!
# Refused lineages

A walk that stops has read only part of what is embedded, and it compares a document with a node,
not with another document. `Stops` says where a walk over lineage entries stops. Every node stems
from a document read before, and every active identity from one whose lineage is being read, so the
reason for stopping is found in the document itself: two documents that differ, one that stands in
its own lineage, or one that cannot be read. A document without any of these is never refused.
-/

namespace DatasetCatalog

namespace Layout

/-- The lineage entries of a document, none if they cannot be read. -/
def entries (layout : Layout) (d : Document) : List (String × Document) :=
  match layout.lineage d with
  | .ok entries => entries
  | .error _ => []

theorem entries_eq {layout : Layout} {d : Document} {found : List (String × Document)}
    (h : layout.lineage d = .ok found) : layout.entries d = found := by
  rw [entries, h]

theorem size_lt_of_mem_entries {layout : Layout} {d : Document} {e : String × Document}
    (h : e ∈ layout.entries d) : e.2.size < d.size := by
  rw [entries] at h
  split at h
  next hlineage => exact size_lt_of_mem_lineage hlineage h
  next => cases h

/-- The identity that a document carries, if it can be read. -/
def identity? (layout : Layout) (d : Document) : Option Identity :=
  match layout.identity d with
  | .ok id => id
  | .error _ => none

theorem mem_identity?_iff {layout : Layout} {d : Document} {id : Identity} :
    id ∈ layout.identity? d ↔ layout.identity d = .ok (some id) := by
  rw [identity?]
  cases layout.identity d <;> simp

/-- The document and every document embedded in it at any depth, in the order of their text: a
document stands before those in its lineage. -/
def embedded (layout : Layout) (d : Document) : List Document :=
  d :: (layout.entries d).attach.flatMap fun e => embedded layout e.1.2
termination_by d.size
decreasing_by exact size_lt_of_mem_entries e.2

/-- The documents in the lineage of a document, at any depth. -/
def ancestry (layout : Layout) (d : Document) : List Document :=
  (layout.entries d).flatMap fun e => layout.embedded e.2

theorem embedded_eq (layout : Layout) (d : Document) :
    layout.embedded d = d :: layout.ancestry d := by
  have hattach := List.flatMap_map Subtype.val
    (fun e : String × Document => layout.embedded e.2) (layout.entries d).attach
  rw [List.attach_map_subtype_val] at hattach
  rw [embedded, ancestry, hattach]

variable {layout : Layout}

end Layout

namespace LineageGraph

variable {layout : Layout} {active : List Identity} {entries : List (String × Document)}
  {nodes new : List LineageNode} {sources : List (String × Nat)} {finished : List Nat}
  {reason : LineageError}

/-- The documents that a walk over these entries may read. -/
def upcoming (layout : Layout) (entries : List (String × Document)) : List Document :=
  entries.flatMap fun e => layout.embedded e.2

theorem upcoming_cons (classifier : String) (d : Document) (rest : List (String × Document)) :
    upcoming layout ((classifier, d) :: rest) =
      d :: (layout.ancestry d ++ upcoming layout rest) := by
  rw [upcoming, List.flatMap_cons, Layout.embedded_eq]
  rfl

/-- A walk over the entries, from the nodes found before them, stops for a reason: at the first
entry, in its lineage, or at a later entry. -/
inductive Stops (layout : Layout) : List Identity → List (String × Document) → List LineageNode →
    LineageError → Prop
  | identity {active : List Identity} {classifier : String} {d : Document}
      {rest : List (String × Document)} {nodes : List LineageNode} {cause : DocumentError} :
    layout.identity d = .error cause →
    Stops layout active ((classifier, d) :: rest) nodes (.document cause)
  | cycle {active : List Identity} {classifier : String} {d : Document}
      {rest : List (String × Document)} {nodes : List LineageNode} {id : Identity} :
    layout.identity d = .ok (some id) → id ∈ active →
    Stops layout active ((classifier, d) :: rest) nodes (.cycle id)
  | conflict {active : List Identity} {classifier : String} {d : Document}
      {rest : List (String × Document)} {nodes : List LineageNode} {id : Identity}
      {n : LineageNode} :
    layout.identity d = .ok (some id) → n ∈ nodes → n.id = some id →
    n.document.changes (layout.withoutLineage d) ≠ [] →
    Stops layout active ((classifier, d) :: rest) nodes
      (.conflict id (n.document.changes (layout.withoutLineage d)))
  | lineage {active : List Identity} {classifier : String} {d : Document}
      {rest : List (String × Document)} {nodes : List LineageNode} {cause : DocumentError} :
    layout.lineage d = .error cause →
    Stops layout active ((classifier, d) :: rest) nodes (.document cause)
  | inside {active : List Identity} {classifier : String} {d : Document}
      {entries rest : List (String × Document)} {nodes : List LineageNode} {id : Option Identity}
      {reason : LineageError} :
    layout.identity d = .ok id → layout.lineage d = .ok entries →
    Stops layout (id.toList ++ active) entries (nodes ++ [⟨id, layout.withoutLineage d, []⟩])
      reason →
    Stops layout active ((classifier, d) :: rest) nodes reason
  | later {active : List Identity} {classifier : String} {d : Document}
      {rest : List (String × Document)} {nodes new : List LineageNode}
      {sources : List (String × Nat)} {finished : List Nat} {reason : LineageError} :
    Walks layout active [(classifier, d)] nodes sources new finished →
    Stops layout active rest (nodes ++ new) reason →
    Stops layout active ((classifier, d) :: rest) nodes reason

theorem stops_of_walkEntries {n : Nat}
    {walkDocument : (d : Document) → d.size < n → List LineageNode → Walk}
    (hwalk : ∀ {d : Document} {hd : d.size < n} {nodes found : List LineageNode} {i : Nat},
      walkDocument d hd nodes = .ok (i, found) →
      ∃ new finished, found = nodes ++ new ∧ WalksOver layout active d nodes i new finished)
    (hstop : ∀ {d : Document} {hd : d.size < n} {nodes : List LineageNode} {reason : LineageError},
      walkDocument d hd nodes = .error reason →
      ∀ classifier rest, Stops layout active ((classifier, d) :: rest) nodes reason)
    {hentries : ∀ e ∈ entries, e.2.size < n}
    (h : walkEntries walkDocument entries hentries nodes = .error reason) :
    Stops layout active entries nodes reason := by
  induction entries generalizing nodes with
  | nil => cases h
  | cons e rest ih =>
      obtain ⟨classifier, d⟩ := e
      rw [walkEntries] at h
      cases hd : walkDocument d (hentries _ List.mem_cons_self) nodes with
      | error reason' =>
          rw [hd] at h
          cases h
          exact hstop hd classifier rest
      | ok read =>
          obtain ⟨i, middle⟩ := read
          obtain ⟨new, finished, rfl, hover⟩ := hwalk hd
          have hread : Walks layout active [(classifier, d)] nodes [(classifier, i)] (new ++ [])
              (finished ++ []) := hover .done
          rw [List.append_nil] at hread
          refine .later hread ?_
          rw [hd] at h
          cases hrest : walkEntries walkDocument rest
              (fun e he => hentries e (List.mem_cons_of_mem _ he)) (nodes ++ new) with
          | error reason' =>
              simp only [bind, Except.bind, hrest] at h
              cases h
              exact ih hrest
          | ok read =>
              simp only [bind, Except.bind, hrest] at h
              cases h

/-- A walk that fails has stopped at its document or in its lineage. -/
theorem stops_of_walk {n : Nat} {d : Document} {hd : d.size < n}
    (h : walk layout n active d hd nodes = .error reason) (classifier : String)
    (rest : List (String × Document)) :
    Stops layout active ((classifier, d) :: rest) nodes reason := by
  induction n generalizing active d nodes reason classifier rest with
  | zero => cases hd
  | succ n ih =>
      rw [walk] at h
      split at h
      next hid =>
        cases h
        exact .identity hid
      next id hid =>
        split at h
        next id' j m hseen =>
          obtain ⟨rfl, hm, hsame⟩ := seen?_eq_some hseen
          split at h
          next hactive =>
            cases h
            exact .cycle hid hactive
          next =>
            dsimp only at h
            split at h
            next => cases h
            next hdiffers =>
              cases h
              exact .conflict hid (List.mem_of_getElem? hm) hsame hdiffers
        next =>
          split at h
          next hlineage =>
            cases h
            exact .lineage hlineage
          next entries hlineage =>
            refine .inside hid hlineage ?_
            cases hinner : walkEntries (walk layout n (id.toList ++ active)) entries
                (fun _ he => Nat.lt_of_lt_of_le (Layout.size_lt_of_mem_lineage hlineage he)
                  (Nat.le_of_lt_succ hd)) (nodes ++ [⟨id, layout.withoutLineage d, []⟩]) with
            | error reason' =>
                simp only [bind, Except.bind, hinner] at h
                cases h
                exact stops_of_walkEntries walksOver_of_walk (fun h => ih h) hinner
            | ok read =>
                simp only [bind, Except.bind, hinner] at h
                cases h

theorem stops_of_ofDocument? {d : Document} (h : ofDocument? layout d = .error reason)
    (classifier : String) : Stops layout [] [(classifier, d)] [] reason := by
  rw [ofDocument?] at h
  cases hwalk : walk layout (d.size + 1) [] d (Nat.lt_succ_self _) [] with
  | error reason' =>
      rw [hwalk] at h
      cases h
      exact stops_of_walk hwalk classifier []
  | ok found =>
      rw [hwalk] at h
      cases h

/-! ## Where the reason is found -/

/-- New nodes stem from documents under the entries. -/
def StemsFrom (layout : Layout) (n : LineageNode) (d : Document) : Prop :=
  layout.identity d = .ok n.id ∧ n.document = layout.withoutLineage d

theorem Walks.stem (h : Walks layout active entries nodes sources new finished) :
    ∀ n ∈ new, ∃ d ∈ upcoming layout entries, StemsFrom layout n d := by
  induction h with
  | done => simp
  | repeated _ _ _ _ _ _ ih =>
      intro n hn
      obtain ⟨d, hd, hstem⟩ := ih n hn
      rw [upcoming_cons]
      exact ⟨d, List.mem_cons_of_mem _ (List.mem_append_right _ hd), hstem⟩
  | first hid _ hlineage _ _ ihinside ihrest =>
      intro n hn
      rw [upcoming_cons]
      rcases List.mem_append.mp hn with hn | hn
      · rcases List.mem_cons.mp hn with rfl | hn
        · exact ⟨_, List.mem_cons_self, hid, rfl⟩
        · obtain ⟨d, hd, hstem⟩ := ihinside n hn
          rw [← Layout.entries_eq hlineage] at hd
          exact ⟨d, List.mem_cons_of_mem _ (List.mem_append_left _ hd), hstem⟩
      · obtain ⟨d, hd, hstem⟩ := ihrest n hn
        exact ⟨d, List.mem_cons_of_mem _ (List.mem_append_right _ hd), hstem⟩

/-- What the documents of a lineage, in their order, have to show for a reason to refuse it. -/
def Justified (layout : Layout) (all : List Document) : LineageError → Prop
  | .conflict id differences =>
    ∃ e f, [e, f].Sublist all ∧ layout.identity e = .ok (some id) ∧
      layout.identity f = .ok (some id) ∧ differences ≠ [] ∧
      differences = (layout.withoutLineage e).changes (layout.withoutLineage f)
  | .cycle id =>
    ∃ e ∈ all, layout.identity e = .ok (some id) ∧
      ∃ f ∈ layout.ancestry e, layout.identity f = .ok (some id)
  | .document cause => ∃ e ∈ all, layout.identity e = .error cause ∨ layout.lineage e = .error cause

/-- Where a walk stands among all documents of a lineage: the nodes stem from documents before the
entries, and each active identity has a document with all that is upcoming in its lineage. -/
structure Stands (layout : Layout) (all before : List Document) (active : List Identity)
    (entries : List (String × Document)) (nodes : List LineageNode) : Prop where
  order : (before ++ upcoming layout entries).Sublist all
  stem : ∀ n ∈ nodes, ∃ d ∈ before, StemsFrom layout n d
  inside : ∀ id ∈ active, ∃ d ∈ all, layout.identity d = .ok (some id) ∧
    upcoming layout entries ⊆ layout.ancestry d

namespace Stands

variable {all before : List Document} {classifier : String} {d : Document}
  {rest : List (String × Document)}

theorem mem (h : Stands layout all before active ((classifier, d) :: rest) nodes) : d ∈ all := by
  refine h.order.subset (List.mem_append_right _ ?_)
  rw [upcoming_cons]
  exact List.mem_cons_self

/-- Going on to the lineage of the first document. -/
theorem opened (h : Stands layout all before active ((classifier, d) :: rest) nodes)
    {id : Option Identity} (hid : layout.identity d = .ok id)
    {entries : List (String × Document)} (hlineage : layout.lineage d = .ok entries) :
    Stands layout all (before ++ [d]) (id.toList ++ active) entries
      (nodes ++ [⟨id, layout.withoutLineage d, []⟩]) := by
  have hd := h.mem
  have hbelow : upcoming layout entries = layout.ancestry d := by
    rw [Layout.ancestry, Layout.entries_eq hlineage, upcoming]
  obtain ⟨horder, hstem, hinside⟩ := h
  rw [upcoming_cons] at horder hinside
  refine ⟨?_, ?_, ?_⟩
  · refine .trans ?_ horder
    rw [hbelow, List.append_assoc, List.singleton_append]
    exact (List.Sublist.refl before).append ((List.sublist_append_left _ _).cons_cons d)
  · intro n hn
    rcases List.mem_append.mp hn with hn | hn
    · obtain ⟨e, he, hstem⟩ := hstem n hn
      exact ⟨e, List.mem_append_left _ he, hstem⟩
    · cases List.mem_singleton.mp hn
      exact ⟨d, List.mem_append_right _ (List.mem_singleton_self d), hid, rfl⟩
  · intro id' hactive
    rcases List.mem_append.mp hactive with hnew | hactive
    · rw [Option.mem_toList.mp hnew] at hid
      exact ⟨d, hd, hid, fun f hf => hbelow ▸ hf⟩
    · obtain ⟨e, he, heid, hsubset⟩ := hinside id' hactive
      refine ⟨e, he, heid, fun f hf => hsubset ?_⟩
      rw [hbelow] at hf
      exact List.mem_cons_of_mem _ (List.mem_append_left _ hf)

/-- Going on to the later entries. -/
theorem closed (h : Stands layout all before active ((classifier, d) :: rest) nodes)
    (hread : Walks layout active [(classifier, d)] nodes sources new finished) :
    Stands layout all (before ++ layout.embedded d) active rest (nodes ++ new) := by
  have hupcoming : upcoming layout [(classifier, d)] = layout.embedded d := by
    rw [upcoming, List.flatMap_singleton]
  obtain ⟨horder, hstem, hinside⟩ := h
  rw [upcoming_cons, ← List.cons_append, ← Layout.embedded_eq] at horder hinside
  refine ⟨by rwa [List.append_assoc], ?_, ?_⟩
  · intro n hn
    rcases List.mem_append.mp hn with hn | hn
    · obtain ⟨e, he, hstem⟩ := hstem n hn
      exact ⟨e, List.mem_append_left _ he, hstem⟩
    · obtain ⟨e, he, hstem⟩ := hread.stem n hn
      exact ⟨e, List.mem_append_right _ (hupcoming ▸ he), hstem⟩
  · intro id hactive
    obtain ⟨e, he, hid, hsubset⟩ := hinside id hactive
    exact ⟨e, he, hid, fun f hf => hsubset (List.mem_append_right _ hf)⟩

end Stands

/-- Whatever stops a walk is found among the documents. -/
theorem Stops.justified (h : Stops layout active entries nodes reason) {all before : List Document}
    (hstands : Stands layout all before active entries nodes) : Justified layout all reason := by
  induction h generalizing before with
  | identity hid => exact ⟨_, hstands.mem, .inl hid⟩
  | lineage hlineage => exact ⟨_, hstands.mem, .inr hlineage⟩
  | cycle hid hactive =>
      obtain ⟨e, he, heid, hsubset⟩ := hstands.inside _ hactive
      refine ⟨e, he, heid, _, hsubset ?_, hid⟩
      rw [upcoming_cons]
      exact List.mem_cons_self
  | @conflict _ _ d rest nodes id n hid hn hsame hdiffers =>
      obtain ⟨e, he, heid, hdocument⟩ := hstands.stem n hn
      refine ⟨e, d, .trans ?_ hstands.order, hsame ▸ heid, hid, hdiffers, by rw [hdocument]⟩
      rw [upcoming_cons]
      exact (List.singleton_sublist.mpr he).append
        (List.singleton_sublist.mpr List.mem_cons_self)
  | inside hid hlineage _ ih => exact ih (hstands.opened hid hlineage)
  | later hread _ ih => exact ih (hstands.closed hread)

/-! ## Documents that are never refused -/

/-- All that is embedded can be read, documents of one identity have the same body, and none stands
in its own lineage. -/
structure Coherent (layout : Layout) (d : Document) : Prop where
  readable : ∀ e ∈ layout.embedded d,
    (layout.identity e).isOk = true ∧ (layout.lineage e).isOk = true
  consistent : ∀ e ∈ layout.embedded d, ∀ f ∈ layout.embedded d,
    ∀ id ∈ layout.identity? e, id ∈ layout.identity? f →
      (layout.withoutLineage e).value.sameValue .sensitive (layout.withoutLineage f).value = true
  acyclic : ∀ e ∈ layout.embedded d, ∀ f ∈ layout.ancestry e,
    ∀ id ∈ layout.identity? e, id ∉ layout.identity? f

instance (layout : Layout) (d : Document) : Decidable (Coherent layout d) :=
  decidable_of_iff (_ ∧ _ ∧ _) ⟨fun ⟨h, h', h''⟩ => ⟨h, h', h''⟩, fun h => ⟨h.1, h.2, h.3⟩⟩

theorem Coherent.not_justified {d : Document} (h : Coherent layout d) :
    ¬ Justified layout (layout.embedded d) reason := by
  intro hreason
  cases reason with
  | document cause =>
      obtain ⟨e, he, hcause | hcause⟩ := hreason
      · have hread := (h.readable e he).1
        rw [hcause] at hread
        cases hread
      · have hread := (h.readable e he).2
        rw [hcause] at hread
        cases hread
  | cycle id =>
      obtain ⟨e, he, heid, f, hf, hfid⟩ := hreason
      exact h.acyclic e he f hf id (Layout.mem_identity?_iff.mpr heid)
        (Layout.mem_identity?_iff.mpr hfid)
  | conflict id differences =>
      obtain ⟨e, f, hordered, heid, hfid, hdiffers, rfl⟩ := hreason
      refine hdiffers (Document.changes_eq_nil_iff.mpr ?_)
      exact h.consistent e (hordered.subset List.mem_cons_self) f
        (hordered.subset (List.mem_cons_of_mem _ List.mem_cons_self)) id
        (Layout.mem_identity?_iff.mpr heid) (Layout.mem_identity?_iff.mpr hfid)

/-- A lineage is refused only for a reason that its documents show, and never if it is coherent. -/
theorem refused_only_if_justified (layout : Layout) (d : Document) :
    (∀ reason, ofDocument? layout d = .error reason →
      Justified layout (layout.embedded d) reason) ∧
    (Coherent layout d → ∃ g, ofDocument? layout d = .ok g) := by
  have hjustified : ∀ reason, ofDocument? layout d = .error reason →
      Justified layout (layout.embedded d) reason := by
    intro reason h
    have hstands : Stands layout (layout.embedded d) [] [] [("", d)] [] := by
      refine ⟨?_, by simp, by simp⟩
      rw [List.nil_append, upcoming, List.flatMap_singleton]
    exact (stops_of_ofDocument? h "").justified hstands
  refine ⟨hjustified, fun hcoherent => ?_⟩
  cases hgraph : ofDocument? layout d with
  | ok g => exact ⟨g, rfl⟩
  | error reason => exact (hcoherent.not_justified (hjustified reason hgraph)).elim

section RivalLineage

/-- Dataset 2 is embedded in dataset 1, and another version of it in dataset 3. -/
def rivalLineage : Document :=
  let version := fun kind => Value.mapping (("kind", .text kind) :: fieldsOf '2' [])
  .ofFields (fieldsOf '1' [("s1", version "raw"), ("s2", .mapping (fieldsOf '3'
    [("up", version "corrected")]))])

/-- The two versions are refused; a dataset that is repeated with another lineage is not. -/
theorem rivalLineage_refused :
    (∃ differences, ofDocument? sourcesLayout rivalLineage =
        .error (.conflict ⟨0x22222222222222222222222222222222⟩ differences) ∧
      Justified sourcesLayout (sourcesLayout.embedded rivalLineage)
        (.conflict ⟨0x22222222222222222222222222222222⟩ differences)) ∧
    Coherent sourcesLayout laterLineage ∧ ∃ g, ofDocument? sourcesLayout laterLineage = .ok g := by
  have hcoherent : Coherent sourcesLayout laterLineage := by
    decide +kernel
  refine ⟨⟨_, rfl, (refused_only_if_justified sourcesLayout rivalLineage).1 _ rfl⟩, hcoherent, ?_⟩
  exact (refused_only_if_justified sourcesLayout laterLineage).2 hcoherent

end RivalLineage

end LineageGraph

end DatasetCatalog
