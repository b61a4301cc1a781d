import DatasetCatalog.Proofs.Catalog.History

/-!
# Catalogs in use

A session starts from the empty catalog and performs actions one after the other, in any order and
with any failures. It keeps every graph that was resolved and every snapshot that was taken, so that
an action may come back to one that the catalog has long outgrown. What an action does to the
catalog is to make one request, with graphs that were resolved, or to put back what a snapshot was
taken of. So an invariant that requests and snapshots keep holds whatever the session does, and one
of them is that the recorded lineage is closed and has no cycle.
-/

namespace DatasetCatalog

namespace Catalog

/-- `P` holds of the empty catalog, a request keeps it that adds a graph with `Q`, which all resolved
graphs have, and records an instant with `T`, and a snapshot brings it back. -/
structure Invariant (Q : DatasetGraph → Prop) (T : Timestamp → Prop) (P : Catalog → Prop) :
    Prop where
  empty : P empty
  resolved : ∀ {r : Resolver} {c : Catalog} {d : Document} {uri : String} {g : DatasetGraph},
    r.resolve c d uri = .ok g → Q g
  outcome : ∀ {c c' : Catalog} {α : Type} {answer : α} (w : Write α), (∀ g ∈ w.graph?, Q g) →
    (∀ t ∈ w.instant?, T t) → P c → w.outcome c = .ok (c', answer) → P c'
  reopened : ∀ {c c' : Catalog}, P c → (Snapshot.ofCatalog c).restore = .ok c' → P c'

theorem invariant_grounded : Invariant DatasetGraph.Ordered (fun _ => True) Grounded where
  empty := grounded_empty
  resolved := Resolver.ordered_of_resolve
  outcome w hgraph _ h hdone := by
    rcases w.adds_or_sameSources hdone with ⟨g, withLineage, now, hg, hadd⟩ | ⟨hsame, -⟩
    · exact h.add (hgraph g hg) hadd
    · exact h.of_sameSources hsame
  reopened h hc := h.of_sameSources (sameSources_of_snapshot hc)

end Catalog

/-- A catalog with the graphs resolved against it and the snapshots taken of it so far. -/
structure Session where
  catalog : Catalog
  graphs : List DatasetGraph
  snapshots : List Snapshot

/-- Graphs and snapshots are named by their place in the session. -/
inductive Action
  | addProduct (p : Product)
  | resolve (r : Resolver) (d : Document) (uri : String)
  | add (graph : Nat) (withLineage : Bool) (now : Timestamp)
  | update (d : Dataset) (rules : ChangeRules)
  | archive (ids : List Identity) (now : Timestamp)
  | restore (ids : List Identity)
  | archiveLocation (id : Identity) (uri : String)
  | removeLocation (id : Identity) (uri : String)
  | takeSnapshot
  | restoreSnapshot (snapshot : Nat)

/-- What the clock shows when the action reads it. -/
def Action.instant? : Action → Option Timestamp
  | .add _ _ now | .archive _ now => some now
  | _ => none

namespace Session

def start : Session := ⟨.empty, [], []⟩

def withCatalog (s : Session) (c : Catalog) : Session := { s with catalog := c }

/-- The session after an action that succeeds. -/
def perform? (s : Session) : Action → Option Session
  | .addProduct p => (s.catalog.addProduct p).toOption.map fun added => s.withCatalog added.1
  | .resolve r d uri =>
    (r.resolve s.catalog d uri).toOption.map fun g => { s with graphs := s.graphs ++ [g] }
  | .add graph withLineage now =>
    s.graphs[graph]?.bind fun g => (s.catalog.add g withLineage now).toOption.map s.withCatalog
  | .update d rules => (s.catalog.update d rules).toOption.map s.withCatalog
  | .archive ids now => (s.catalog.archive ids now).toOption.map s.withCatalog
  | .restore ids => (s.catalog.restore ids).toOption.map s.withCatalog
  | .archiveLocation id uri =>
    (s.catalog.archiveLocation id uri).toOption.map fun changed => s.withCatalog changed.1
  | .removeLocation id uri =>
    (s.catalog.removeLocation id uri).toOption.map fun changed => s.withCatalog changed.1
  | .takeSnapshot => some { s with snapshots := s.snapshots ++ [.ofCatalog s.catalog] }
  | .restoreSnapshot snapshot =>
    s.snapshots[snapshot]?.bind fun t => t.restore.toOption.map s.withCatalog

/-- An action that fails changes nothing. -/
def step (s : Session) (a : Action) : Session := (s.perform? a).getD s

def run (actions : List Action) : Session := actions.foldl step start

/-- What an action that succeeds makes of a session. -/
inductive Moves (s : Session) (a : Action) : Session → Prop
  | served (r : Catalog.Request) {answer : r.answer} {c : Catalog} :
    (∀ g ∈ r.write.graph?, g ∈ s.graphs) → r.write.instant? = a.instant? →
    r.write.outcome s.catalog = .ok (c, answer) → Moves s a (s.withCatalog c)
  | resolved {r : Resolver} {d : Document} {uri : String} {g : DatasetGraph} :
    r.resolve s.catalog d uri = .ok g → Moves s a { s with graphs := s.graphs ++ [g] }
  | taken : Moves s a { s with snapshots := s.snapshots ++ [.ofCatalog s.catalog] }
  | reopened {t : Snapshot} {c : Catalog} :
    t ∈ s.snapshots → t.restore = .ok c → Moves s a (s.withCatalog c)

/-- The catalog has the property, and so had every catalog that a snapshot was taken of; the graphs
have theirs, so that adding one does not end it. -/
structure Keeps (Q : DatasetGraph → Prop) (P : Catalog → Prop) (s : Session) : Prop where
  holds : P s.catalog
  graphs : ∀ g ∈ s.graphs, Q g
  own : ∀ t ∈ s.snapshots, ∃ c : Catalog, P c ∧ t = .ofCatalog c

variable {s s' : Session} {a : Action} {Q : DatasetGraph → Prop} {T : Timestamp → Prop}
  {P : Catalog → Prop}

theorem moves_of_perform? (h : s.perform? a = some s') : s.Moves a s' := by
  cases a with
  | addProduct p =>
      obtain ⟨added, hadded, rfl⟩ := toOption_map_eq_some.mp h
      exact .served ⟨.addProduct p⟩ nofun rfl hadded
  | resolve r d uri =>
      obtain ⟨g, hg, rfl⟩ := toOption_map_eq_some.mp h
      exact .resolved hg
  | add graph withLineage now =>
      obtain ⟨g, hg, h⟩ := Option.bind_eq_some_iff.mp h
      obtain ⟨c, hc, rfl⟩ := toOption_map_eq_some.mp h
      refine .served ⟨.add g withLineage now⟩ ?_ rfl (map_eq_ok.mpr ⟨c, hc, rfl⟩)
      rintro _ ⟨⟩
      exact List.mem_of_getElem? hg
  | update d rules =>
      obtain ⟨c, hc, rfl⟩ := toOption_map_eq_some.mp h
      exact .served ⟨.update d rules⟩ nofun rfl (map_eq_ok.mpr ⟨c, hc, rfl⟩)
  | archive ids now =>
      obtain ⟨c, hc, rfl⟩ := toOption_map_eq_some.mp h
      exact .served ⟨.archive ids now⟩ nofun rfl (map_eq_ok.mpr ⟨c, hc, rfl⟩)
  | restore ids =>
      obtain ⟨c, hc, rfl⟩ := toOption_map_eq_some.mp h
      exact .served ⟨.restore ids⟩ nofun rfl (map_eq_ok.mpr ⟨c, hc, rfl⟩)
  | archiveLocation id uri =>
      obtain ⟨changed, hc, rfl⟩ := toOption_map_eq_some.mp h
      exact .served ⟨.archiveLocation id uri⟩ nofun rfl hc
  | removeLocation id uri =>
      obtain ⟨changed, hc, rfl⟩ := toOption_map_eq_some.mp h
      exact .served ⟨.removeLocation id uri⟩ nofun rfl hc
  | takeSnapshot =>
      cases h
      exact .taken
  | restoreSnapshot snapshot =>
      obtain ⟨t, ht, h⟩ := Option.bind_eq_some_iff.mp h
      obtain ⟨c, hc, rfl⟩ := toOption_map_eq_some.mp h
      exact .reopened (List.mem_of_getElem? ht) hc

theorem Keeps.of_moves (h : s.Keeps Q P) (hP : Catalog.Invariant Q T P)
    (hclock : ∀ t ∈ a.instant?, T t) (hmoves : s.Moves a s') : s'.Keeps Q P := by
  cases hmoves with
  | served r hgraphs hinstant hdone =>
      have hgraph : ∀ g ∈ r.write.graph?, Q g := fun g hg => h.graphs g (hgraphs g hg)
      exact ⟨hP.outcome r.write hgraph (hinstant ▸ hclock) h.holds hdone, h.graphs, h.own⟩
  | resolved hg =>
      refine ⟨h.holds, ?_, h.own⟩
      intro g' hg'
      rcases List.mem_append.mp hg' with hg' | hg'
      · exact h.graphs g' hg'
      · cases List.mem_singleton.mp hg'
        exact hP.resolved hg
  | taken =>
      refine ⟨h.holds, h.graphs, ?_⟩
      intro t ht
      rcases List.mem_append.mp ht with ht | ht
      · exact h.own t ht
      · exact ⟨s.catalog, h.holds, List.mem_singleton.mp ht⟩
  | reopened ht hc =>
      obtain ⟨taken, htaken, rfl⟩ := h.own _ ht
      exact ⟨hP.reopened htaken hc, h.graphs, h.own⟩

theorem Keeps.step (h : s.Keeps Q P) (hP : Catalog.Invariant Q T P)
    (hclock : ∀ t ∈ a.instant?, T t) : (s.step a).Keeps Q P := by
  rw [Session.step]
  cases hs : s.perform? a with
  | none => exact h
  | some s' => exact h.of_moves hP hclock (moves_of_perform? hs)

theorem keeps_start (hP : Catalog.Invariant Q T P) : start.Keeps Q P := ⟨hP.empty, nofun, nofun⟩

theorem keeps_run (hP : Catalog.Invariant Q T P) {actions : List Action}
    (hclock : ∀ a ∈ actions, ∀ t ∈ a.instant?, T t) : (run actions).Keeps Q P :=
  List.foldlRecOn actions step (keeps_start hP) fun _ hs a ha => hs.step hP (hclock a ha)

/-- An invariant that no clock ends holds of the catalog after every run. -/
theorem invariant_run (hP : Catalog.Invariant Q (fun _ => True) P) (actions : List Action) :
    P (run actions).catalog :=
  (keeps_run hP fun _ _ _ _ => trivial).holds

/-! ## Lineage -/

/-- However a catalog is used, every source that it records is recorded, and no dataset is among its
own ancestors. -/
theorem recorded_lineage_closed_and_acyclic (actions : List Action) :
    (∀ id d, (run actions).catalog.datasets.find? id = some d →
      ∀ source ∈ d.sources.values,
        ∃ e, (run actions).catalog.datasets.find? source = some e) ∧
      ∀ id, ¬ Relation.TransGen (run actions).catalog.Lists id id := by
  have hgrounded := invariant_run Catalog.invariant_grounded actions
  refine ⟨?_, hgrounded.acyclic⟩
  intro id d hd source hsource
  exact OrderedMap.contains_iff.mp (hgrounded.closed ⟨d, hd, hsource⟩)

section Layers

def layerProduct : Product := ⟨"layer", none, .empty, []⟩

def layerResolver : Resolver where
  matcher := ⟨[.ofProduct layerProduct], .sensitive, { sources := .ofKeys ["sources"] }, by simp⟩
  policy := .standard

/-- A layer above another one, whose identities repeat a digit. -/
def layers : Document := .ofFields
  [("id", .text (String.ofList (List.replicate 32 '1'))),
    ("sources", .mapping [("below", .mapping
      [("id", .text (String.ofList (List.replicate 32 '2')))])])]

/-- Adding the graph records both layers. -/
example :
    (run [.addProduct layerProduct, .resolve layerResolver layers "layers",
      .add 0 true default]).catalog.datasets.keys =
      [⟨0x11111111111111111111111111111111⟩, ⟨0x22222222222222222222222222222222⟩] := by
  rfl

end Layers

end Session

end DatasetCatalog
