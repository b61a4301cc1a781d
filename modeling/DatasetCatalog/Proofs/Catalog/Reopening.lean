import DatasetCatalog.Proofs.Catalog.Session
import DatasetCatalog.Proofs.Catalog.Snapshot

/-!
# Opening a catalog again

Whatever a session does, each of its records has a registered product and times of the calendar, if
the clock shows nothing else. What a snapshot of its catalog gives back is therefore decided by the
metadata alone. A document that nests 125 levels is read from a text of its own and recorded, but
inside a snapshot it is three levels too deep, and the whole snapshot cannot be opened.
-/

namespace DatasetCatalog

namespace Catalog

variable {c c' : Catalog}

theorem Admits.of_products {d : StoredDataset} (h : c.Admits d)
    (hproducts : c'.products = c.products) : c'.Admits d := by
  obtain ⟨p, hp⟩ := h.registered
  exact { h with registered := ⟨p, by rwa [product?, hproducts]⟩ }

theorem restorable_empty : empty.Restorable := fun _ _ h => nomatch h

/-- A change to one record keeps the catalog restorable if it leaves the product and sets times of
the calendar. -/
theorem Restorable.adjust (h : c.Restorable) (id : Identity) {f : StoredDataset → StoredDataset}
    {hf : ∀ d, (f d).id = d.id} (hadmits : ∀ d, c.Admits d → c.Admits (f d)) :
    (c.adjust id f hf).Restorable := by
  intro other after hafter
  obtain ⟨before, hbefore, ⟨-, rfl⟩ | ⟨-, rfl⟩⟩ := find?_of_adjust hafter
  · exact (hadmits before (h other before hbefore)).of_products rfl
  · exact (h other after hbefore).of_products rfl

theorem Restorable.adjustAll (h : c.Restorable) {ids : List Identity}
    {f : StoredDataset → StoredDataset} {hf : ∀ d, (f d).id = d.id}
    (hc : c.adjustAll ids f hf = .ok c')
    (hadmits : ∀ (c : Catalog) d, c.Admits d → c.Admits (f d)) : c'.Restorable := by
  obtain ⟨-, rfl⟩ := adjustAll_eq_ok hc
  clear hc
  induction ids generalizing c with
  | nil => exact h
  | cons id ids ih => exact ih (h.adjust id (hadmits c))

theorem Restorable.addProduct (h : c.Restorable) {p p' : Product} {events : List Event}
    (hc : c.addProduct p = .ok (c', p', events)) : c'.Restorable := by
  rcases addProduct_eq_ok hc with rfl | ⟨-, rfl⟩
  · exact h
  · intro id d hd
    have hadmits := h id d hd
    obtain ⟨q, hq⟩ := hadmits.registered
    refine { hadmits with registered := ⟨q, ?_⟩ }
    rw [product?] at hq ⊢
    rw [List.find?_append, hq]
    rfl

theorem Restorable.add (h : c.Restorable) {g : DatasetGraph} {withLineage : Bool}
    {now : Timestamp} (hnow : now.Valid) (hc : c.add g withLineage now = .ok c') :
    c'.Restorable := by
  obtain ⟨root, records, -, -, hpending, rfl⟩ := add_eq_ok hc
  intro id d hd
  rcases find?_foldl_insert (records.filterMap fun r => r) c id with
    ⟨e, he, -, hfind⟩ | ⟨-, hfind⟩
  · cases hd.symm.trans hfind
    obtain ⟨r, hr, hrd⟩ := List.mem_filterMap.mp he
    obtain ⟨n, -, hn⟩ := exists_of_mem_right hpending hr
    cases hrd
    obtain ⟨id', -, ⟨hnone, -⟩ | ⟨hrecord, -⟩⟩ := pending_eq_ok hn
    · cases hnone
    · have hadmits : c.Admits d := by
        refine ⟨product?_of_pending hn, ?_, ?_⟩ <;> cases hrecord
        · intro t ht
          exact (Option.not_mem_none t ht).elim
        · rintro t ⟨⟩
          exact hnow
      exact hadmits.of_products (products_foldl_insert _ _)
  · exact (h id d (hfind.symm.trans hd)).of_products (products_foldl_insert _ _)

theorem Restorable.update (h : c.Restorable) {d : Dataset} {rules : ChangeRules}
    (hc : c.update d rules = .ok c') : c'.Restorable := by
  obtain ⟨id, before, -, -, -, -, rfl⟩ := update_eq_ok hc
  refine h.adjust id fun stored hstored => ⟨?_, ?_, ?_⟩
  · rw [Dataset.product_revise]
    exact hstored.registered
  · rw [Dataset.archived_revise]
    exact hstored.archived
  · rw [Dataset.indexed_revise]
    exact hstored.indexed

theorem Restorable.archive (h : c.Restorable) {ids : List Identity} {now : Timestamp}
    (hnow : now.Valid) (hc : c.archive ids now = .ok c') : c'.Restorable := by
  rw [Catalog.archive] at hc
  refine h.adjustAll hc fun _ d hd => ⟨hd.registered, ?_, hd.indexed⟩
  rintro t ⟨⟩
  cases harchived : d.archived with
  | none => exact hnow
  | some first => exact hd.archived first harchived

theorem Restorable.restore (h : c.Restorable) {ids : List Identity}
    (hc : c.restore ids = .ok c') : c'.Restorable := by
  rw [Catalog.restore] at hc
  refine h.adjustAll hc fun _ d hd => ⟨hd.registered, ?_, hd.indexed⟩
  intro t ht
  exact (Option.not_mem_none t ht).elim

theorem Restorable.archiveLocation (h : c.Restorable) {id : Identity} {uri : String}
    {changed : Bool} (hc : c.archiveLocation id uri = .ok (c', changed)) : c'.Restorable := by
  obtain ⟨before, -, -, rfl⟩ := archiveLocation_eq_ok hc
  exact h.adjust id fun _ hd => ⟨hd.registered, hd.archived, hd.indexed⟩

theorem Restorable.removeLocation (h : c.Restorable) {id : Identity} {uri : String}
    {changed : Bool} (hc : c.removeLocation id uri = .ok (c', changed)) : c'.Restorable := by
  obtain ⟨before, -, -, rfl⟩ := removeLocation_eq_ok hc
  exact h.adjust id fun _ hd => ⟨hd.registered, hd.archived, hd.indexed⟩

theorem Restorable.of_snapshot (h : c.Restorable)
    (hc : (Snapshot.ofCatalog c).restore = .ok c') : c'.Restorable := by
  obtain ⟨opened, hopened, hproducts, hdatasets⟩ := restore_ofCatalog h
  cases hopened.symm.trans hc
  intro id d hd
  rw [hdatasets] at hd
  exact (h id d hd).of_products hproducts

theorem invariant_restorable : Invariant (fun _ => True) Timestamp.Valid Restorable where
  empty := restorable_empty
  resolved _ := trivial
  outcome w _ hclock h hdone := by
    cases w with
    | addProduct p => exact h.addProduct hdone
    | add g withLineage now =>
        obtain ⟨_, hadd, ⟨⟩⟩ := map_eq_ok.mp hdone
        exact h.add (hclock now rfl) hadd
    | update d rules =>
        obtain ⟨_, hupdate, ⟨⟩⟩ := map_eq_ok.mp hdone
        exact h.update hupdate
    | archive ids now =>
        obtain ⟨_, harchive, ⟨⟩⟩ := map_eq_ok.mp hdone
        exact h.archive (hclock now rfl) harchive
    | restore ids =>
        obtain ⟨_, hrestore, ⟨⟩⟩ := map_eq_ok.mp hdone
        exact h.restore hrestore
    | archiveLocation id uri => exact h.archiveLocation hdone
    | removeLocation id uri => exact h.removeLocation hdone
  reopened := Restorable.of_snapshot

end Catalog

/-- The clock shows an instant of the calendar whenever the action reads it. -/
def Action.Timed : Action → Prop
  | .add _ _ now | .archive _ now => now.Valid
  | _ => True

theorem Action.Timed.valid {a : Action} (h : a.Timed) : ∀ t ∈ a.instant?, t.Valid := by
  cases a with
  | add _ _ now | archive _ now =>
      rintro t ⟨⟩
      exact h
  | _ => exact nofun

namespace Session

theorem restorable_run {actions : List Action} (htimed : ∀ a ∈ actions, a.Timed) :
    (run actions).catalog.Restorable :=
  (keeps_run Catalog.invariant_restorable fun a ha => (htimed a ha).valid).holds

/-- The text of a session's catalog is opened as the same products and the same datasets exactly if
all its metadata are legible inside a snapshot, and metadata that nest too deep for that keep the
whole catalog from being opened. -/
theorem opens_again_iff_legible (actions : List Action) (htimed : ∀ a ∈ actions, a.Timed) :
    ((∃ c, Catalog.ofSnapshot? (run actions).catalog.snapshot = .ok c ∧
        c.products = (run actions).catalog.products ∧
        c.datasets = (run actions).catalog.datasets) ↔ (run actions).catalog.Legible) ∧
      ∀ m, (run actions).catalog.Holds m → Snapshot.levels < m.value.depth →
        Catalog.ofSnapshot? (run actions).catalog.snapshot =
          .error (.malformed (Snapshot.shape.fault? (run actions).catalog.snapshot)) := by
  have hrestorable := restorable_run htimed
  refine ⟨⟨?_, fun hlegible => Catalog.ofSnapshot?_of_legible hrestorable hlegible⟩, ?_⟩
  · rintro ⟨c, hopened, hproducts, hdatasets⟩
    exact Catalog.legible_of_ofSnapshot? hrestorable hopened hproducts hdatasets
  · exact fun m hm hdeep => Catalog.ofSnapshot?_of_deep hrestorable hm hdeep

section Nesting

/-- Lists inside each other. -/
def nested : Nat → Value
  | 0 => .null
  | n + 1 => .sequence [nested n]

def nestedProduct : Product := ⟨"nested", none, .empty, []⟩

def nestedResolver : Resolver where
  matcher := ⟨[.ofProduct nestedProduct], .sensitive, {}, by simp⟩
  policy := .standard

def nestedScene (lists : Nat) : Document := .ofFields
  [("id", .text (String.ofList (List.replicate 32 '1'))), ("lists", nested lists)]

def nestedId : Identity := ⟨0x11111111111111111111111111111111⟩

/-- A scene that nests one level more than its lists is recorded. -/
def nestedActions (lists : Nat) : List Action :=
  [.addProduct nestedProduct, .resolve nestedResolver (nestedScene lists) "nested",
    .add 0 true default]

theorem timed_nestedActions (lists : Nat) : ∀ a ∈ nestedActions lists, a.Timed := by
  have hclock : Timestamp.Valid default :=
    ⟨by decide, by decide, by decide, by decide, fun h => absurd h (by decide)⟩
  intro a ha
  simp only [nestedActions, List.mem_cons, List.not_mem_nil, or_false] at ha
  rcases ha with rfl | rfl | rfl
  · trivial
  · trivial
  · exact hclock

/-- At 124 levels the catalog is opened again. -/
theorem nested_opens_again : ∃ c,
    Catalog.ofSnapshot? (run (nestedActions 123)).catalog.snapshot = .ok c ∧
      c.products.map Product.name = ["nested"] ∧ c.datasets.keys = [nestedId] := by
  have hnames : (run (nestedActions 123)).catalog.products.map Product.name = ["nested"] := by
    decide +kernel
  have hkeys : (run (nestedActions 123)).catalog.datasets.keys = [nestedId] := by decide +kernel
  have hproducts : ∀ p ∈ (run (nestedActions 123)).catalog.products,
      p.metadata.value.depth ≤ Snapshot.levels ∧ p.metadata.value.isIntegral = true := by
    decide +kernel
  have hdatasets : ∀ d ∈ (run (nestedActions 123)).catalog.datasets.values,
      d.metadata.value.depth ≤ Snapshot.levels ∧ d.metadata.value.isIntegral = true := by
    decide +kernel
  have hlegible : (run (nestedActions 123)).catalog.Legible := by
    rintro _ (@⟨p, hp⟩ | @⟨id, d, hd⟩)
    · exact ⟨(hproducts p hp).1, Value.readsBack_of_isIntegral _ (hproducts p hp).2⟩
    · have hd' := hdatasets d (OrderedMap.mem_values_iff.mpr ⟨id, hd⟩)
      exact ⟨hd'.1, Value.readsBack_of_isIntegral _ hd'.2⟩
  obtain ⟨c, hopened, hsameProducts, hsameDatasets⟩ :=
    (opens_again_iff_legible (nestedActions 123) (timed_nestedActions 123)).1.mpr hlegible
  refine ⟨c, hopened, ?_, ?_⟩
  · rw [hsameProducts, hnames]
  · rw [hsameDatasets, hkeys]

/-- At 125 levels a text is read that keeps the catalog from being opened. -/
theorem deeper_not_opened_again :
    Json.read? (Json.indented (nestedScene 124).value) = some (nestedScene 124).value ∧
      (run (nestedActions 124)).catalog.datasets.keys = [nestedId] ∧
      Catalog.ofSnapshot? (run (nestedActions 124)).catalog.snapshot =
        .error (.malformed (Snapshot.shape.fault? (run (nestedActions 124)).catalog.snapshot)) := by
  have hdepth : (nestedScene 124).value.depth ≤ Json.nestingLimit := by decide +kernel
  have hback : (nestedScene 124).value.ReadsBack :=
    Value.readsBack_of_isIntegral _ (by decide +kernel)
  have hkeys : (run (nestedActions 124)).catalog.datasets.keys = [nestedId] := by decide +kernel
  have hdeep : ∀ d ∈ (run (nestedActions 124)).catalog.datasets.values,
      Snapshot.levels < d.metadata.value.depth := by decide +kernel
  refine ⟨Json.read?_indented hdepth hback (nestedScene 124).wellFormed, hkeys, ?_⟩
  obtain ⟨d, hd⟩ := OrderedMap.mem_keys_iff.mp (hkeys ▸ List.mem_singleton_self nestedId)
  exact Catalog.ofSnapshot?_of_deep (restorable_run (timed_nestedActions 124))
    (.dataset hd) (hdeep d (OrderedMap.mem_values_iff.mpr ⟨nestedId, hd⟩))

end Nesting

end Session

end DatasetCatalog
