import DatasetCatalog.Proofs.Catalog.Index

/-!
# What a snapshot is opened as

A snapshot is a list, and opening it checks no more than that the product of every record is there.
A product may be listed twice. So may a dataset, with other sources the second time: the last record
is the one that stays, but the index has heard of all of them. The catalog therefore has distinct
products and an exact index precisely if its snapshot is coherent.
-/

namespace DatasetCatalog

namespace Snapshot

/-- The record that stays of those for `id`, which is the last one. -/
def kept? (s : Snapshot) (id : Identity) : Option StoredDataset :=
  s.datasets.reverse.find? fun d => d.id == id

/-- No product is listed twice, and the last record for a dataset names every source that another
one for it names. -/
structure Coherent (s : Snapshot) : Prop where
  products : (s.products.map Product.name).Nodup
  sources : ∀ {id source : Identity}, Catalog.Mentions s.datasets id source →
    ∃ d, s.kept? id = some d ∧ source ∈ d.sources.values

theorem mentions_of_kept? {s : Snapshot} {id source : Identity} {d : StoredDataset}
    (h : s.kept? id = some d) (hsource : source ∈ d.sources.values) :
    Catalog.Mentions s.datasets id source := by
  rw [kept?] at h
  have hmem := List.mem_reverse.mp (List.mem_of_find?_eq_some h)
  have hid := List.find?_some h
  exact ⟨d, hmem, beq_iff_eq.mp hid, hsource⟩

end Snapshot

namespace Catalog

/-- Products have different names, and what is found derived from a dataset is what lists it. -/
structure Consistent (c : Catalog) : Prop where
  products : (c.products.map Product.name).Nodup
  derived : ∀ source, ∃ es, c.getDerived source = .ok es ∧
    c.Gathers (fun id => c.Lists id source) es

variable {c : Catalog} {s : Snapshot} {source id : Identity}

/-- Of the records for one identity the last one stays. -/
theorem find?_foldl_insert_last (records : List StoredDataset) (c : Catalog) (id : Identity) :
    (records.foldl insert c).datasets.find? id =
      (records.reverse.find? fun d => d.id == id).or (c.datasets.find? id) := by
  induction records generalizing c with
  | nil => rfl
  | cons d records ih =>
      -- On both sides what comes after `d` decides first, and then `d` before what was there.
      rw [List.foldl_cons, ih, List.reverse_cons, List.find?_append, Option.or_assoc]
      apply congrArg
      by_cases hsame : d.id = id
      · subst hsame
        simp [insert]
      · simp [insert, hsame, OrderedMap.find?_insert_of_ne _ _ (Ne.symm hsame)]

theorem products_of_restore (h : s.restore = .ok c) : c.products = s.products := by
  rw [restore_eq_ok h, products_foldl_insert]

theorem find?_of_restore (h : s.restore = .ok c) (id : Identity) :
    c.datasets.find? id = s.kept? id := by
  rw [restore_eq_ok h, find?_foldl_insert_last]
  exact Option.or_none

theorem indexes_of_restore (h : s.restore = .ok c) :
    Indexes c.derived source id ↔ Mentions s.datasets id source := by
  rw [restore_eq_ok h, indexes_foldl_insert, or_iff_left]
  exact not_indexes_empty

theorem contains_of_mentions (h : s.restore = .ok c) (hmentions : Mentions s.datasets id source) :
    c.datasets.contains id = true := by
  obtain ⟨d, hd, hid, -⟩ := hmentions
  apply OrderedMap.contains_iff.mpr
  rw [restore_eq_ok h]
  rcases find?_foldl_insert s.datasets { empty with products := s.products } id with
    ⟨e, -, -, hfind⟩ | ⟨hnone, -⟩
  · exact ⟨e, hfind⟩
  · exact (hnone d hd hid).elim

/-- Whatever a snapshot mentions is found derived, also what a later record takes back. -/
theorem gathers_of_restore (h : s.restore = .ok c) (source : Identity) :
    ∃ es, c.getDerived source = .ok es ∧
      c.Gathers (fun id => Mentions s.datasets id source) es := by
  apply (registered_of_restore h).readable.gathers
  · exact fun id => indexes_of_restore h
  · exact fun id => contains_of_mentions h

theorem consistent_iff_coherent (h : s.restore = .ok c) : c.Consistent ↔ s.Coherent := by
  have hkept : ∀ {id source : Identity}, c.Lists id source ↔
      ∃ d, s.kept? id = some d ∧ source ∈ d.sources.values := by
    intro id source
    rw [Lists, find?_of_restore h]
  constructor
  · intro hconsistent
    refine ⟨products_of_restore h ▸ hconsistent.products, ?_⟩
    intro id source hmentions
    -- What is mentioned is found, and so it is listed.
    obtain ⟨es, hes, hlisted⟩ := hconsistent.derived source
    obtain ⟨es', hes', hmentioned⟩ := gathers_of_restore h source
    cases hes.symm.trans hes'
    exact hkept.mp (hlisted.ids.mp (hmentioned.ids.mpr hmentions))
  · intro hcoherent
    refine ⟨products_of_restore h ▸ hcoherent.products, ?_⟩
    intro source
    apply (registered_of_restore h).readable.gathers
    · intro id
      rw [indexes_of_restore h, hkept]
      refine ⟨hcoherent.sources, ?_⟩
      rintro ⟨d, hd, hsource⟩
      exact Snapshot.mentions_of_kept? hd hsource
    · exact fun id => contains_of_lists

/-- A text that is opened gives the products as they are listed, for every dataset its last record,
and as derived from a dataset whatever any of the records says. Its products are distinct and what
is found derived is what lists the source if and only if the snapshot is coherent. -/
theorem opened_consistent_iff_coherent {text : String} (hopened : ofSnapshot? text = .ok c) :
    ∃ s, (Json.Tree.read? text).bind Snapshot.read? = some s ∧
      c.products = s.products ∧ (∀ id, c.datasets.find? id = s.kept? id) ∧
      (∀ source, ∃ es, c.getDerived source = .ok es ∧
        c.Gathers (fun id => Mentions s.datasets id source) es) ∧
      (c.Consistent ↔ s.Coherent) := by
  obtain ⟨s, hread, -, hs⟩ := ofSnapshot?_eq_ok hopened
  exact ⟨s, hread, products_of_restore hs, find?_of_restore hs, gathers_of_restore hs,
    consistent_iff_coherent hs⟩

section Repetition

def sceneRecord (sources : List (String × Identity)) : StoredDataset :=
  { id := ⟨7⟩, product := "scene", metadata := scene "green", locations := []
    archivedLocations := [], sources := .ofList sources, archived := none, indexed := none }

/-- A snapshot with these products that lists the scene with these sources, one after the other. -/
def sceneSnapshot (products : List Product) (sources : List (List (String × Identity))) :
    Snapshot :=
  ⟨Snapshot.currentVersion, products, sources.map sceneRecord⟩

theorem read?_sceneSnapshot {products : List Product} {sources : List (List (String × Identity))}
    (hproducts : ∀ p ∈ products, p = sceneProduct) :
    (Json.Tree.read? (sceneSnapshot products sources).text).bind Snapshot.read? =
      some (sceneSnapshot products sources) := by
  apply Snapshot.read?_text_of_legible rfl
  · intro d hd
    obtain ⟨_, -, rfl⟩ := List.mem_map.mp hd
    exact ⟨nofun, nofun⟩
  · intro p hp
    rw [hproducts p hp]
    exact legible_sceneCatalog _ (.product List.mem_cons_self)
  · intro d hd
    obtain ⟨_, -, rfl⟩ := List.mem_map.mp hd
    have hscene : sceneCatalog.datasets.find? ⟨7⟩ = some _ := rfl
    have hlegible := legible_sceneCatalog _ (.dataset hscene)
    exact hlegible

/-- The second record of the scene only adds a source. -/
def extendedSnapshot : Snapshot := sceneSnapshot [sceneProduct] [[], [("base", ⟨8⟩)]]

theorem extendedSnapshot_opened_consistent : ∃ c,
    ofSnapshot? extendedSnapshot.text = .ok c ∧ c.Lists ⟨7⟩ ⟨8⟩ ∧ c.Consistent := by
  have hread : (Json.Tree.read? extendedSnapshot.text).bind Snapshot.read? =
      some extendedSnapshot := read?_sceneSnapshot (by simp)
  have hopened := ofSnapshot?_of_read hread rfl
  have hrestored : extendedSnapshot.restore = .ok _ := rfl
  obtain ⟨s, hs, -, -, -, hiff⟩ := opened_consistent_iff_coherent (hopened.trans hrestored)
  cases hs.symm.trans hread
  have hcoherent : extendedSnapshot.Coherent := by
    refine ⟨by decide, ?_⟩
    rintro _ source ⟨d, hd, rfl, hsource⟩
    obtain ⟨sources, hsources, rfl⟩ := List.mem_map.mp hd
    rcases List.mem_pair.mp hsources with rfl | rfl
    · cases hsource
    · exact ⟨_, rfl, hsource⟩
  refine ⟨_, hopened.trans hrestored, ?_, hiff.mpr hcoherent⟩
  exact ⟨_, rfl, by decide⟩

/-- The product is listed twice, and the second record of the scene takes its source back. -/
def repeatedSnapshot : Snapshot :=
  sceneSnapshot [sceneProduct, sceneProduct] [[("base", ⟨8⟩)], []]

theorem repeatedSnapshot_opened_inconsistent : ∃ c es,
    ofSnapshot? repeatedSnapshot.text = .ok c ∧ ¬ (c.products.map Product.name).Nodup ∧
      c.getDerived ⟨8⟩ = .ok es ∧ es.map Entry.id = [⟨7⟩] ∧ ¬ c.Lists ⟨7⟩ ⟨8⟩ := by
  have hread : (Json.Tree.read? repeatedSnapshot.text).bind Snapshot.read? =
      some repeatedSnapshot := read?_sceneSnapshot (by simp)
  have hopened := ofSnapshot?_of_read hread rfl
  refine ⟨_, _, hopened.trans rfl, by decide, rfl, rfl, ?_⟩
  rintro ⟨_, ⟨⟩, hsource⟩
  cases hsource

end Repetition

end Catalog

end DatasetCatalog
