import DatasetCatalog.Proofs.Catalog.Operation
import DatasetCatalog.Proofs.Identity
import DatasetCatalog.Proofs.OrderedMap
import DatasetCatalog.Proofs.Product.Record
import DatasetCatalog.Proofs.Time.Text

/-!
# Snapshots read back

A snapshot text is read back field by field. What comes of it depends on the metadata alone: the
catalog is opened as it was exactly if every product's and every dataset's metadata are legible
within the levels that a snapshot leaves them, and metadata that nest deeper spoil the whole
snapshot. For this the records have to be such as a catalog makes them (`Catalog.Restorable`): their
products are registered and their times are instants of the calendar.
-/

namespace DatasetCatalog

open Json.Tree (ofValue)

namespace StoredDataset

theorem find?_optionalField (name : String) (v : Option Value) (k : String) :
    (optionalField name v).find? k = if name = k then v else none := by
  cases v with
  | none => simp [optionalField]
  | some v => exact Fields.find?_cons name v [] k

theorem keys_optionalField (name : String) (v : Option Value) :
    (optionalField name v).keys.Sublist [name] := by
  cases v with
  | none => exact List.nil_sublist _
  | some v => exact List.Sublist.refl _

/-- The names of a record's fields. -/
def fieldNames : List String := ["id", "product", "metadata", "locations", "archived_locations",
  "sources", "archived_time", "indexed_time"]

theorem record?_record (d : StoredDataset) :
    (ofValue d.record).record? fieldNames =
      some [some (ofValue (.text d.id.text)), some (ofValue (.text d.product)),
        some (ofValue d.metadata.value), some (ofValue (textList d.locations)),
        (if d.archivedLocations.isEmpty then none
          else some (textList d.archivedLocations)).map ofValue,
        (if d.sources.isEmpty then none else some (sourcesValue d.sources)).map ofValue,
        (d.archived.map fun t => .text t.text).map ofValue,
        (d.indexed.map fun t => .text t.text).map ofValue] := by
  rw [record, Json.Tree.record?_mapping]
  · simp [fieldNames, Fields.find?_append, timeField, find?_optionalField, Fields.find?_cons]
  · -- Every field has its own name, whether it is there or not.
    have hnames : (["id", "product", "metadata", "locations"] ++ ["archived_locations"] ++
        ["sources"] ++ ["archived_time"] ++ ["indexed_time"]).Nodup := by decide
    refine hnames.sublist ?_
    rw [Fields.keys, List.map_append, List.map_append, List.map_append, List.map_append]
    exact ((((List.Sublist.refl _).append (keys_optionalField _ _)).append
      (keys_optionalField _ _)).append (keys_optionalField _ _)).append (keys_optionalField _ _)

theorem orElse?_texts (texts : List String) :
    Json.Tree.orElse? [] (Json.Tree.list? Json.Tree.text?)
        ((if texts.isEmpty then none else some (textList texts)).map ofValue) = some texts := by
  cases texts with
  | nil => rfl
  | cons s rest => exact Product.list?_text (s :: rest)

theorem identity?_text (id : Identity) : identity? (ofValue (.text id.text)) = some id := by
  rw [ofValue, identity?, Json.Tree.text?, Option.bind_some, Identity.parse?_text]

theorem time?_text {t : Timestamp} (h : t.Valid) : time? (ofValue (.text t.text)) = some t := by
  rw [ofValue, time?, Json.Tree.text?, Option.bind_some, Timestamp.parse?_text h]

theorem orElse?_sources (sources : OrderedMap String Identity) :
    Json.Tree.orElse? [] (Json.Tree.entries? identity?)
        ((if sources.isEmpty then none else some (sourcesValue sources)).map ofValue) =
      some sources.entries := by
  cases hempty : sources.isEmpty with
  | true =>
      rw [List.isEmpty_iff.mp hempty]
      rfl
  | false =>
      have hentry : ∀ s ∈ sources.entries, (identity? (ofValue (.text s.2.text))).map
          (fun a => (s.1, a)) = some s := by
        intro s _
        rw [identity?_text]
        rfl
      have hentries : Json.Tree.entries? identity? (ofValue (sourcesValue sources)) =
          some sources.entries := by
        rw [sourcesValue, Json.Tree.entries?_mapping, mapM_eq_map hentry, List.map_id']
      exact hentries

theorem orElse?_text {α : Type} (read : Json.Tree → Option α) (s : String) :
    Json.Tree.orElse? none (Json.Tree.optional? read) (some (ofValue (.text s))) =
      (read (ofValue (.text s))).map some := rfl

theorem orElse?_time {t : Option Timestamp} (h : ∀ x ∈ t, x.Valid) :
    Json.Tree.orElse? none (Json.Tree.optional? time?)
        ((t.map fun t => .text t.text).map ofValue) = some t := by
  cases t with
  | none => rfl
  | some t =>
      rw [Option.map_some, Option.map_some, orElse?_text, time?_text (h t rfl), Option.map_some]

/-- The dataset with its metadata as a reader of that many levels makes them. -/
def reread? (levels : Nat) (d : StoredDataset) : Option StoredDataset :=
  (d.metadata.reread? levels).map fun metadata => { d with metadata }

/-- A dataset whose times are instants of the calendar is read back from its record, but for its
metadata as it was. -/
theorem read?_record (levels : Nat) {d : StoredDataset} (harchived : ∀ t ∈ d.archived, t.Valid)
    (hindexed : ∀ t ∈ d.indexed, t.Valid) :
    read? levels (ofValue d.record) = d.reread? levels := by
  have hrecord := record?_record d
  rw [fieldNames] at hrecord
  rw [read?, hrecord]
  dsimp only
  rw [orElse?_texts, orElse?_sources, orElse?_time harchived, orElse?_time hindexed]
  have hproduct : (ofValue (.text d.product)).text? = some d.product := rfl
  have hlocations : Json.Tree.list? Json.Tree.text? (ofValue (textList d.locations)) =
      some d.locations := Product.list?_text d.locations
  simp only [Json.Tree.required?, Json.Tree.orElse?, Option.bind_eq_bind, Option.bind_some,
    identity?_text, hproduct, hlocations, OrderedMap.ofList_entries]
  rw [reread?, Document.reread?]
  cases (ofValue d.metadata.value).document? levels <;> rfl

theorem reread?_eq_some_iff {levels : Nat} {d : StoredDataset} :
    d.reread? levels = some d ↔ d.metadata.Legible levels := by
  rw [← Document.reread?_eq_some_iff, reread?, Option.map_eq_some_iff]
  constructor
  · rintro ⟨metadata, hmetadata, hd⟩
    rw [hmetadata, ← hd]
  · exact fun h => ⟨d.metadata, h, rfl⟩

theorem id_of_reread? {levels : Nat} {d e : StoredDataset} (h : d.reread? levels = some e) :
    e.id = d.id := by
  obtain ⟨metadata, -, rfl⟩ := Option.map_eq_some_iff.mp h
  rfl

end StoredDataset

namespace Snapshot

theorem record?_record (s : Snapshot) :
    (ofValue s.record).record? ["version", "products", "datasets"] =
      some [some (ofValue (((Number.ofInt? s.version).map .number).getD .null)),
        some (ofValue (.sequence (s.products.map Product.record))),
        some (ofValue (.sequence (s.datasets.map StoredDataset.record)))] := by
  rw [record, Json.Tree.record?_mapping (by simp [Fields.keys])]
  simp [Fields.find?_cons]

theorem natural?_currentVersion :
    (ofValue (((Number.ofInt? currentVersion).map .number).getD .null)).natural? (Nat.pow 2 32) =
      some currentVersion := by
  have hversion : Number.leastSigned ≤ (currentVersion : Int) ∧
      (currentVersion : Int) < Number.unsignedBound := by decide
  rw [Number.ofInt?, dif_pos hversion, Option.map_some, Option.getD_some, ofValue,
    Number.readsBack_integer hversion]
  rfl

/-- The text that a snapshot is kept as. -/
def text (s : Snapshot) : String := Json.indented s.record

/-- The products and the datasets of a snapshot text are read one by one. -/
theorem read?_text {s : Snapshot} (hversion : s.version = currentVersion)
    (htimes : ∀ d ∈ s.datasets, (∀ t ∈ d.archived, t.Valid) ∧ ∀ t ∈ d.indexed, t.Valid) :
    (Json.Tree.read? s.text).bind read? =
      (s.products.mapM (Product.reread? levels)).bind fun products =>
        (s.datasets.mapM (StoredDataset.reread? levels)).bind fun datasets =>
          some ⟨currentVersion, products, datasets⟩ := by
  have hproducts : Json.Tree.list? (Product.read? levels)
      (ofValue (.sequence (s.products.map Product.record))) =
        s.products.mapM (Product.reread? levels) := by
    rw [Json.Tree.list?_sequence]
    exact mapM_congr fun p _ => Product.read?_record _ p
  have hdatasets : Json.Tree.list? (StoredDataset.read? levels)
      (ofValue (.sequence (s.datasets.map StoredDataset.record))) =
        s.datasets.mapM (StoredDataset.reread? levels) := by
    rw [Json.Tree.list?_sequence]
    exact mapM_congr fun d hd => StoredDataset.read?_record _ (htimes d hd).1 (htimes d hd).2
  rw [text, Json.Tree.read?_indented, Option.bind_some, read?, record?_record]
  dsimp only
  simp only [Json.Tree.required?, Option.bind_eq_bind, Option.bind_some, hversion,
    natural?_currentVersion, hproducts, hdatasets]

/-- A snapshot whose metadata are legible is read back as it is. -/
theorem read?_text_of_legible {s : Snapshot} (hversion : s.version = currentVersion)
    (htimes : ∀ d ∈ s.datasets, (∀ t ∈ d.archived, t.Valid) ∧ ∀ t ∈ d.indexed, t.Valid)
    (hproducts : ∀ p ∈ s.products, p.metadata.Legible levels)
    (hdatasets : ∀ d ∈ s.datasets, d.metadata.Legible levels) :
    (Json.Tree.read? s.text).bind read? = some s := by
  have hreadProducts : s.products.mapM (Product.reread? levels) = some s.products :=
    (mapM_eq_map fun p hp => Product.reread?_eq_some_iff.mpr (hproducts p hp)).trans
      (congrArg some (List.map_id _))
  have hreadDatasets : s.datasets.mapM (StoredDataset.reread? levels) = some s.datasets :=
    (mapM_eq_map fun d hd => StoredDataset.reread?_eq_some_iff.mpr (hdatasets d hd)).trans
      (congrArg some (List.map_id _))
  rw [read?_text hversion htimes, hreadProducts, hreadDatasets, ← hversion]
  rfl

end Snapshot

namespace Catalog

/-- The product of the record is registered, and its times are instants of the calendar. -/
structure Admits (c : Catalog) (d : StoredDataset) : Prop where
  registered : ∃ p, c.product? d.product = some p
  archived : ∀ t ∈ d.archived, t.Valid
  indexed : ∀ t ∈ d.indexed, t.Valid

/-- A catalog whose records can all be recorded again. -/
def Restorable (c : Catalog) : Prop := ∀ id d, c.datasets.find? id = some d → c.Admits d

/-- The metadata of a product or of a dataset. -/
inductive Holds (c : Catalog) : Document → Prop
  | product {p : Product} : p ∈ c.products → Holds c p.metadata
  | dataset {id : Identity} {d : StoredDataset} :
    c.datasets.find? id = some d → Holds c d.metadata

/-- All metadata can be read back from within a snapshot. -/
def Legible (c : Catalog) : Prop := ∀ m, c.Holds m → m.Legible Snapshot.levels

variable {c c' : Catalog}

theorem Restorable.of_mem_values (h : c.Restorable) {d : StoredDataset}
    (hd : d ∈ c.datasets.values) : c.Admits d := by
  obtain ⟨id, hid⟩ := OrderedMap.mem_values_iff.mp hd
  exact h id d hid

theorem Restorable.times (h : c.Restorable) {d : StoredDataset} (hd : d ∈ c.datasets.values) :
    (∀ t ∈ d.archived, t.Valid) ∧ ∀ t ∈ d.indexed, t.Valid :=
  ⟨(h.of_mem_values hd).archived, (h.of_mem_values hd).indexed⟩

theorem read?_snapshot (h : c.Restorable) :
    (Json.Tree.read? c.snapshot).bind Snapshot.read? =
      (c.products.mapM (Product.reread? Snapshot.levels)).bind fun products =>
        (c.datasets.values.mapM (StoredDataset.reread? Snapshot.levels)).bind fun datasets =>
          some ⟨Snapshot.currentVersion, products, datasets⟩ :=
  Snapshot.read?_text rfl fun _ hd => h.times hd

/-- Datasets of registered products are recorded one after the other. -/
theorem restore_of_registered {s : Snapshot}
    (h : ∀ d ∈ s.datasets, ∃ p,
      ({ empty with products := s.products } : Catalog).product? d.product = some p) :
    s.restore = .ok (s.datasets.foldl insert { empty with products := s.products }) :=
  restore_eq_ok_iff.mpr ⟨h, rfl⟩

/-- A snapshot of a catalog gives its products and its datasets back if all products are there. -/
theorem restore_ofCatalog_of_registered
    (h : ∀ id d, c.datasets.find? id = some d → ∃ p, c.product? d.product = some p) :
    ∃ c', (Snapshot.ofCatalog c).restore = .ok c' ∧ c'.products = c.products ∧
      c'.datasets = c.datasets := by
  have hregistered : ∀ d ∈ c.datasets.values, ∃ p, c.product? d.product = some p := by
    intro d hd
    obtain ⟨id, hid⟩ := OrderedMap.mem_values_iff.mp hd
    exact h id d hid
  refine ⟨_, restore_of_registered hregistered, products_foldl_insert _ _, ?_⟩
  have hentries : c.datasets.values.map (fun d => (d.id, d)) = c.datasets.entries := by
    rw [OrderedMap.values, List.map_map]
    refine (List.map_congr_left fun e he => ?_).trans (List.map_id _)
    exact Prod.ext (c.keyed e.1 e.2 (OrderedMap.find?_eq_some_iff.mpr he)) rfl
  rw [datasets_foldl_insert, Snapshot.ofCatalog, hentries]
  exact OrderedMap.ofList_entries c.datasets

theorem restore_ofCatalog (h : c.Restorable) :
    ∃ c', (Snapshot.ofCatalog c).restore = .ok c' ∧ c'.products = c.products ∧
      c'.datasets = c.datasets :=
  restore_ofCatalog_of_registered fun id d hd => (h id d hd).registered

/-- A text that is read as a snapshot of the current version is opened by restoring it. -/
theorem ofSnapshot?_of_read {text : String} {s : Snapshot}
    (hread : (Json.Tree.read? text).bind Snapshot.read? = some s)
    (hversion : s.version = Snapshot.currentVersion) : ofSnapshot? text = s.restore := by
  rw [ofSnapshot?, hread]
  exact if_neg fun hne => hne hversion

/-- A legible catalog is opened again with its products and its datasets. -/
theorem ofSnapshot?_of_legible (h : c.Restorable) (hlegible : c.Legible) :
    ∃ c', ofSnapshot? c.snapshot = .ok c' ∧ c'.products = c.products ∧
      c'.datasets = c.datasets := by
  have hread : (Json.Tree.read? c.snapshot).bind Snapshot.read? = some (.ofCatalog c) := by
    apply Snapshot.read?_text_of_legible rfl
    · exact fun _ hd => h.times hd
    · exact fun p hp => hlegible _ (.product hp)
    · intro d hd
      obtain ⟨id, hid⟩ := OrderedMap.mem_values_iff.mp hd
      exact hlegible _ (.dataset hid)
  rw [ofSnapshot?_of_read hread rfl]
  exact restore_ofCatalog h

/-- Only a legible catalog is. -/
theorem legible_of_ofSnapshot? (h : c.Restorable) (hopened : ofSnapshot? c.snapshot = .ok c')
    (hproducts : c'.products = c.products) (hdatasets : c'.datasets = c.datasets) : c.Legible := by
  rw [ofSnapshot?, read?_snapshot h] at hopened
  cases hreadProducts : c.products.mapM (Product.reread? Snapshot.levels) with
  | none =>
      rw [hreadProducts] at hopened
      cases hopened
  | some products =>
  cases hreadDatasets : c.datasets.values.mapM (StoredDataset.reread? Snapshot.levels) with
  | none =>
      rw [hreadProducts, hreadDatasets] at hopened
      cases hopened
  | some datasets =>
  rw [hreadProducts, hreadDatasets] at hopened
  have hc' := restore_eq_ok ((if_neg fun hne => hne rfl).symm.trans hopened)
  have hsame : products = c.products := by
    rw [← hproducts, hc', products_foldl_insert]
  rw [mapM_eq_some] at hreadProducts hreadDatasets
  rintro _ (@⟨p, hp⟩ | @⟨id, d, hid⟩)
  · rw [hsame] at hreadProducts
    exact Product.reread?_eq_some_iff.mp (List.forall₂_same.mp hreadProducts p hp)
  · -- The record that was read for this identity is the one that is found there.
    have hread : d ∈ datasets := by
      obtain ⟨e, he, hde⟩ :=
        exists_of_mem_left hreadDatasets (OrderedMap.mem_values_iff.mpr ⟨id, hid⟩)
      rcases find?_foldl_insert datasets { empty with products := products } id with
        ⟨found, hfound, -, hfind⟩ | ⟨hnone, -⟩
      · rw [← hc', hdatasets, hid] at hfind
        cases hfind
        exact hfound
      · exact (hnone e he ((StoredDataset.id_of_reread? hde).trans (c.keyed id d hid))).elim
    obtain ⟨f, hf, hfd⟩ := exists_of_mem_right hreadDatasets hread
    obtain ⟨key, hkey⟩ := OrderedMap.mem_values_iff.mp hf
    have hkeyed : key = id := by
      rw [← c.keyed key f hkey, ← StoredDataset.id_of_reread? hfd, c.keyed id d hid]
    rw [hkeyed, hid] at hkey
    cases hkey
    exact StoredDataset.reread?_eq_some_iff.mp hfd

/-- Metadata that nest too deep spoil the snapshot. -/
theorem ofSnapshot?_of_deep (h : c.Restorable) {m : Document} (hm : c.Holds m)
    (hdeep : Snapshot.levels < m.value.depth) :
    ofSnapshot? c.snapshot = .error (.malformed (Snapshot.shape.fault? c.snapshot)) := by
  rw [ofSnapshot?, read?_snapshot h]
  cases hm with
  | @product p hp =>
      have hnone : p.reread? Snapshot.levels = none := by
        rw [Product.reread?, Document.reread?_of_deep hdeep]
        rfl
      rw [mapM_eq_none hp hnone]
      rfl
  | @dataset id d hd =>
      have hnone : d.reread? Snapshot.levels = none := by
        rw [StoredDataset.reread?, Document.reread?_of_deep hdeep]
        rfl
      rw [mapM_eq_none (OrderedMap.mem_values_iff.mpr ⟨id, hd⟩) hnone]
      cases c.products.mapM (Product.reread? Snapshot.levels) <;> rfl

end Catalog

end DatasetCatalog
