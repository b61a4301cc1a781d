import DatasetCatalog.Document.Layout
import DatasetCatalog.Value.Size

/-!
# Documents embedded in documents

A lineage entry holds a whole document, which is smaller than the document that embeds it. `Embeds`
relates a document to those under its lineage field, at any depth.
-/

namespace DatasetCatalog

namespace Value

theorem size_lt_of_step? {v w : Value} {s : Step} (h : v.step? s = some w) : w.size < v.size := by
  cases v <;> cases s <;> simp only [step?, reduceCtorEq] at h
  case sequence.index items i => exact size_lt_of_mem_items (List.mem_of_getElem? h)
  case mapping.key fields k => exact size_lt_of_mem_fields (Fields.mem_of_find? h)

theorem size_le_of_at? {v w : Value} {path : FieldPath} (h : v.at? path = some w) :
    w.size ≤ v.size := by
  induction path generalizing v with
  | nil => simp_all
  | cons s rest ih =>
    simp only [at?_cons, Option.bind_eq_some_iff] at h
    obtain ⟨u, hu, h⟩ := h
    have := size_lt_of_step? hu
    have := ih h
    omega

end Value

namespace Document

def size (d : Document) : Nat := d.value.size

theorem size_ofFields (fields : Fields) : (ofFields fields).size ≤ (Value.mapping fields).size :=
  Value.size_normalize (.mapping fields)

theorem size_lt_of_get? {d : Document} {path : FieldPath} {v : Value} (h : d.get? path = some v) :
    v.size < d.size := by
  cases path with
  | nil => simp [get?] at h
  | cons s rest =>
    simp only [get?, List.isEmpty_cons, Bool.false_eq_true, if_false, Value.at?_cons,
      Option.bind_eq_some_iff] at h
    obtain ⟨u, hu, h⟩ := h
    have := Value.size_lt_of_step? hu
    have := Value.size_le_of_at? h
    simp only [size]
    omega

end Document

namespace Layout

theorem mem_of_mapM_lineageEntry {entries : Fields} {children : List (String × Document)}
    (h : entries.mapM lineageEntry = .ok children) {child : String × Document}
    (hc : child ∈ children) : ∃ f ∈ entries, lineageEntry f = .ok child := by
  induction entries generalizing children with
  | nil =>
    cases h
    simp at hc
  | cons f rest ih =>
    rw [List.mapM_cons] at h
    cases hf : lineageEntry f with
    | error e => rw [hf] at h; cases h
    | ok c =>
      rw [hf] at h
      cases hr : List.mapM lineageEntry rest with
      | error e => rw [hr] at h; cases h
      | ok cs =>
        rw [hr] at h
        cases h
        rcases List.mem_cons.1 hc with rfl | hc
        · exact ⟨f, by simp, hf⟩
        · obtain ⟨g, hg, he⟩ := ih hr hc
          exact ⟨g, List.mem_cons_of_mem _ hg, he⟩

theorem size_lineageEntry {f : String × Value} {child : String × Document}
    (h : lineageEntry f = .ok child) : child.2.size ≤ f.2.size := by
  obtain ⟨k, v⟩ := f
  cases v <;> simp only [lineageEntry, reduceCtorEq] at h
  case mapping fields =>
    cases h
    exact Document.size_ofFields fields

/-- An embedded document is smaller than the document that embeds it. -/
theorem size_lt_of_mem_lineage {layout : Layout} {d : Document}
    {children : List (String × Document)} (h : layout.lineage d = .ok children)
    {child : String × Document} (hc : child ∈ children) : child.2.size < d.size := by
  unfold lineage at h
  split at h
  next => cases h; simp at hc
  next => cases h; simp at hc
  next entries he =>
    obtain ⟨f, hf, hchild⟩ := mem_of_mapM_lineageEntry h hc
    have := size_lineageEntry hchild
    have := Value.size_lt_of_mem_fields hf
    have := Document.size_lt_of_get? he
    omega
  next => cases h

/-- `child` stands in the lineage field of `d` under `classifier`. -/
def EmbedsAs (layout : Layout) (d : Document) (classifier : String) (child : Document) : Prop :=
  ∃ children, layout.lineage d = .ok children ∧ (classifier, child) ∈ children

/-- `e` is `d` or stands in the lineage of `d` at some depth. -/
inductive Embeds (layout : Layout) : Document → Document → Prop
  | refl (d : Document) : Embeds layout d d
  | entry {d child e : Document} {classifier : String} :
    layout.EmbedsAs d classifier child → Embeds layout child e → Embeds layout d e

end Layout

end DatasetCatalog
