import DatasetCatalog.FieldPath
import DatasetCatalog.Json.Printer
import DatasetCatalog.Value.WellFormed

/-!
# Metadata documents

A document is a mapping in which no mapping repeats a key. Fields are read, removed and set by
path; `Value.at?` follows a path through a value and is what all three are described by.
-/

namespace DatasetCatalog

/-- Why a value cannot serve as a document, or a document's field as what it is meant to be. -/
inductive DocumentError
  | notAMapping (found : String)
  | invalidIdentity (value : String)
  | invalidLineageEntry (classifier : String)
  | invalidLineageField (path : FieldPath)
  | invalidPath (text : String)
deriving DecidableEq

def DocumentError.message : DocumentError → String
  | .notAMapping found => "metadata document must be a mapping, found " ++ found
  | .invalidIdentity value => "invalid identity " ++ value ++ ": expected a UUID"
  | .invalidLineageEntry classifier => "lineage entry '" ++ classifier ++ "' is not a document"
  | .invalidLineageField path => "lineage field " ++ path.text ++ " is not a mapping"
  | .invalidPath text => "invalid field path '" ++ text ++ "'"

def FieldPath.ofText (text : String) : Except DocumentError FieldPath :=
  match FieldPath.parse? text with
  | some path => .ok path
  | none => .error (.invalidPath (String.ofList (Text.trim text.toList)))

namespace Value

def step? : Value → Step → Option Value
  | .mapping fields, .key k => Fields.find? fields k
  | .sequence items, .index i => items[i]?
  | _, _ => none

/-- The value at a path below this one. -/
def at? (v : Value) : FieldPath → Option Value
  | [] => some v
  | s :: rest => (v.step? s).bind fun w => w.at? rest

@[simp] theorem at?_nil (v : Value) : v.at? [] = some v := rfl

theorem at?_cons (v : Value) (s : Step) (rest : FieldPath) :
    v.at? (s :: rest) = (v.step? s).bind fun w => w.at? rest := rfl

/-- A path is followed part by part. -/
theorem at?_append (v : Value) (p q : FieldPath) :
    v.at? (p ++ q) = (v.at? p).bind fun w => w.at? q := by
  induction p generalizing v with
  | nil => rfl
  | cons s rest ih => simp only [List.cons_append, at?_cons, Option.bind_assoc, ih]

/-- Replaces the value behind one step, which must be there. -/
def replace : Value → Step → Value → Value
  | .mapping fields, .key k, w => .mapping (Fields.put fields k w)
  | .sequence items, .index i, w => .sequence (items.set i w)
  | v, _, _ => v

/-- What is left when the field at a path that ends in a key is taken out, and the field's value;
nothing if there is no such field. -/
def take? (v : Value) : FieldPath → Option (Value × Value)
  | [] => none
  | [s] =>
    match v, s with
    | .mapping fields, .key k => (Fields.find? fields k).map fun w => (w, .mapping (Fields.erase fields k))
    | _, _ => none
  | s :: rest =>
    (v.step? s).bind fun w => (w.take? rest).map fun taken => (taken.1, v.replace s taken.2)

end Value

namespace Fields

/-- Sets the field at a path of keys. A level that is missing or no mapping becomes a mapping. -/
def setAt (fields : Fields) (v : Value) : String → List String → Fields
  | k, [] => fields.put k v
  | k, next :: rest =>
    let inner := match fields.find? k with
      | some (.mapping inner) => inner
      | _ => []
    fields.put k (.mapping (setAt inner v next rest))

end Fields

namespace Value

theorem WellFormed.step? {v w : Value} (h : v.WellFormed) {s : Step} (hw : v.step? s = some w) :
    w.WellFormed := by
  cases v <;> cases s <;> simp only [Value.step?, reduceCtorEq] at hw
  case sequence.index items i =>
    exact allWellFormed_iff.1 h w (List.mem_of_getElem? hw)
  case mapping.key fields k =>
    exact Fields.WellFormed.find? h hw

theorem WellFormed.at? {v w : Value} (h : v.WellFormed) {path : FieldPath}
    (hw : v.at? path = some w) : w.WellFormed := by
  induction path generalizing v with
  | nil => simp_all
  | cons s rest ih =>
    simp only [at?_cons, Option.bind_eq_some_iff] at hw
    obtain ⟨u, hu, hw⟩ := hw
    exact ih (h.step? hu) hw

theorem WellFormed.replace {v w : Value} (h : v.WellFormed) (hw : w.WellFormed) (s : Step) :
    (v.replace s w).WellFormed := by
  cases v <;> cases s <;> simp only [Value.replace] <;> try exact h
  case sequence.index items i =>
    refine allWellFormed_iff.2 fun x hx => ?_
    rcases List.mem_or_eq_of_mem_set hx with hx | rfl
    · exact allWellFormed_iff.1 h x hx
    · exact hw
  case mapping.key fields k =>
    exact Fields.WellFormed.put h k hw

theorem WellFormed.take? {v : Value} (h : v.WellFormed) {path : FieldPath} {taken : Value × Value}
    (ht : v.take? path = some taken) : taken.1.WellFormed ∧ taken.2.WellFormed := by
  induction path generalizing v taken with
  | nil => simp [Value.take?] at ht
  | cons s rest ih =>
    cases rest with
    | nil =>
      cases v <;> cases s <;> simp only [Value.take?, reduceCtorEq] at ht
      case mapping.key fields k =>
        obtain ⟨w, hw, rfl⟩ := Option.map_eq_some_iff.1 ht
        exact ⟨Fields.WellFormed.find? h hw, Fields.WellFormed.erase h k⟩
    | cons next more =>
      simp only [Value.take?, Option.bind_eq_some_iff, Option.map_eq_some_iff] at ht
      obtain ⟨w, hw, inner, hi, rfl⟩ := ht
      have := ih (h.step? hw) hi
      exact ⟨this.1, h.replace this.2 s⟩

end Value

theorem Fields.WellFormed.setAt {fields : Fields} (h : fields.WellFormed) {v : Value}
    (hv : v.WellFormed) (k : String) (rest : List String) :
    (fields.setAt v k rest).WellFormed := by
  induction rest generalizing fields k with
  | nil => exact h.put k hv
  | cons next more ih =>
    simp only [Fields.setAt]
    refine h.put k ?_
    refine ih ?_ next
    split
    next inner hi => exact h.find? hi
    next => exact Fields.wellFormed_nil

/-- A metadata document. -/
structure Document where
  fields : Fields
  wellFormed : fields.WellFormed

namespace Document

theorem ext_fields {d e : Document} (h : d.fields = e.fields) : d = e := by
  cases d; cases e; cases h; rfl

def empty : Document := ⟨[], Fields.wellFormed_nil⟩

instance : Inhabited Document := ⟨empty⟩

def value (d : Document) : Value := .mapping d.fields

def text (d : Document) : String := Json.compact d.value

/-- The document with these fields; a repeated key takes its last value. -/
def ofFields (fields : Fields) : Document :=
  ⟨Fields.collapse (Value.normalizeFields fields),
    Value.wellFormed_normalize (.mapping fields)⟩

def ofValue? : Value → Except DocumentError Document
  | .mapping fields => .ok (ofFields fields)
  | v => .error (.notAMapping v.kind)

/-- The value at a path; the root is not a field. -/
def get? (d : Document) (path : FieldPath) : Option Value :=
  if path.isEmpty then none else d.value.at? path

/-- Takes out the field at a path that ends in a key. -/
def remove? (d : Document) (path : FieldPath) : Option (Value × Document) :=
  match h : d.value.take? path with
  | some (v, .mapping fields) => some (v, ⟨fields, (Value.WellFormed.take? d.wellFormed h).2⟩)
  | _ => none

/-- Sets the field at a path made of keys only. -/
def set? (d : Document) (path : FieldPath) (v : Value) : Except DocumentError Document :=
  match path.keys? with
  | some (k :: rest) =>
    .ok ⟨d.fields.setAt v.normalize k rest, d.wellFormed.setAt (Value.wellFormed_normalize v) k rest⟩
  | _ => .error (.invalidPath path.text)

/-- Keeps the fields whose key passes the test. -/
def filterKeys (d : Document) (keep : String → Bool) : Document :=
  ⟨d.fields.filter fun f => keep f.1, d.wellFormed.sublist List.filter_sublist⟩

end Document

end DatasetCatalog
