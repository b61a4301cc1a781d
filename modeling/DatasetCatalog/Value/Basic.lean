import DatasetCatalog.Number.Basic
import DatasetCatalog.Text.Lowercase

/-!
# Values of a metadata document

A value is a tree of scalars, sequences and mappings. The fields of a mapping keep the order in
which they were written, but two mappings are the same whatever the order of their fields. There
are two such comparisons over one recursion: `sameValue` takes numbers by value, and `identical`
tells an integer from a binary64 number.
-/

namespace DatasetCatalog

inductive Value
  | null
  | boolean (b : Bool)
  | number (n : Number)
  | text (s : String)
  | sequence (items : List Value)
  | mapping (fields : List (String × Value))

instance : Inhabited Value := ⟨.null⟩

/-- Fields of a mapping, in document order. -/
abbrev Fields := List (String × Value)

namespace Fields

def find? : Fields → String → Option Value
  | [], _ => none
  | (l, v) :: rest, k => if l = k then some v else find? rest k

def contains (fields : Fields) (k : String) : Bool := (fields.find? k).isSome

def keys (fields : Fields) : List String := fields.map Prod.fst

/-- A new field comes last; a field already there keeps its place. -/
def put : Fields → String → Value → Fields
  | [], k, v => [(k, v)]
  | (l, w) :: rest, k, v => if l = k then (l, v) :: rest else (l, w) :: put rest k v

def erase : Fields → String → Fields
  | [], _ => []
  | (l, w) :: rest, k => if l = k then rest else (l, w) :: erase rest k

/-- A repeated key keeps its first place and takes its last value. -/
def collapse (fields : Fields) : Fields := fields.foldl (fun done f => put done f.1 f.2) []

@[simp] theorem find?_nil (k : String) : find? [] k = none := rfl

theorem find?_cons (l : String) (v : Value) (rest : Fields) (k : String) :
    find? ((l, v) :: rest) k = if l = k then some v else find? rest k := rfl

theorem find?_put (fields : Fields) (k l : String) (v : Value) :
    (fields.put k v).find? l = if k = l then some v else fields.find? l := by
  induction fields with
  | nil => rfl
  | cons f rest ih =>
    obtain ⟨m, w⟩ := f
    simp only [put]
    split
    next h => subst h; simp only [find?]; split <;> rfl
    next h => simp only [find?, ih]; split <;> grind

theorem mem_of_find? {fields : Fields} {k : String} {v : Value} (h : fields.find? k = some v) :
    (k, v) ∈ fields := by
  induction fields with
  | nil => simp at h
  | cons f rest ih =>
    obtain ⟨m, w⟩ := f
    simp only [find?] at h
    split at h
    next hm => subst hm; simp_all
    next => exact List.mem_cons_of_mem _ (ih h)

theorem find?_eq_none_iff {fields : Fields} {k : String} :
    fields.find? k = none ↔ k ∉ fields.keys := by
  induction fields with
  | nil => simp [keys]
  | cons f rest ih =>
    obtain ⟨m, w⟩ := f
    simp only [find?, keys, List.map_cons, List.mem_cons, not_or]
    split
    next hm => simp [hm]
    next hm => rw [ih]; simp [keys, Ne.symm hm]

end Fields

/-- Whether texts that differ only in case count as equal. -/
inductive CaseMode
  | sensitive
  | insensitive
deriving DecidableEq, Inhabited

namespace CaseMode

def ofSensitive (sensitive : Bool) : CaseMode := if sensitive then .sensitive else .insensitive

def isSensitive : CaseMode → Bool
  | .sensitive => true
  | .insensitive => false

def sameText : CaseMode → String → String → Bool
  | .sensitive, a, b => a == b
  | .insensitive, a, b => Text.lowercase a == Text.lowercase b

end CaseMode

namespace Value

/-- The word for the kind of a value. -/
def kind : Value → String
  | .null => "null"
  | .boolean _ => "boolean"
  | .number _ => "number"
  | .text _ => "string"
  | .sequence _ => "sequence"
  | .mapping _ => "mapping"

def text? : Value → Option String
  | .text s => some s
  | _ => none

def isMapping : Value → Bool
  | .mapping _ => true
  | _ => false

mutual

/-- Same shape, with numbers and texts compared by the given relations. -/
def sameBy (numbers : Number → Number → Bool) (texts : String → String → Bool) :
    Value → Value → Bool
  | .null, .null => true
  | .boolean a, .boolean b => a == b
  | .number a, .number b => numbers a b
  | .text a, .text b => texts a b
  | .sequence xs, .sequence ys => sameItemsBy numbers texts xs ys
  | .mapping xs, .mapping ys => xs.length == ys.length && fieldsWithinBy numbers texts xs ys
  | _, _ => false

def sameItemsBy (numbers : Number → Number → Bool) (texts : String → String → Bool) :
    List Value → List Value → Bool
  | [], [] => true
  | x :: xs, y :: ys => sameBy numbers texts x y && sameItemsBy numbers texts xs ys
  | _, _ => false

/-- Every field of the first list has its like in the second. -/
def fieldsWithinBy (numbers : Number → Number → Bool) (texts : String → String → Bool) :
    List (String × Value) → Fields → Bool
  | [], _ => true
  | (k, x) :: xs, ys =>
    (match ys.find? k with
      | some y => sameBy numbers texts x y
      | none => false) && fieldsWithinBy numbers texts xs ys

end

/-- Equality of documents: numbers by value, texts up to the case mode. -/
def sameValue (mode : CaseMode) (a b : Value) : Bool := sameBy Number.sameValue mode.sameText a b

/-- Equality that also tells an integer from a binary64 number. -/
def identical (a b : Value) : Bool := sameBy Number.sameKindAndValue (· == ·) a b

end Value

end DatasetCatalog
