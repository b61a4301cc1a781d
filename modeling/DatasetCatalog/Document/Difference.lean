import DatasetCatalog.Document.Basic

/-!
# Differences between two documents

Mappings are compared over the keys of both, sequences index by index, and parts with the same value
are passed over; every other mismatch is one difference, addressed by its path. A side that has no
value there is `none`. Differences are listed in path order.
-/

namespace DatasetCatalog

/-- A field whose value differs between a left and a right document. -/
structure Difference where
  path : FieldPath
  left : Option Value
  right : Option Value

namespace Difference

/-- The difference seen from one step further up. -/
def under (s : Step) (d : Difference) : Difference := { d with path := s :: d.path }

def swap (d : Difference) : Difference := ⟨d.path, d.right, d.left⟩

@[simp] theorem under_path (s : Step) (d : Difference) : (d.under s).path = s :: d.path := rfl

@[simp] theorem under_left (s : Step) (d : Difference) : (d.under s).left = d.left := rfl

@[simp] theorem under_right (s : Step) (d : Difference) : (d.under s).right = d.right := rfl

def sideText : Option Value → String
  | none => "missing"
  | some v => Json.compact v

def text (d : Difference) : String :=
  d.path.text ++ ": " ++ sideText d.left ++ "!=" ++ sideText d.right

/-- How reports show a list of differences. -/
def listText (ds : List Difference) : String := ", ".intercalate (ds.map text)

/-- Places a difference before the first one whose path is not smaller. -/
def insertByPath (d : Difference) : List Difference → List Difference
  | [] => [d]
  | e :: rest => if FieldPath.le d.path e.path then d :: e :: rest else e :: insertByPath d rest

def sortByPath (ds : List Difference) : List Difference := ds.foldr insertByPath []

end Difference

namespace Value

/-- The fields of the second mapping that the first one lacks. -/
def addedFields (left : Fields) (right : Fields) : List Difference :=
  (right.filter fun f => !left.contains f.1).map fun f => ⟨[.key f.1], none, some f.2⟩

/-- Elements from index `i` on that the left sequence lacks. -/
def addedItems (i : Nat) : List Value → List Difference
  | [] => []
  | r :: rest => ⟨[.index i], none, some r⟩ :: addedItems (i + 1) rest

mutual

/-- The differences between two values, in the order in which they are met. -/
def differences (l r : Value) : List Difference :=
  if l.sameValue .sensitive r then []
  else
    match l, r with
    | .mapping ls, .mapping rs => fieldDifferences ls rs ++ addedFields ls rs
    | .sequence ls, .sequence rs => itemDifferences 0 ls rs
    | l, r => [⟨[], some l, some r⟩]

/-- The differences at the keys of the left mapping. -/
def fieldDifferences : List (String × Value) → Fields → List Difference
  | [], _ => []
  | (k, l) :: rest, right =>
    (match right.find? k with
      | some r => (differences l r).map (.under (.key k))
      | none => [⟨[.key k], some l, none⟩]) ++ fieldDifferences rest right

/-- The differences of two sequences from index `i` on. -/
def itemDifferences (i : Nat) : List Value → List Value → List Difference
  | [], right => addedItems i right
  | l :: rest, [] => ⟨[.index i], some l, none⟩ :: itemDifferences (i + 1) rest []
  | l :: rest, r :: more =>
    (differences l r).map (.under (.index i)) ++ itemDifferences (i + 1) rest more

end

def changes (left right : Value) : List Difference :=
  Difference.sortByPath (left.differences right)

end Value

namespace Document

/-- The differences between two documents in path order; none when they are consistent. -/
def changes (left right : Document) : List Difference :=
  Difference.sortByPath (Value.fieldDifferences left.fields right.fields ++
    Value.addedFields left.fields right.fields)

end Document

end DatasetCatalog
