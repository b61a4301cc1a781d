import DatasetCatalog.Document.Basic
import DatasetCatalog.Json.Tree

/-!
# Records in JSON trees

A record is read from an object, whose members may come in any order and among others, or from an
array in the order of the field names. A field named twice spoils the record; what a record does not
name is not looked at.
-/

namespace DatasetCatalog.Json.Tree

def text? : Tree → Option String
  | .string s => s
  | _ => none

/-- A name, which may also be the key of an object that holds nothing but a null. -/
def name? : Tree → Option String
  | .object [(key, .null)] => key
  | t => t.text?

def boolean? : Tree → Option Bool
  | .boolean b => some b
  | _ => none

/-- An integer from `least` to below `bound`. -/
def integer? (least bound : Int) : Tree → Option Int
  | .number (some (.integer n _)) => if least ≤ n ∧ n < bound then some n else none
  | _ => none

def natural? (bound : Nat) (t : Tree) : Option Nat := (t.integer? 0 bound).map Int.toNat

def list? {α : Type} (element : Tree → Option α) : Tree → Option (List α)
  | .array items => items.mapM element
  | _ => none

/-- Null stands for an absent value. -/
def optional? {α : Type} (present : Tree → Option α) : Tree → Option (Option α)
  | .null => some none
  | t => (present t).map some

def entries? {α : Type} (value : Tree → Option α) : Tree → Option (List (String × α))
  | .object members => members.mapM fun m => m.1.bind fun k => (value m.2).map fun a => (k, a)
  | _ => none

/-- The member of this name; nothing if there are several. -/
def member? (members : List (Option String × Tree)) (name : String) : Option (Option Tree) :=
  match members.filter fun m => m.1 == some name with
  | [] => some none
  | [m] => some (some m.2)
  | _ => none

/-- The fields of a record, in the order of the names. -/
def record? (names : List String) : Tree → Option (List (Option Tree))
  | .object members =>
    if members.all fun m => m.1.isSome then names.mapM (member? members) else none
  | .array items =>
    if items.length ≤ names.length then some ((List.range names.length).map (items[·]?)) else none
  | _ => none

/-- A field that has to be there. -/
def required? {α : Type} (read : Tree → Option α) (field : Option Tree) : Option α :=
  field.bind read

/-- A field that may be missing. -/
def orElse? {α : Type} (absent : α) (read : Tree → Option α) : Option Tree → Option α
  | none => some absent
  | some t => read t

/-- A key, or an index of 64 bits. -/
def step? : Tree → Option Step
  | .string s => s.map .key
  | t => (t.natural? (Nat.pow 2 64)).map .index

def path? (t : Tree) : Option FieldPath := t.list? step?

def document? (levels : Nat) (t : Tree) : Option Document :=
  (t.value? levels).bind fun v => (Document.ofValue? v).toOption

end DatasetCatalog.Json.Tree
