import DatasetCatalog.Text.Basic

/-!
# Field paths

A path leads from the root of a document through mapping keys and sequence indices. Paths are
ordered step by step, every key before every index and a path before its extensions. The dotted
text of a path reads back only as far as its keys look like neither indices nor several steps:
`FieldPath.parse?` takes an all-digit segment for an index.
-/

namespace DatasetCatalog

inductive Step
  | key (k : String)
  | index (i : Nat)
deriving DecidableEq

namespace Step

instance : Inhabited Step := ⟨.key ""⟩

def compare : Step → Step → Ordering
  | .key a, .key b => Ord.compare a b
  | .key _, .index _ => .lt
  | .index _, .key _ => .gt
  | .index a, .index b => Ord.compare a b

instance : Ord Step := ⟨compare⟩

theorem compare_key (a b : String) : Ord.compare (key a) (key b) = Ord.compare a b := rfl

theorem compare_index (a b : Nat) : Ord.compare (index a) (index b) = Ord.compare a b := rfl

instance : Std.OrientedOrd Step where
  eq_swap {a b} := by
    cases a <;> cases b
    · rw [compare_key, compare_key]
      exact Std.OrientedCmp.eq_swap
    · rfl
    · rfl
    · rw [compare_index, compare_index]
      exact Std.OrientedCmp.eq_swap

instance : Std.TransOrd Step where
  isLE_trans {a b c} h₁ h₂ := by
    cases a <;> cases b <;> cases c
    · rw [compare_key] at h₁ h₂ ⊢
      exact Std.TransCmp.isLE_trans h₁ h₂
    · rfl
    · cases h₂
    · rfl
    · cases h₁
    · cases h₁
    · cases h₂
    · rw [compare_index] at h₁ h₂ ⊢
      exact Std.TransCmp.isLE_trans h₁ h₂

instance : Std.LawfulEqOrd Step where
  eq_of_compare {a b} h := by
    cases a <;> cases b
    · exact congrArg key (Std.LawfulEqOrd.eq_of_compare (α := String) h)
    · cases h
    · cases h
    · exact congrArg index (Std.LawfulEqOrd.eq_of_compare (α := Nat) h)

def key? : Step → Option String
  | .key k => some k
  | .index _ => none

def chars : Step → List Char
  | .key k => k.toList
  | .index i => Nat.toDigits 10 i

end Step

/-- The address of a field; the empty path is the root. -/
abbrev FieldPath := List Step

namespace FieldPath

def ofKeys (keys : List String) : FieldPath := keys.map .key

/-- The keys of a path made only of keys. -/
def keys? (path : FieldPath) : Option (List String) := path.mapM Step.key?

/-- The enclosing path; the root has none. -/
def parent? (path : FieldPath) : Option FieldPath :=
  if path.isEmpty then none else some path.dropLast

/-- The strict ancestors, nearest first; the last one is the root. -/
def ancestors (path : FieldPath) : List FieldPath :=
  (List.range path.length).reverse.map path.take

def le (a b : FieldPath) : Bool := (compare a b).isLE

/-- The dotted text. -/
def chars : FieldPath → List Char
  | [] => []
  | [s] => s.chars
  | s :: rest => s.chars ++ '.' :: chars rest

def text (path : FieldPath) : String := String.ofList path.chars

/-- The parts of a text between its dots; there is always at least one. -/
def segments : List Char → List (List Char)
  | [] => [[]]
  | c :: rest =>
    if c = '.' then [] :: segments rest
    else
      match segments rest with
      | [] => [[c]]
      | s :: more => (c :: s) :: more

/-- A segment is an index of at most 64 bits if it has only digits, else a key. -/
def parseSegment? (s : List Char) : Option Step :=
  if s = [] then none
  else if s.all Char.isDigit then
    if Text.decimalValue s < Nat.pow 2 64 then some (.index (Text.decimalValue s)) else none
  else some (.key (String.ofList s))

/-- Reads dotted text without blanks on its ends; the empty text is the root. -/
def parseTrimmed? (text : List Char) : Option FieldPath :=
  if text = [] then some [] else (segments text).mapM parseSegment?

/-- Reads dotted text. -/
def parse? (text : String) : Option FieldPath := parseTrimmed? (Text.trim text.toList)

end FieldPath

end DatasetCatalog
