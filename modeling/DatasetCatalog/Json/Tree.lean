import DatasetCatalog.Json.Token
import DatasetCatalog.Value.WellFormed

/-!
# JSON trees

A tree keeps what a JSON text says before anything is made of it: repeated keys, and members that
nobody looks at. The tokens drive a stack of open containers (`Build.step`). `value?` turns a tree
into a value and refuses nesting beyond a given number of levels; a text read as a document may
nest 127 levels (`nestingLimit`).
-/

namespace DatasetCatalog.Json

inductive Tree
  | null
  | boolean (b : Bool)
  | number (n : Option Number)
  | string (s : Option String)
  | array (items : List Tree)
  | object (members : List (Option String × Tree))

instance : Inhabited Tree := ⟨.null⟩

/-- What an open container waits for. -/
inductive Expected
  /-- The first element, or the end. -/
  | first
  /-- An element after a comma. -/
  | next
  /-- A comma, or the end. -/
  | separator
  /-- The colon after a key. -/
  | colon (key : Option String)
  /-- The value of a key. -/
  | value (key : Option String)
deriving DecidableEq

/-- An open container with what it holds so far in reverse. -/
inductive Frame
  | array (done : List Tree) (expected : Expected)
  | object (done : List (Option String × Tree)) (expected : Expected)

/-- A tree being built: the open containers, innermost first, and the tree once it is complete. -/
structure Build where
  stack : List Frame
  result : Option Tree

namespace Build

def start : Build := ⟨[], none⟩

/-- Hands a complete tree to the innermost container that waits for one. -/
def deliver (t : Tree) (b : Build) : Option Build :=
  match b.stack with
  | [] => if b.result.isNone then some ⟨[], some t⟩ else none
  | .array done expected :: rest =>
    match expected with
    | .first | .next => some ⟨.array (t :: done) .separator :: rest, b.result⟩
    | _ => none
  | .object done expected :: rest =>
    match expected with
    | .value key => some ⟨.object ((key, t) :: done) .separator :: rest, b.result⟩
    | _ => none

/-- Whether a complete tree may come now. -/
def wantsTree (b : Build) : Bool :=
  match b.stack with
  | [] => b.result.isNone
  | .array _ .first :: _ | .array _ .next :: _ | .object _ (.value _) :: _ => true
  | _ => false

def openContainer (frame : Frame) (b : Build) : Option Build :=
  if b.wantsTree then some { b with stack := frame :: b.stack } else none

def closeArray (b : Build) : Option Build :=
  match b.stack with
  | .array done .first :: rest | .array done .separator :: rest =>
    deliver (.array done.reverse) ⟨rest, b.result⟩
  | _ => none

def closeObject (b : Build) : Option Build :=
  match b.stack with
  | .object done .first :: rest | .object done .separator :: rest =>
    deliver (.object done.reverse) ⟨rest, b.result⟩
  | _ => none

def comma (b : Build) : Option Build :=
  match b.stack with
  | .array done .separator :: rest => some { b with stack := .array done .next :: rest }
  | .object done .separator :: rest => some { b with stack := .object done .next :: rest }
  | _ => none

def colon (b : Build) : Option Build :=
  match b.stack with
  | .object done (.colon key) :: rest => some { b with stack := .object done (.value key) :: rest }
  | _ => none

/-- A string is a key where an object waits for one, and a value elsewhere. -/
def string (s : Option String) (b : Build) : Option Build :=
  match b.stack with
  | .object done .first :: rest | .object done .next :: rest =>
    some { b with stack := .object done (.colon s) :: rest }
  | _ => deliver (.string s) b

def step (b : Build) : Token → Option Build
  | .openBrace => b.openContainer (.object [] .first)
  | .closeBrace => b.closeObject
  | .openBracket => b.openContainer (.array [] .first)
  | .closeBracket => b.closeArray
  | .colon => b.colon
  | .comma => b.comma
  | .null => deliver .null b
  | .boolean v => deliver (.boolean v) b
  | .numeral n => deliver (.number n.number?) b
  | .string s => b.string s

end Build

namespace Tree

def ofTokens? (tokens : List Token) : Option Tree :=
  (tokens.foldlM Build.step Build.start).bind fun b =>
    match b.stack with
    | [] => b.result
    | _ => none

/-- Reads one tree from a whole text. -/
def read? (text : String) : Option Tree := (tokens? text.toList).bind ofTokens?

mutual

/-- The value of a tree that nests at most `levels` containers. -/
def value? (levels : Nat) : Tree → Option Value
  | .null => some .null
  | .boolean b => some (.boolean b)
  | .number n => n.map .number
  | .string s => s.map .text
  | .array items =>
    match levels with
    | 0 => none
    | levels + 1 => (values? levels items).map .sequence
  | .object members =>
    match levels with
    | 0 => none
    | levels + 1 => (fields? levels members).map .mapping

def values? (levels : Nat) : List Tree → Option (List Value)
  | [] => some []
  | t :: rest => (t.value? levels).bind fun v => (values? levels rest).map (v :: ·)

def fields? (levels : Nat) : List (Option String × Tree) → Option Fields
  | [] => some []
  | (key, t) :: rest =>
    key.bind fun k => (t.value? levels).bind fun v => (fields? levels rest).map ((k, v) :: ·)

end

end Tree

/-- How many containers may stand inside each other. -/
def nestingLimit : Nat := 127

/-- Reads a document text; a repeated key keeps its first place and takes its last value. -/
def read? (text : String) : Option Value :=
  (Tree.read? text).bind fun t => (t.value? nestingLimit).map Value.normalize

end DatasetCatalog.Json
