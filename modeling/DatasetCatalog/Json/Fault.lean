import DatasetCatalog.Json.Printer

/-!
# Faults of a JSON text

A fault is what keeps a text from being read, with the place where it shows: a line counted from one
and the number of bytes of that line up to the place. Part of the problems lie in the text itself;
the others are that it says something else than was expected.
-/

namespace DatasetCatalog.Json

inductive Problem
  | endInList
  | endInObject
  | endInString
  | endInValue
  | colon
  | listEnd
  | objectEnd
  | word
  | value
  | escape
  | number
  | outOfRange
  | control
  | key
  | surrogate
  | trailingComma
  | trailing
  | hexEnd
  /-- Too many containers inside each other. -/
  | depth
  /-- A value of another kind. -/
  | kind (found expected : String)
  /-- A value of the right kind that is out of bounds. -/
  | bounds (found expected : String)
  /-- A record with too few elements. -/
  | length (found : Nat) (expected : String)
  | missing (field : String)
  | repeated (field : String)
  /-- A text that does not say what it should. -/
  | refused (message : String)
deriving DecidableEq

def Problem.message : Problem → String
  | .endInList => "EOF while parsing a list"
  | .endInObject => "EOF while parsing an object"
  | .endInString => "EOF while parsing a string"
  | .endInValue => "EOF while parsing a value"
  | .colon => "expected `:`"
  | .listEnd => "expected `,` or `]`"
  | .objectEnd => "expected `,` or `\x7d`"
  | .word => "expected ident"
  | .value => "expected value"
  | .escape => "invalid escape"
  | .number => "invalid number"
  | .outOfRange => "number out of range"
  | .control => "control character (\\u0000-\\u001F) found while parsing a string"
  | .key => "key must be a string"
  | .surrogate => "lone leading surrogate in hex escape"
  | .trailingComma => "trailing comma"
  | .trailing => "trailing characters"
  | .hexEnd => "unexpected end of hex escape"
  | .depth => "recursion limit exceeded"
  | .kind found expected => "invalid type: " ++ found ++ ", expected " ++ expected
  | .bounds found expected => "invalid value: " ++ found ++ ", expected " ++ expected
  | .length found expected => "invalid length " ++ toString found ++ ", expected " ++ expected
  | .missing field => "missing field `" ++ field ++ "`"
  | .repeated field => "duplicate field `" ++ field ++ "`"
  | .refused message => message

structure Fault where
  problem : Problem
  line : Nat
  column : Nat
deriving DecidableEq

namespace Fault

def message (f : Fault) : String :=
  f.problem.message ++ " at line " ++ toString f.line ++ " column " ++ toString f.column

def isBreak (b : UInt8) : Bool := b == 0x0A

/-- A problem that shows behind so many bytes of a text. -/
def ofIndex (text : List UInt8) (p : Problem) (index : Nat) : Fault :=
  let before := text.take index
  ⟨p, 1 + before.countP isBreak, (before.reverse.takeWhile fun b => !isBreak b).length⟩

/-- The place is on a line of the text and not past the end of the text. -/
theorem ofIndex_within (text : List UInt8) (p : Problem) (index : Nat) :
    0 < (ofIndex text p index).line ∧ (ofIndex text p index).line ≤ 1 + text.countP isBreak ∧
      (ofIndex text p index).column ≤ text.length := by
  have hbefore : (text.take index).Sublist text := List.take_sublist index text
  refine ⟨Nat.lt_add_right _ Nat.one_pos, Nat.add_le_add_left hbefore.countP_le 1, ?_⟩
  calc ((text.take index).reverse.takeWhile fun b => !isBreak b).length
      ≤ (text.take index).reverse.length := (List.takeWhile_sublist _).length_le
    _ = (text.take index).length := List.length_reverse
    _ ≤ text.length := hbefore.length_le

end Fault

inductive Found
  | null
  | boolean (b : Bool)
  | number (n : Number)
  | string (s : String)
  | list
  | object

namespace Found

/-- A character of a text in a message. Control characters are written by number. -/
def shownChar (c : Char) : List Char :=
  match c with
  | '"' => ['\\', '"']
  | '\\' => ['\\', '\\']
  | '\n' => ['\\', 'n']
  | '\r' => ['\\', 'r']
  | '\t' => ['\\', 't']
  | '\x00' => ['\\', '0']
  | c =>
    if c.toNat < 0x20 ∨ (0x7F ≤ c.toNat ∧ c.toNat ≤ 0x9F) then
      "\\u\x7b".toList ++ Nat.toDigits 16 c.toNat ++ ['}']
    else [c]

def shown (s : String) : String := String.ofList ('"' :: (s.toList.flatMap shownChar ++ ['"']))

/-- What was found, as a message calls it. -/
def text : Found → String
  | .null => "null"
  | .boolean b => "boolean `" ++ toString b ++ "`"
  | .number n =>
    (if n.toInt?.isSome then "integer `" else "floating point `") ++
      String.ofList (NumberFormat.document.chars n) ++ "`"
  | .string s => "string " ++ shown s
  | .list => "sequence"
  | .object => "map"

end Found

end DatasetCatalog.Json
