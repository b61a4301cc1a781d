import DatasetCatalog.Text.Basic
import DatasetCatalog.Value.Basic

/-!
# JSON text of a value

`compact` writes a value without spaces, `indented` with one member per line and two spaces per
level. Both keep the order of fields; a string escapes quotes, backslashes and control characters
and leaves every other character as it is.
-/

namespace DatasetCatalog.Json

def escapeChar (c : Char) : List Char :=
  match c with
  | '"' => ['\\', '"']
  | '\\' => ['\\', '\\']
  | '\x08' => ['\\', 'b']
  | '\x0c' => ['\\', 'f']
  | '\n' => ['\\', 'n']
  | '\r' => ['\\', 'r']
  | '\t' => ['\\', 't']
  | c => if c.toNat < 0x20 then '\\' :: 'u' :: Text.hexChars 4 c.toNat else [c]

def quoted (s : String) : List Char := '"' :: (s.toList.flatMap escapeChar ++ ['"'])

def scalar : Value → List Char
  | .null => "null".toList
  | .boolean true => "true".toList
  | .boolean false => "false".toList
  | .number n => NumberFormat.document.chars n
  | .text s => quoted s
  | .sequence _ => ['[', ']']
  | .mapping _ => ['{', '}']

mutual

def compactChars : Value → List Char
  | .sequence items => '[' :: (compactItems true items ++ [']'])
  | .mapping fields => '{' :: (compactFields true fields ++ ['}'])
  | v => scalar v

/-- Elements, each but the first after a comma. -/
def compactItems (first : Bool) : List Value → List Char
  | [] => []
  | v :: rest => (if first then [] else [',']) ++ compactChars v ++ compactItems false rest

def compactFields (first : Bool) : List (String × Value) → List Char
  | [] => []
  | (k, v) :: rest =>
    (if first then [] else [',']) ++ quoted k ++ ':' :: compactChars v ++ compactFields false rest

end

/-- The text of a value without spaces. -/
def compact (v : Value) : String := String.ofList (compactChars v)

def newline (level : Nat) : List Char := '\n' :: List.replicate (2 * level) ' '

mutual

def indentedChars (level : Nat) : Value → List Char
  | .sequence [] => ['[', ']']
  | .mapping [] => ['{', '}']
  | .sequence (v :: rest) =>
    '[' :: (newline (level + 1) ++ indentedChars (level + 1) v ++
      indentedItems (level + 1) rest ++ newline level ++ [']'])
  | .mapping ((k, v) :: rest) =>
    '{' :: (newline (level + 1) ++ quoted k ++ ':' :: ' ' :: indentedChars (level + 1) v ++
      indentedFields (level + 1) rest ++ newline level ++ ['}'])
  | v => scalar v

/-- Further elements, each after a comma on a line of its own. -/
def indentedItems (level : Nat) : List Value → List Char
  | [] => []
  | v :: rest => ',' :: (newline level ++ indentedChars level v ++ indentedItems level rest)

def indentedFields (level : Nat) : List (String × Value) → List Char
  | [] => []
  | (k, v) :: rest =>
    ',' :: (newline level ++ quoted k ++ ':' :: ' ' :: indentedChars level v ++
      indentedFields level rest)

end

/-- The text of a value with one member per line. -/
def indented (v : Value) : String := String.ofList (indentedChars 0 v)

end DatasetCatalog.Json
