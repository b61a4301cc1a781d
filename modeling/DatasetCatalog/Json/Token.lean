import DatasetCatalog.Json.Numeral

/-!
# Tokens of a JSON text

The text is read one character at a time: `Scan.step` moves a scan over one character, so that
scanning a concatenation is scanning its parts in turn. A string whose escapes leave half of a
surrogate pair alone is a token without a text, and a numeral out of range one without a number:
both may stand where nothing looks at them.
-/

namespace DatasetCatalog.Json

inductive Token
  | openBrace
  | closeBrace
  | openBracket
  | closeBracket
  | colon
  | comma
  | null
  | boolean (b : Bool)
  | numeral (n : Numeral)
  | string (s : Option String)
deriving DecidableEq

/-- A string being read: its characters in reverse, whether they are all characters so far, and the
leading half of a surrogate pair that waits for its other half. -/
structure StringScan where
  done : List Char
  valid : Bool
  leading : Option Nat
deriving DecidableEq

namespace StringScan

def empty : StringScan := ⟨[], true, none⟩

/-- A waiting half that does not find its partner spoils the string. -/
def settle (s : StringScan) : StringScan :=
  match s.leading with
  | none => s
  | some _ => ⟨s.done, false, none⟩

def push (s : StringScan) (c : Char) : StringScan :=
  let s := s.settle
  { s with done := c :: s.done }

/-- Adds one UTF-16 unit. -/
def pushUnit (s : StringScan) (unit : Nat) : StringScan :=
  if 0xDC00 ≤ unit ∧ unit ≤ 0xDFFF then
    match s.leading with
    | some high => ⟨Char.ofNat (0x10000 + (high - 0xD800) * 0x400 + (unit - 0xDC00)) :: s.done, s.valid, none⟩
    | none => { s with valid := false }
  else
    let s := s.settle
    if 0xD800 ≤ unit ∧ unit ≤ 0xDBFF then { s with leading := some unit }
    else s.push (Char.ofNat unit)

def text? (s : StringScan) : Option String :=
  let s := s.settle
  if s.valid then some (String.ofList s.done.reverse) else none

end StringScan

/-- What the characters read last belong to. -/
inductive ScanMode
  | between
  | word (letters : List Char)
  | numeral (chars : List Char)
  | string (s : StringScan)
  | escape (s : StringScan)
  /-- An escape with `left` hexadecimal digits to come. -/
  | hex (s : StringScan) (left : Nat) (unit : Nat)
deriving DecidableEq

/-- A scan in progress, with the finished tokens in reverse. -/
structure Scan where
  tokens : List Token
  mode : ScanMode
deriving DecidableEq

namespace Scan

def start : Scan := ⟨[], .between⟩

def isSpace (c : Char) : Bool := c == ' ' || c == '\n' || c == '\t' || c == '\r'

def word? (letters : List Char) : Option Token :=
  if letters = "null".toList then some .null
  else if letters = "true".toList then some (.boolean true)
  else if letters = "false".toList then some (.boolean false)
  else none

def escaped? : Char → Option Char
  | '"' => some '"'
  | '\\' => some '\\'
  | '/' => some '/'
  | 'b' => some '\x08'
  | 'f' => some '\x0c'
  | 'n' => some '\n'
  | 'r' => some '\r'
  | 't' => some '\t'
  | _ => none

/-- A character between two tokens. -/
def stepBetween (tokens : List Token) (c : Char) : Option Scan :=
  if isSpace c then some ⟨tokens, .between⟩
  else if c = '"' then some ⟨tokens, .string .empty⟩
  else if c.isDigit ∨ c = '-' then some ⟨tokens, .numeral [c]⟩
  else if c.isAlpha then some ⟨tokens, .word [c]⟩
  else
    match c with
    | '{' => some ⟨.openBrace :: tokens, .between⟩
    | '}' => some ⟨.closeBrace :: tokens, .between⟩
    | '[' => some ⟨.openBracket :: tokens, .between⟩
    | ']' => some ⟨.closeBracket :: tokens, .between⟩
    | ':' => some ⟨.colon :: tokens, .between⟩
    | ',' => some ⟨.comma :: tokens, .between⟩
    | _ => none

/-- Ends a word or a numeral, whose end only the next character shows. -/
def close (scan : Scan) : Option Scan :=
  match scan.mode with
  | .word letters => (word? letters.reverse).map fun t => ⟨t :: scan.tokens, .between⟩
  | .numeral chars => (Numeral.parse? chars.reverse).map fun n => ⟨.numeral n :: scan.tokens, .between⟩
  | _ => some scan

def step (scan : Scan) (c : Char) : Option Scan :=
  match scan.mode with
  | .between => stepBetween scan.tokens c
  | .word letters =>
    if c.isAlpha then some { scan with mode := .word (c :: letters) }
    else scan.close.bind fun s => stepBetween s.tokens c
  | .numeral chars =>
    if Numeral.isChar c then some { scan with mode := .numeral (c :: chars) }
    else scan.close.bind fun s => stepBetween s.tokens c
  | .string s =>
    if c = '"' then some ⟨.string s.text? :: scan.tokens, .between⟩
    else if c = '\\' then some { scan with mode := .escape s }
    else if c.toNat < 0x20 then none
    else some { scan with mode := .string (s.push c) }
  | .escape s =>
    if c = 'u' then some { scan with mode := .hex s 4 0 }
    else (escaped? c).map fun d => { scan with mode := .string (s.push d) }
  | .hex s left unit =>
    (Text.hexValue? c).map fun d =>
      let unit := unit * 16 + d
      if left ≤ 1 then { scan with mode := .string (s.pushUnit unit) }
      else { scan with mode := .hex s (left - 1) unit }

def run (scan : Scan) (text : List Char) : Option Scan := text.foldlM step scan

/-- The tokens of a scan that is not inside a string. -/
def finish? (scan : Scan) : Option (List Token) :=
  scan.close.bind fun s =>
    match s.mode with
    | .between => some s.tokens.reverse
    | _ => none

theorem run_append (scan : Scan) (a b : List Char) :
    scan.run (a ++ b) = (scan.run a).bind (·.run b) := by
  simp [run, List.foldlM_append]

end Scan

/-- The tokens of a whole text. -/
def tokens? (text : List Char) : Option (List Token) :=
  (Scan.start.run text).bind Scan.finish?

end DatasetCatalog.Json
