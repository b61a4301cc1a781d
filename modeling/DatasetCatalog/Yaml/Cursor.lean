/-!
# Places in a YAML text

A cursor is what is left of a text, with the number of bytes, line breaks and columns before it; a
column is a character.
Blanks are spaces and tabs. Five characters break lines; carriage return and line feed together are
one break. Nothing at all counts as both where a token may end.
-/

namespace DatasetCatalog.Yaml

def isBlank (c : Char) : Bool := c == ' ' || c == '\t'

def isBreak (c : Char) : Bool :=
  c == '\n' || c == '\r' || c == '\u0085' || c == '\u2028' || c == '\u2029'

def endsWord (c : Option Char) : Bool := c.all fun c => isBlank c || isBreak c

def isNameChar (c : Char) : Bool := c.isAlphanum || c == '-' || c == '_'

/-- What may stand in a text at all. -/
def isAllowed (c : Char) : Bool :=
  c == '\t' || c == '\n' || c == '\r' || (' ' ≤ c && c ≤ '~') || c == '\u0085' ||
    ('\u00a0' ≤ c && c ≤ '\ufffd') || 0xffff < c.toNat

def byteLength (cs : List Char) : Nat := cs.foldl (fun n c => n + c.utf8Size) 0

structure Cursor where
  rest : List Char
  index : Nat
  line : Nat
  column : Nat

namespace Cursor

def start (text : List Char) : Cursor := ⟨text, 0, 0, 0⟩

def peek? (c : Cursor) : Option Char := c.rest.head?

def ahead? (c : Cursor) (n : Nat) : Option Char := c.rest[n]?

def skip (c : Cursor) (n : Nat := 1) : Cursor :=
  ⟨c.rest.drop n, c.index + byteLength (c.rest.take n), c.line, c.column + n⟩

/-- The characters of the line that pass the test, and the place after them. -/
def span (c : Cursor) (test : Char → Bool) : List Char × Cursor :=
  let found := c.rest.takeWhile test
  (found, c.skip found.length)

def skipWhile (c : Cursor) (test : Char → Bool) : Cursor := (c.span test).2

def skipBreak (c : Cursor) : Cursor :=
  match c.rest with
  | '\r' :: '\n' :: rest => ⟨rest, c.index + 2, c.line + 1, 0⟩
  | b :: rest => ⟨rest, c.index + b.utf8Size, c.line + 1, 0⟩
  | [] => c

/-- The text of the line break ahead. Only the separators of lines and paragraphs stay what they
are. -/
def breakText (c : Cursor) : List Char :=
  match c.peek? with
  | none => []
  | some b => if b == '\u2028' || b == '\u2029' then [b] else ['\n']

/-- Moves over blanks and a comment to the end of the line, where nothing else may stand, and over the
line break. -/
def finishLine? (c : Cursor) : Option Cursor :=
  let c := c.skipWhile isBlank
  let c := if c.peek? == some '#' then c.skipWhile fun c => !isBreak c else c
  match c.peek? with
  | none => some c
  | some b => if isBreak b then some c.skipBreak else none

/-- Whether a line starts here with three of the mark and the end of a word. -/
def isDocumentMark (c : Cursor) (mark : Char) : Bool :=
  c.column == 0 && c.rest.take 3 == [mark, mark, mark] && endsWord (c.ahead? 3)

def isAnyDocumentMark (c : Cursor) : Bool := c.isDocumentMark '-' || c.isDocumentMark '.'

end Cursor

end DatasetCatalog.Yaml
