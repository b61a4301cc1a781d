import DatasetCatalog.Yaml.Scalar
import DatasetCatalog.Yaml.Tag

/-!
# Tokens of a YAML text

Indentation opens and closes block collections. A colon may turn a word that has been read already
into a key, so the scanner remembers where a key could start: on the same line and at most 1024
bytes back, once per flow collection.
-/

namespace DatasetCatalog.Yaml

inductive Token
  | version (major minor : Nat)
  /-- A tag directive: the handle and what it stands for. -/
  | tagDirective (handle : String) (expansion : Tag)
  | documentStart
  | documentEnd
  | streamEnd
  | blockSequenceStart
  | blockMappingStart
  | blockEnd
  | flowSequenceStart
  | flowSequenceEnd
  | flowMappingStart
  | flowMappingEnd
  | blockEntry
  | flowEntry
  | key
  | value
  | anchor (name : String)
  | reference (name : String)
  | tag (handle : String) (ending : Tag)
  | scalar (text : String) (plain : Bool)
deriving DecidableEq, Inhabited

/-- Where a key could start. -/
structure KeyStart where
  /-- Nothing but a key may stand here. -/
  required : Bool
  /-- How many tokens come before. -/
  number : Nat
  place : Cursor

structure Scanner where
  place : Cursor
  /-- The tokens so far, the last one first. -/
  tokens : List Token := []
  /-- The columns of the open block collections, the innermost first. -/
  indents : List Nat := []
  /-- Whether a key could start at the next token. -/
  keyAllowed : Bool := true
  /-- Where a key could start outside flow collections. -/
  blockKey : Option KeyStart := none
  /-- The same inside each open flow collection, the innermost first. -/
  flowKeys : List (Option KeyStart) := []

namespace Scanner

def inFlow (s : Scanner) : Bool := !s.flowKeys.isEmpty

def emit (s : Scanner) (t : Token) : Scanner := { s with tokens := t :: s.tokens }

/-- Puts a token after the first `number` ones. -/
def insertAt (s : Scanner) (number : Nat) (t : Token) : Scanner :=
  let later := s.tokens.length - number
  { s with tokens := s.tokens.take later ++ t :: s.tokens.drop later }

def skip (s : Scanner) (n : Nat := 1) : Scanner := { s with place := s.place.skip n }

def allowKey (s : Scanner) (allowed : Bool) : Scanner := { s with keyAllowed := allowed }

/-- Where a key could start in the innermost flow collection, or outside all of them. -/
def keyStart (s : Scanner) : Option KeyStart :=
  match s.flowKeys with
  | k :: _ => k
  | [] => s.blockKey

def setKeyStart (s : Scanner) (k : Option KeyStart) : Scanner :=
  match s.flowKeys with
  | _ :: rest => { s with flowKeys := k :: rest }
  | [] => { s with blockKey := k }

/-- Gives up on the remembered key, unless nothing else may stand there. -/
def dropKey? (s : Scanner) : Option Scanner :=
  if s.keyStart.any KeyStart.required then none else some (s.setKeyStart none)

/-- Remembers the next token as a possible key. -/
def saveKey? (s : Scanner) : Option Scanner :=
  if s.keyAllowed then
    s.dropKey?.map fun s =>
      s.setKeyStart (some ⟨!s.inFlow && s.indents.head? == some s.place.column, s.tokens.length, s.place⟩)
  else some s

/-- A key must end on its line and within 1024 bytes. -/
def isStale (now : Cursor) (k : KeyStart) : Bool :=
  k.place.line < now.line || k.place.index + 1024 < now.index

/-- Forgets keys that have become too long; a required one is refused. -/
def dropStaleKeys? (s : Scanner) : Option Scanner :=
  let all := s.blockKey :: s.flowKeys
  if all.any fun k => k.any fun k => k.required && isStale s.place k then none
  else
    let fresh := fun (k : Option KeyStart) => k.filter fun k => !isStale s.place k
    some { s with blockKey := fresh s.blockKey, flowKeys := s.flowKeys.map fresh }

/-- Opens a block collection in a column right of the innermost one, its token after the first
`number` ones. -/
def indent (s : Scanner) (column number : Nat) (t : Token) : Scanner :=
  if s.inFlow || s.indents.head?.any fun i => column ≤ i then s
  else { s.insertAt number t with indents := column :: s.indents }

/-- Closes the block collections right of a column; all of them without one. -/
def dedent (s : Scanner) (column : Option Nat) : Scanner :=
  if s.inFlow then s
  else
    let closed := s.indents.takeWhile fun i => column.all fun c => c < i
    { s with
      tokens := List.replicate closed.length .blockEnd ++ s.tokens
      indents := s.indents.drop closed.length }

/-- Moves over blanks, comments and line breaks, given their number at most, and over a byte order
mark at the start of each line, which takes a column. Tabs do not separate where a key could
start. -/
def skipToToken : (n : Nat) → Scanner → Scanner
  | 0, s => s
  | n + 1, s =>
    let tabs := s.inFlow || !s.keyAllowed
    let c := if s.place.column == 0 && s.place.peek? == some '\ufeff' then s.place.skip else s.place
    let c := c.skipWhile fun c => c == ' ' || (tabs && c == '\t')
    let c := if c.peek? == some '#' then c.skipWhile fun c => !isBreak c else c
    if c.peek?.any isBreak then
      skipToToken n { s with place := c.skipBreak, keyAllowed := s.keyAllowed || !s.inFlow }
    else { s with place := c }

/-- A token that starts a line and ends whatever is open. -/
def atLineStart? (s : Scanner) : Option Scanner := (s.dedent none).dropKey?.map fun s => s.allowKey false

def fetchStreamEnd? (s : Scanner) : Option Scanner := s.atLineStart?.map fun s => s.emit .streamEnd

def fetchDocumentMark? (s : Scanner) (t : Token) : Option Scanner :=
  s.atLineStart?.map fun s => (s.skip 3).emit t

def number? (c : Cursor) : Option (Nat × Cursor) :=
  let (digits, c) := c.span Char.isDigit
  if digits.isEmpty || 9 < digits.length then none else some (Text.decimalValue digits, c)

def versionDirective? (c : Cursor) : Option (Token × Cursor) :=
  (number? (c.skipWhile isBlank)).bind fun (major, c) =>
    if c.peek? == some '.' then (number? c.skip).map fun (minor, c) => (.version major minor, c)
    else none

/-- A handle: a name between exclamation marks, of which the second may be missing. -/
def handle? (c : Cursor) : Option ScannedText :=
  if c.peek? != some '!' then none
  else
    let (name, c) := c.skip.span isNameChar
    if c.peek? == some '!' then some ('!' :: (name ++ ['!']), c.skip) else some ('!' :: name, c)

def uriMarks : List Char :=
  [';', '/', '?', ':', '@', '&', '=', '+', '$', '.', '%', '!', '~', '*', '\'', '(', ')']

def isUriChar (flowMarks : Bool) (c : Char) : Bool :=
  isNameChar c || uriMarks.contains c || (flowMarks && (c == ',' || c == '[' || c == ']'))

/-- The bytes of a URI of at most `n` characters. -/
def uri? (flowMarks : Bool) : (n : Nat) → Cursor → Option (List UInt8 × Cursor)
  | 0, c => some ([], c)
  | n + 1, c =>
    match c.peek? with
    | none => some ([], c)
    | some b =>
      if !isUriChar flowMarks b then some ([], c)
      else if b == '%' then
        (Tag.escapedBytes? c.rest).bind fun (found, rest) =>
          (uri? flowMarks n (c.skip (c.rest.length - rest.length))).map fun (bytes, c) =>
            (found ++ bytes, c)
      else (uri? flowMarks n c.skip).map fun (bytes, c) => (b.toNat.toUInt8 :: bytes, c)

def nonemptyUri? (flowMarks : Bool) (c : Cursor) : Option (Tag × Cursor) :=
  (uri? flowMarks c.rest.length c).bind fun (bytes, after) =>
    if bytes.isEmpty then none else some (Tag.visible bytes, after)

def tagDirective? (c : Cursor) : Option (Token × Cursor) :=
  (handle? (c.skipWhile isBlank)).bind fun (handle, c) =>
    if handle.length ≠ 1 ∧ handle.getLast? ≠ some '!' then none
    else if !c.peek?.any isBlank then none
    else
      (nonemptyUri? true (c.skipWhile isBlank)).bind fun (expansion, c) =>
        if endsWord c.peek? then
          some (.tagDirective (String.ofList handle) expansion, c)
        else none

def directive? (c : Cursor) : Option (Token × Cursor) :=
  let (name, c) := c.span isNameChar
  if name.isEmpty || !endsWord c.peek? then none
  else
    match String.ofList name with
    | "YAML" => versionDirective? c
    | "TAG" => tagDirective? c
    | _ => none

def fetchDirective? (s : Scanner) : Option Scanner :=
  s.atLineStart?.bind fun s =>
    (directive? s.place.skip).bind fun (t, c) =>
      c.finishLine?.map fun c => { s.emit t with place := c }

def fetchFlowStart? (s : Scanner) (t : Token) : Option Scanner :=
  s.saveKey?.map fun s => ({ s with flowKeys := none :: s.flowKeys, keyAllowed := true }.skip).emit t

def fetchFlowEnd? (s : Scanner) (t : Token) : Option Scanner :=
  s.dropKey?.map fun s => ({ s with flowKeys := s.flowKeys.tail, keyAllowed := false }.skip).emit t

def fetchFlowEntry? (s : Scanner) : Option Scanner :=
  s.dropKey?.map fun s => ((s.allowKey true).skip).emit .flowEntry

/-- Opens a block collection at an indicator, which must stand where a key could. -/
def openBlock? (s : Scanner) (t : Token) : Option Scanner :=
  if s.inFlow then some s
  else if s.keyAllowed then some (s.indent s.place.column s.tokens.length t)
  else none

def fetchBlockEntry? (s : Scanner) : Option Scanner :=
  ((s.openBlock? .blockSequenceStart).bind dropKey?).map fun s =>
    ((s.allowKey true).skip).emit .blockEntry

def fetchKey? (s : Scanner) : Option Scanner :=
  ((s.openBlock? .blockMappingStart).bind dropKey?).map fun s =>
    ((s.allowKey (!s.inFlow)).skip).emit .key

/-- A colon makes what could be a key one. -/
def fetchValue? (s : Scanner) : Option Scanner :=
  match s.keyStart with
  | some k =>
    let s := (s.insertAt k.number .key).indent k.place.column k.number .blockMappingStart
    some ((((s.setKeyStart none).allowKey false).skip).emit .value)
  | none =>
    (s.openBlock? .blockMappingStart).map fun s => ((s.allowKey (!s.inFlow)).skip).emit .value

/-- Runs a scan from here and emits its token, which could be a key. -/
def fetchScanned? (s : Scanner) (scan : Cursor → Option (Token × Cursor)) : Option Scanner :=
  s.saveKey?.bind fun s =>
    (scan s.place).map fun (t, c) => { (s.allowKey false).emit t with place := c }

def anchorName? (c : Cursor) : Option (String × Cursor) :=
  let (name, c) := c.skip.span isNameChar
  let ends := c.peek?.all fun b =>
    isBlank b || isBreak b || ['?', ':', ',', ']', '\x7d', '%', '@', '\x60'].contains b
  if name.isEmpty || !ends then none else some (String.ofList name, c)

def tagParts? (c : Cursor) : Option (String × Tag × Cursor) :=
  if c.ahead? 1 == some '<' then
    (nonemptyUri? true (c.skip 2)).bind fun (ending, c) =>
      if c.peek? == some '>' then some ("", ending, c.skip) else none
  else
    (handle? c).bind fun (handle, c) =>
      if 1 < handle.length && handle.getLast? == some '!' then
        (nonemptyUri? false c).map fun (ending, c) => (String.ofList handle, ending, c)
      else
        (uri? false c.rest.length c).map fun (bytes, c) =>
          let ending := Tag.ofString (String.ofList handle.tail) ++ Tag.visible bytes
          if ending.isEmpty then ("", Tag.ofString "!", c) else ("!", ending, c)

def tag? (inFlow : Bool) (c : Cursor) : Option (Token × Cursor) :=
  (tagParts? c).bind fun (handle, ending, c) =>
    if endsWord c.peek? || (inFlow && c.peek? == some ',') then
      some (.tag handle ending, c)
    else none

def quoted? (single : Bool) (c : Cursor) : Option (Token × Cursor) :=
  (Quoted.scan? single c).map fun (text, c) => (.scalar (String.ofList text) false, c)

def fetchBlockScalar? (s : Scanner) (literal : Bool) : Option Scanner :=
  s.dropKey?.bind fun s =>
    (Block.scan? literal s.indents.head? s.place).map fun (text, c) =>
      { (s.allowKey true).emit (.scalar (String.ofList text) false) with place := c }

/-- A plain scalar; if it ends with its line, a key could start after it. -/
def fetchPlain? (s : Scanner) : Option Scanner :=
  s.saveKey?.bind fun s =>
    (Plain.scan? s.inFlow ((s.indents.head?.map (· + 1)).getD 0) s.place).map
      fun ((text, c), lineEnded) =>
        { (s.allowKey lineEnded).emit (.scalar (String.ofList text) true) with place := c }

def indicators : List Char :=
  ['-', '?', ':', ',', '[', ']', '\x7b', '\x7d', '#', '&', '*', '!', '|', '>', '\'', '"', '%', '@',
    '\x60']

def startsPlain (s : Scanner) (b : Char) : Bool :=
  !(isBlank b || isBreak b || indicators.contains b) ||
    (b == '-' && !(s.place.ahead? 1).any isBlank) ||
    (!s.inFlow && (b == '?' || b == ':') && !endsWord (s.place.ahead? 1))

/-- Reads the token at a character that is neither blank nor break. -/
def fetchAt? (s : Scanner) (b : Char) : Option Scanner :=
  let ended := endsWord (s.place.ahead? 1)
  if s.place.column == 0 && b == '%' then s.fetchDirective?
  else if s.place.isDocumentMark '-' then s.fetchDocumentMark? .documentStart
  else if s.place.isDocumentMark '.' then s.fetchDocumentMark? .documentEnd
  else if b == '[' then s.fetchFlowStart? .flowSequenceStart
  else if b == '\x7b' then s.fetchFlowStart? .flowMappingStart
  else if b == ']' then s.fetchFlowEnd? .flowSequenceEnd
  else if b == '\x7d' then s.fetchFlowEnd? .flowMappingEnd
  else if b == ',' then s.fetchFlowEntry?
  else if b == '-' && ended then s.fetchBlockEntry?
  else if b == '?' && (s.inFlow || ended) then s.fetchKey?
  else if b == ':' && (s.inFlow || ended) then s.fetchValue?
  else if b == '*' then s.fetchScanned? fun c => (anchorName? c).map fun (n, c) => (.reference n, c)
  else if b == '&' then s.fetchScanned? fun c => (anchorName? c).map fun (n, c) => (.anchor n, c)
  else if b == '!' then s.fetchScanned? (tag? s.inFlow)
  else if b == '|' && !s.inFlow then s.fetchBlockScalar? true
  else if b == '>' && !s.inFlow then s.fetchBlockScalar? false
  else if b == '\'' then s.fetchScanned? (quoted? true)
  else if b == '"' then s.fetchScanned? (quoted? false)
  else if s.startsPlain b then s.fetchPlain?
  else none

/-- Reads at most `n` further tokens, to the end of the text. -/
def run? : (n : Nat) → Scanner → Option Scanner
  | 0, _ => none
  | n + 1, s =>
    let s := s.skipToToken (s.place.rest.length + 1)
    s.dropStaleKeys?.bind fun s =>
      let s := s.dedent (some s.place.column)
      match s.place.peek? with
      | none => s.fetchStreamEnd?
      | some b => (s.fetchAt? b).bind (run? n)

end Scanner

def Token.ofText? (text : String) : Option (List Token) :=
  let chars := text.toList
  if chars.all isAllowed then
    (Scanner.run? (chars.length + 1) { place := .start chars }).map fun s => s.tokens.reverse
  else none

end DatasetCatalog.Yaml
