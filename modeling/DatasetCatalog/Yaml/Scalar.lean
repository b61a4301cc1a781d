import DatasetCatalog.Text.Basic
import DatasetCatalog.Yaml.Cursor

/-!
# Scalars of a YAML text

A scalar is plain, quoted or a block. Plain and quoted scalars are words with gaps between them: a
gap on one line stays as it is, one over several lines is folded to a space or to its further line
breaks. Blocks are read line by line.
-/

namespace DatasetCatalog.Yaml

/-- Blanks and line breaks between two words. -/
structure Gap where
  /-- Whether a line has ended. -/
  folded : Bool := false
  /-- The blanks before the end of the line. -/
  blanks : List Char := []
  /-- The first line break. -/
  leading : List Char := []
  /-- Further line breaks. -/
  trailing : List Char := []

namespace Gap

/-- Two parts of a scalar are joined by a line break, unless it is an ordinary one: that is a space,
or nothing if further breaks follow. -/
def fold (leading trailing : List Char) : List Char :=
  if leading.head? == some '\n' then if trailing.isEmpty then [' '] else trailing
  else leading ++ trailing

def text (g : Gap) : List Char := if g.folded then fold g.leading g.trailing else g.blanks

/-- Moves over at most `n` blanks and breaks. On a further line, a tab left of column `indent` is
refused. -/
def scan? (indent : Nat) : (n : Nat) → Cursor → Gap → Option (Gap × Cursor)
  | 0, c, g => some (g, c)
  | n + 1, c, g =>
    match c.peek? with
    | none => some (g, c)
    | some b =>
      if isBlank b then
        if g.folded && b == '\t' && c.column < indent then none
        else scan? indent n c.skip (if g.folded then g else { g with blanks := g.blanks ++ [b] })
      else if isBreak b then
        scan? indent n c.skipBreak
          (if g.folded then { g with trailing := g.trailing ++ c.breakText }
          else { folded := true, leading := c.breakText })
      else some (g, c)

end Gap

abbrev ScannedText := List Char × Cursor

namespace Plain

def flowMarks : List Char := [',', '[', ']', '\x7b', '\x7d']

/-- The word at the start of a text; nothing if a colon stands before a mark of a flow collection. -/
def word? (flow : Bool) : List Char → Option (List Char)
  | [] => some []
  | c :: rest =>
    if isBlank c || isBreak c then some []
    else if flow && c == ':' && rest.head?.any fun d => d == '?' || flowMarks.contains d then none
    else if c == ':' && endsWord rest.head? then some []
    else if flow && flowMarks.contains c then some []
    else (word? flow rest).map (c :: ·)

/-- Words and the gaps between them. Also whether a line has ended after the last word. -/
def words? (flow : Bool) (indent : Nat) :
    (n : Nat) → Cursor → (text : List Char) → Gap → Option (ScannedText × Bool)
  | 0, c, text, g => some ((text, c), g.folded)
  | n + 1, c, text, g =>
    if c.isAnyDocumentMark || c.peek? == some '#' then some ((text, c), g.folded)
    else
      (word? flow c.rest).bind fun word =>
        let after := c.skip word.length
        let (text, g) := if word.isEmpty then (text, g) else (text ++ g.text ++ word, {})
        if after.peek?.any fun b => isBlank b || isBreak b then
          (Gap.scan? indent after.rest.length after {}).bind fun (g, next) =>
            if !flow && next.column < indent then some ((text, next), g.folded)
            else words? flow indent n next text g
        else some ((text, after), g.folded)

/-- The plain scalar at a place, all of it from column `indent` on unless in a flow collection. -/
def scan? (flow : Bool) (indent : Nat) (c : Cursor) : Option (ScannedText × Bool) :=
  words? flow indent (c.rest.length + 1) c [] {}

end Plain

namespace Quoted

/-- Where a word of a quoted scalar ends. -/
inductive WordEnd
  | quote
  | gap
  /-- An escaped line break. -/
  | escapedBreak

structure Word where
  text : List Char
  length : Nat
  finish : WordEnd

def Word.prepend (text : List Char) (length : Nat) (w : Word) : Word :=
  { w with text := text ++ w.text, length := length + w.length }

def singleWord : List Char → Word
  | '\'' :: '\'' :: rest => (singleWord rest).prepend ['\''] 2
  | '\'' :: _ => ⟨[], 0, .quote⟩
  | c :: rest =>
    if isBlank c || isBreak c then ⟨[], 0, .gap⟩ else (singleWord rest).prepend [c] 1
  | [] => ⟨[], 0, .gap⟩

def escapes : List (Char × Char) :=
  [('0', '\x00'), ('a', '\x07'), ('b', '\x08'), ('t', '\t'), ('\t', '\t'), ('n', '\n'), ('v', '\x0b'),
    ('f', '\x0c'), ('r', '\r'), ('e', '\x1b'), (' ', ' '), ('"', '"'), ('/', '/'), ('\\', '\\'),
    ('N', '\u0085'), ('_', '\u00a0'), ('L', '\u2028'), ('P', '\u2029')]

def digitsAfter? : Char → Option Nat
  | 'x' => some 2
  | 'u' => some 4
  | 'U' => some 8
  | _ => none

def charOfCode? (n : Nat) : Option Char := if n.isValidChar then some (Char.ofNat n) else none

/-- The escape after a backslash: its character and its length. -/
def escape? : List Char → Option (Char × Nat)
  | [] => none
  | c :: rest =>
    match digitsAfter? c with
    | none => (escapes.lookup c).map fun d => (d, 1)
    | some width =>
      if rest.length < width then none
      else
        ((rest.take width).mapM Text.hexValue?).bind fun digits =>
          (charOfCode? (digits.foldl (fun n d => n * 16 + d) 0)).map fun d => (d, width + 1)

def doubleWord? : (n : Nat) → List Char → Option Word
  | 0, _ => some ⟨[], 0, .gap⟩
  | n + 1, text =>
    match text with
    | [] => some ⟨[], 0, .gap⟩
    | '"' :: _ => some ⟨[], 0, .quote⟩
    | '\\' :: rest =>
      if rest.head?.any isBreak then some ⟨[], 0, .escapedBreak⟩
      else
        (escape? rest).bind fun (c, length) =>
          (doubleWord? n (rest.drop length)).map (Word.prepend [c] (length + 1))
    | c :: rest =>
      if isBlank c || isBreak c then some ⟨[], 0, .gap⟩
      else (doubleWord? n rest).map (Word.prepend [c] 1)

def word? (single : Bool) (text : List Char) : Option Word :=
  if single then some (singleWord text) else doubleWord? (text.length + 1) text

/-- Words and gaps up to the closing quote. -/
def words? (single : Bool) : (n : Nat) → Cursor → (text : List Char) → Option ScannedText
  | 0, _, _ => none
  | n + 1, c, text =>
    if c.isAnyDocumentMark || c.rest.isEmpty then none
    else
      (word? single c.rest).bind fun word =>
        let text := text ++ word.text
        let after := c.skip word.length
        match word.finish with
        | .quote => some (text, after.skip)
        | .gap =>
          (Gap.scan? 0 after.rest.length after {}).bind fun (g, next) =>
            words? single n next (text ++ g.text)
        | .escapedBreak =>
          let next := after.skip.skipBreak
          (Gap.scan? 0 next.rest.length next { folded := true }).bind fun (g, next) =>
            words? single n next (text ++ g.text)

/-- The quoted scalar at a place, which is at the opening quote. -/
def scan? (single : Bool) (c : Cursor) : Option ScannedText :=
  words? single (c.rest.length + 1) c.skip []

end Quoted

namespace Block

/-- What becomes of the line breaks at the end. -/
inductive Chomping
  | strip
  | clip
  | keep
deriving DecidableEq

def chomping? : Char → Option Chomping
  | '+' => some .keep
  | '-' => some .strip
  | _ => none

def increment? (c : Char) : Option Nat :=
  if c.isDigit && c != '0' then some (c.toNat - '0'.toNat) else none

/-- The chomping and the indentation that the first line asks for, in either order. -/
def header? (c : Cursor) : Option (Chomping × Option Nat × Cursor) :=
  let (chomping, c) := match c.peek?.bind chomping? with
    | some k => (some k, c.skip)
    | none => (none, c)
  if c.peek? == some '0' then none
  else
    let (increment, c) := match c.peek?.bind increment? with
      | some n => (some n, c.skip)
      | none => (none, c)
    let (chomping, c) := match chomping, increment, c.peek?.bind chomping? with
      | none, some _, some k => (some k, c.skip)
      | k, _, _ => (k, c)
    some (chomping.getD .clip, increment, c)

/-- Empty lines and indentation up to a line with content: the breaks, the widest indentation, and
the place. Without an `indent` every space counts as indentation. -/
def emptyLines? (indent : Option Nat) :
    (n : Nat) → Cursor → (breaks : List Char) → (widest : Nat) → Option (List Char × Nat × Cursor)
  | 0, c, breaks, widest => some (breaks, widest, c)
  | n + 1, c, breaks, widest =>
    let spaces := c.rest.takeWhile (· == ' ')
    let c := c.skip (match indent with
      | none => spaces.length
      | some i => min spaces.length (i - c.column))
    let widest := max widest c.column
    if c.peek? == some '\t' && indent.all fun i => c.column < i then none
    else if c.peek?.any isBreak then
      emptyLines? indent n c.skipBreak (breaks ++ c.breakText) widest
    else some (breaks, widest, c)

structure Lines where
  text : List Char := []
  /-- The break after the last line. -/
  leading : List Char := []
  /-- The empty lines after it. -/
  trailing : List Char := []
  /-- Whether the last line starts with a blank. -/
  blank : Bool := false

/-- Appends a line. In a folded block a single ordinary break between two lines that start with no
blank becomes a space. -/
def Lines.append (literal : Bool) (l : Lines) (line : List Char) : Lines :=
  let blank := line.head?.any isBlank
  let joint :=
    if !literal && l.leading.head? == some '\n' && !l.blank && !blank then
      if l.trailing.isEmpty then [' '] else l.trailing
    else l.leading ++ l.trailing
  { l with text := l.text ++ joint ++ line, blank }

def lines? (literal : Bool) (indent : Nat) : (n : Nat) → Cursor → Lines → Option (Lines × Cursor)
  | 0, c, l => some (l, c)
  | n + 1, c, l =>
    if c.column == indent && !c.rest.isEmpty then
      let (line, after) := c.span fun b => !isBreak b
      let next := after.skipBreak
      (emptyLines? (some indent) (next.rest.length + 1) next [] 0).bind fun (trailing, _, next) =>
        lines? literal indent n next
          { l.append literal line with leading := after.breakText, trailing }
    else some (l, c)

def Lines.chomp (l : Lines) : Chomping → List Char
  | .strip => l.text
  | .clip => l.text ++ l.leading
  | .keep => l.text ++ l.leading ++ l.trailing

/-- The block scalar at a place, which is at its indicator, inside a collection that starts in column
`parent`. Unless its first line says how far it is indented, its first line with content does. -/
def scan? (literal : Bool) (parent : Option Nat) (c : Cursor) : Option ScannedText :=
  (header? c.skip).bind fun (chomping, increment, c) =>
    c.finishLine?.bind fun c =>
      let given := increment.map fun n => parent.getD 0 + n
      (emptyLines? given (c.rest.length + 1) c [] 0).bind fun (trailing, widest, c) =>
        let least := max 1 ((parent.map (· + 1)).getD 0)
        let indent := given.getD (max widest least)
        (lines? literal indent (c.rest.length + 1) c { trailing }).map fun (l, c) =>
          (l.chomp chomping, c)

end Block

end DatasetCatalog.Yaml
