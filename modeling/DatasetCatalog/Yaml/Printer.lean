import DatasetCatalog.Yaml.Cursor
import DatasetCatalog.Yaml.Schema

/-!
# YAML text of a value

Collections are written as blocks, two columns deeper per level; a sequence below a key starts in the
column of the key. A text is plain if it reads back as that text, else it is quoted, and a text with
line breaks is a literal block. Only texts that hold what cannot stand in a document, or blanks beside
line breaks, need escapes.
-/

namespace DatasetCatalog.Yaml

def isPrintable (c : Char) : Bool :=
  c == '\n' || (' ' ≤ c && c ≤ '~') ||
    ('\u00a0' ≤ c && c ≠ '\ufeff' && c ≠ '\ufffe' && c ≠ '\uffff')

def hasPair (first second : Char → Bool) : List Char → Bool
  | a :: b :: rest => (first a && second b) || hasPair first second (b :: rest)
  | _ => false

def isSpace (c : Char) : Bool := c == ' '

/-- A comment, or the end of a key, after the character `before`. -/
def hasLaterIndicator : (before : Char) → List Char → Bool
  | _, [] => false
  | before, c :: rest =>
    (c == ':' && endsWord rest.head?) || (c == '#' && endsWord (some before)) ||
      hasLaterIndicator c rest

/-- What cannot start a plain scalar, wherever it stands. -/
def leadingIndicators : List Char :=
  ['#', ',', '[', ']', '\x7b', '\x7d', '&', '*', '!', '|', '>', '\'', '"', '%', '@', '\x60']

def hasIndicator (text : List Char) : Bool :=
  ["---", "..."].any (fun mark => mark.toList.isPrefixOf text) ||
    match text with
    | [] => false
    | c :: rest =>
      leadingIndicators.contains c || (['?', ':', '-'].contains c && endsWord rest.head?) ||
        hasLaterIndicator c rest

def isAmbiguous (text : String) : Bool :=
  let unsigned := match text.toList with
    | '-' :: rest | '+' :: rest => rest
    | rest => rest
  hasNeedlessZero unsigned ||
    match plainValue? text with
    | some (.text _) => false
    | _ => true

inductive ScalarStyle
  | plain
  | singleQuoted
  | doubleQuoted
  | literal
deriving DecidableEq

namespace ScalarStyle

def ofText (text : String) : ScalarStyle :=
  let chars := text.toList
  let printable := chars.all isPrintable
  let isBroken := chars.any isBreak
  let endsInSpace := chars.getLast?.any isSpace
  let spaceBreak := hasPair isSpace isBreak chars
  if chars.contains '\n' then
    if printable && !endsInSpace && !spaceBreak then .literal else .doubleQuoted
  else if !isAmbiguous text && printable && !isBroken && !chars.head?.any isSpace && !endsInSpace &&
      !hasIndicator chars then .plain
  else if printable && !spaceBreak && !hasPair isBreak isSpace chars then .singleQuoted
  else .doubleQuoted

end ScalarStyle

def spaces (n : Nat) : List Char := List.replicate n ' '

/-- Moves what follows a line break to the column `indent`. -/
def indentLines (indent : Nat) : (broken : Bool) → List Char → List Char
  | _, [] => []
  | broken, c :: rest =>
    if isBreak c then c :: indentLines indent true rest
    else (if broken then spaces indent else []) ++ c :: indentLines indent false rest

def escapeText (c : Char) : List Char :=
  match c with
  | '\x00' => ['0']
  | '\x07' => ['a']
  | '\x08' => ['b']
  | '\t' => ['t']
  | '\n' => ['n']
  | '\x0b' => ['v']
  | '\x0c' => ['f']
  | '\r' => ['r']
  | '\x1b' => ['e']
  | '"' => ['"']
  | '\\' => ['\\']
  | '\u0085' => ['N']
  | '\u2028' => ['L']
  | '\u2029' => ['P']
  | c =>
    let hex := fun (width : Nat) => (Text.hexChars width c.toNat).map Char.toUpper
    if c.toNat ≤ 0xff then 'x' :: hex 2 else if c.toNat ≤ 0xffff then 'u' :: hex 4 else 'U' :: hex 8

def escapeChar (c : Char) : List Char :=
  if isPrintable c && !isBreak c && c ≠ '"' && c ≠ '\\' then [c] else '\\' :: escapeText c

/-- How a literal block ends: `-` drops the last line break, which the text lacks, and `+` keeps
several. -/
def chomping (text : List Char) : List Char :=
  match text.reverse with
  | [] => ['-']
  | [c] => if isBreak c then ['+'] else ['-']
  | c :: b :: _ => if isBreak c then if isBreak b then ['+'] else [] else ['-']

/-- A text with its further lines in the column `indent`, and the end of its last line. -/
def textLines (indent : Nat) (text : String) : List Char :=
  let chars := text.toList
  let endsLine := chars.getLast?.any isBreak
  match ScalarStyle.ofText text with
  | .plain => chars ++ ['\n']
  | .singleQuoted =>
    let doubled := chars.flatMap fun c => if c == '\'' then ['\'', '\''] else [c]
    '\'' :: (indentLines indent false doubled ++ (if endsLine then spaces indent else []) ++ ['\'', '\n'])
  | .doubleQuoted => '"' :: (chars.flatMap escapeChar ++ ['"', '\n'])
  | .literal =>
    let isDeeper := chars.head?.any fun c => isSpace c || isBreak c
    '|' :: ((if isDeeper then ['2'] else []) ++ chomping chars ++
      '\n' :: (indentLines indent true chars ++ if endsLine then [] else ['\n']))

def scalarLines (indent : Nat) : Value → List Char
  | .null => "null\n".toList
  | .boolean true => "true\n".toList
  | .boolean false => "false\n".toList
  | .number n => NumberFormat.record.chars n ++ ['\n']
  | .text s => textLines indent s
  | .sequence _ => ['[', ']', '\n']
  | .mapping _ => ['\x7b', '\x7d', '\n']

/-- Whether a key stands on the line of its value, which it does unless it is long or broken. -/
def isSimpleKey (key : String) : Bool := !key.toList.any isBreak && key.utf8ByteSize ≤ 128

def keyLines (indent : Nat) (key : String) : List Char :=
  if isSimpleKey key then (textLines indent key).dropLast ++ [':']
  else '?' :: ' ' :: (textLines (indent + 2) key ++ spaces indent ++ [':', ' '])

/-- What stands before a block: one below a key starts on a new line. -/
def startBlock (belowKey : Bool) (column : Nat) : List Char :=
  if belowKey then '\n' :: spaces column else []

mutual

/-- A value in the column `indent`, or below a key in the column two less. -/
def valueLines (belowKey : Bool) (indent : Nat) : Value → List Char
  | .sequence (v :: rest) =>
    let column := if belowKey then indent - 2 else indent
    startBlock belowKey column ++ '-' :: ' ' :: valueLines false (column + 2) v ++ itemLines column rest
  | .mapping ((k, v) :: rest) =>
    startBlock belowKey indent ++ keyLines indent k ++ valueLines (isSimpleKey k) (indent + 2) v ++
      fieldLines indent rest
  | v => (if belowKey then [' '] else []) ++ scalarLines indent v

def itemLines (indent : Nat) : List Value → List Char
  | [] => []
  | v :: rest =>
    spaces indent ++ '-' :: ' ' :: valueLines false (indent + 2) v ++ itemLines indent rest

def fieldLines (indent : Nat) : List (String × Value) → List Char
  | [] => []
  | (k, v) :: rest =>
    spaces indent ++ keyLines indent k ++ valueLines (isSimpleKey k) (indent + 2) v ++
      fieldLines indent rest

end

def block (v : Value) : String :=
  String.ofList <| match v with
    | .sequence _ | .mapping _ => valueLines false 0 v
    | v => scalarLines 2 v

end DatasetCatalog.Yaml
