import DatasetCatalog.Text.Basic
import DatasetCatalog.Value.Basic
import DatasetCatalog.Yaml.Tag

/-!
# What a YAML scalar stands for

A plain scalar may be null, a boolean, an integer in base ten, sixteen, eight or two, or a decimal
number; anything else is text, and so is a number that starts with a needless zero. An integer of
more than 64 bits is refused. Infinite numbers and those that are none become null.
-/

namespace DatasetCatalog.Yaml

def isNull (text : String) : Bool := ["null", "Null", "NULL", "~"].contains text

def boolean? (text : String) : Option Bool :=
  if ["true", "True", "TRUE"].contains text then some true
  else if ["false", "False", "FALSE"].contains text then some false
  else none

def digitOf? (base : Nat) (c : Char) : Option Nat := (Text.hexValue? c).filter fun d => d < base

def natural? (base : Nat) (digits : List Char) : Option Nat :=
  if digits.isEmpty then none
  else (digits.mapM (digitOf? base)).map fun ds => ds.foldl (fun n d => n * base + d) 0

/-- Whether these are two digits or more of which the first is zero. -/
def hasNeedlessZero (unsigned : List Char) : Bool :=
  unsigned.head? == some '0' && 1 < unsigned.length && unsigned.all Char.isDigit

def magnitude? : List Char → Option Nat
  | '0' :: 'x' :: digits => natural? 16 digits
  | '0' :: 'o' :: digits => natural? 8 digits
  | '0' :: 'b' :: digits => natural? 2 digits
  | digits => if hasNeedlessZero digits then none else natural? 10 digits

/-- An integer, if the text is one of at most 128 bits; it may still be too large to be a number. -/
def integer? (text : List Char) : Option Int :=
  match text with
  | '-' :: digits => (magnitude? digits).bind fun n => if n ≤ Nat.pow 2 127 then some (-(n : Int)) else none
  | '+' :: digits => (magnitude? digits).bind fun n => if n < Nat.pow 2 128 then some n else none
  | digits => (magnitude? digits).bind fun n => if n < Nat.pow 2 128 then some n else none

/-- The parts of a decimal number without a sign: digits and the power of ten that they count. -/
def decimal? (text : List Char) : Option (List Char × Int) :=
  let whole := text.takeWhile Char.isDigit
  let (fraction, rest) := match text.dropWhile Char.isDigit with
    | '.' :: rest => (rest.takeWhile Char.isDigit, rest.dropWhile Char.isDigit)
    | rest => ([], rest)
  if whole.isEmpty && fraction.isEmpty then none
  else
    let digits := whole ++ fraction
    let scaled := fun (e : Int) => some (digits, e - fraction.length)
    match rest with
    | [] => scaled 0
    | e :: rest =>
      if e ≠ 'e' && e ≠ 'E' then none
      else
        let (down, rest) := match rest with
          | '-' :: rest => (true, rest)
          | '+' :: rest => (false, rest)
          | rest => (false, rest)
        (natural? 10 rest).bind fun n => scaled (if down then -n else n)

def float? (text : List Char) : Option Value :=
  let specials := [".inf", ".Inf", ".INF"].map String.toList
  let (negative, unsigned) := match text with
    | '-' :: rest => (true, rest)
    | '+' :: rest => (false, rest)
    | rest => (false, rest)
  if specials.contains unsigned || ([".nan", ".NaN", ".NAN"].map String.toList).contains text then
    some .null
  else
    (decimal? unsigned).bind fun (digits, scale) =>
      (Binary64.ofDecimal? negative (Text.decimalValue digits) scale).map fun x => .number (.float x)

/-- The value of a plain scalar without a tag. -/
def plainValue? (text : String) : Option Value :=
  let chars := text.toList
  let unsigned := match chars with
    | '-' :: rest | '+' :: rest => rest
    | rest => rest
  if chars.isEmpty || isNull text then some .null
  else
    match boolean? text with
    | some b => some (.boolean b)
    | none =>
      match integer? chars with
      | some n => (Number.ofInt? n).map .number
      | none =>
        if hasNeedlessZero unsigned then some (.text text) else (float? chars).getD (.text text)

/-- The value of a scalar. Tags of the core schema must hold. The application's own are not known, so
that a scalar that carries one is refused; a mere `!` is such a tag, it is not dropped. One that
starts like these but is no text has no meaning, and any other makes a text. -/
def scalarValue? (tag : Option Tag) (text : String) (plain : Bool) : Option Value :=
  match tag with
  | none => if plain then plainValue? text else some (.text text)
  | some t =>
    if t.isLocal then none
    else if t == Tag.core "bool" then (boolean? text).map .boolean
    else if t == Tag.core "int" then ((integer? text.toList).bind Number.ofInt?).map .number
    else if t == Tag.core "float" then float? text.toList
    else if t == Tag.core "null" then if isNull text then some .null else none
    else if t.startsLocal && plain then plainValue? text
    else some (.text text)

end DatasetCatalog.Yaml
