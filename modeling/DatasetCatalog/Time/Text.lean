import DatasetCatalog.Text.Basic
import DatasetCatalog.Time.Timestamp

/-!
# Timestamps as text

Timestamps are written in RFC 3339 form in universal time, with 0, 3, 6 or 9 fraction digits, the
fewest that lose nothing; a year outside four digits carries its sign. Reading is more lenient: blanks
around the parts, unpadded numbers, a blank for the `T`, any offset, and signed years of any length.
-/

namespace DatasetCatalog.Timestamp

open Text (decimalChars decimalValue trimStart isBlank)

def yearChars (year : Int) : List Char :=
  if 0 ≤ year ∧ year ≤ 9999 then decimalChars 4 year.toNat
  else
    let digits := Nat.toDigits 10 year.natAbs
    (if year < 0 then '-' else '+') :: (List.replicate (4 - digits.length) '0' ++ digits)

def fractionChars (nano : Nat) : List Char :=
  if nano = 0 then []
  else if nano % 1000000 = 0 then '.' :: decimalChars 3 (nano / 1000000)
  else if nano % 1000 = 0 then '.' :: decimalChars 6 (nano / 1000)
  else '.' :: decimalChars 9 nano

def chars (t : Timestamp) : List Char :=
  let date := Time.Date.ofDays t.day
  let second := t.second % 60 + t.nano / nanosPerSecond
  yearChars date.year ++ '-' :: decimalChars 2 date.month ++ '-' :: decimalChars 2 date.day ++
    'T' :: decimalChars 2 (t.second / 3600) ++ ':' :: decimalChars 2 (t.second / 60 % 60) ++
    ':' :: decimalChars 2 second ++ fractionChars (t.nano % nanosPerSecond) ++ ['Z']

def text (t : Timestamp) : String := String.ofList t.chars

/-- A number of at most `width` digits at the start of a text, and what follows it. -/
def number? (width : Nat) (text : List Char) : Option (Nat × List Char) :=
  let digits := (text.take width).takeWhile Char.isDigit
  if digits = [] then none else some (decimalValue digits, text.drop digits.length)

def field? (text : List Char) : Option (Nat × List Char) := number? 2 (trimStart text)

/-- A year after blanks: four digits, or a sign and any number of digits. -/
def year? (text : List Char) : Option (Int × List Char) :=
  match trimStart text with
  | '-' :: rest => (number? rest.length rest).map fun (n, rest) => (-n, rest)
  | '+' :: rest => (number? rest.length rest).map fun (n, rest) => (n, rest)
  | rest => (number? 4 rest).map fun (n, rest) => (n, rest)

def literal? (c : Char) : List Char → Option (List Char)
  | d :: rest => if c = d then some rest else none
  | [] => none

def separator? (c : Char) (text : List Char) : Option (List Char) := literal? c (trimStart text)

/-- The nanoseconds of an optional fraction; digits after the ninth do not count. -/
def fraction? : List Char → Option (Nat × List Char)
  | '.' :: rest =>
    let digits := rest.takeWhile Char.isDigit
    if digits = [] then none
    else
      let kept := digits.take 9
      some (decimalValue kept * Nat.pow 10 (9 - kept.length), rest.dropWhile Char.isDigit)
  | rest => some (0, rest)

def twoDigits? : List Char → Option (Nat × List Char)
  | a :: b :: rest => if a.isDigit && b.isDigit then some (decimalValue [a, b], rest) else none
  | _ => none

/-- The offset from universal time in seconds. -/
def offset? (text : List Char) : Option (Int × List Char) :=
  let clock (sign : Int) (rest : List Char) : Option (Int × List Char) := do
    let (hours, rest) ← twoDigits? rest
    let (minutes, rest) ← twoDigits? (rest.dropWhile fun c => c == ':' || isBlank c)
    if minutes < 60 then some (sign * ((hours * 3600 + minutes * 60 : Nat) : Int), rest) else none
  if (text.take 3).map Char.toUpper = ['U', 'T', 'C'] then some (0, text.drop 3)
  else
    match text with
    | 'Z' :: rest | 'z' :: rest => some (0, rest)
    | '+' :: rest => clock 1 rest
    | '-' :: rest | '−' :: rest => clock (-1) rest
    | _ => none

/-- Reads a text that is a timestamp and nothing else. -/
def parse? (text : String) : Option Timestamp := do
  let (year, rest) ← year? text.toList
  let (month, rest) ← field? (← separator? '-' rest)
  let (day, rest) ← field? (← separator? '-' rest)
  let rest ← match rest with
    | c :: rest => if c = 'T' ∨ c = 't' ∨ c = ' ' then some rest else none
    | [] => none
  let (hour, rest) ← field? rest
  let (minute, rest) ← field? (← separator? ':' rest)
  let (second, rest) ← field? (← separator? ':' rest)
  let (nano, rest) ← fraction? rest
  let (offset, rest) ← offset? (trimStart rest)
  let date : Time.Date := ⟨year, month, day⟩
  let known := date.isValid && decide (hour < 24) && decide (minute < 60) && decide (second ≤ 60) &&
    decide (offset.natAbs < secondsPerDay) && (trimStart rest).isEmpty
  let localDay := date.toDays
  if known ∧ firstDay ≤ localDay ∧ localDay ≤ lastDay then
    let inLeap := second == 60
    let seconds : Int := (hour * 3600 + minute * 60 + (if inLeap then 59 else second) : Nat)
    ofSeconds? localDay (seconds - offset) (if inLeap then nano + nanosPerSecond else nano)
  else none

/-- What is wrong with a text that is no timestamp. -/
inductive Refusal
  | tooShort
  | invalid
  | outOfRange
  | tooLong
deriving DecidableEq

def Refusal.message : Refusal → String
  | .tooShort => "premature end of input"
  | .invalid => "input contains invalid characters"
  | .outOfRange => "input is out of range"
  | .tooLong => "trailing input"

/-- What was read at the start of a text, or why it could not be. -/
def orRefuse {α : Type} (text : List Char) : Option α → Except Refusal α
  | some a => .ok a
  | none => .error (if text.isEmpty then .tooShort else .invalid)

/-- A number after blanks that lies between two others. -/
def fieldWithin (least greatest : Nat) (text : List Char) : Except Refusal (List Char) := do
  let (n, rest) ← orRefuse (trimStart text) (field? text)
  if least ≤ n ∧ n ≤ greatest then .ok rest else .error .outOfRange

def separator (c : Char) (text : List Char) : Except Refusal (List Char) :=
  orRefuse (trimStart text) (separator? c text)

/-- What follows an offset from universal time. -/
def skipOffset (text : List Char) : Except Refusal (List Char) :=
  let two := fun (greatest : Nat) (text : List Char) => do
    let (n, rest) ← orRefuse (text.drop 1) (twoDigits? text)
    if n ≤ greatest then Except.ok rest else .error .outOfRange
  match offset? text with
  | some (_, rest) => .ok rest
  | none =>
    match text with
    | [] => .error .tooShort
    | c :: rest =>
      if c = '+' ∨ c = '-' ∨ c = '−' then do
        let rest ← two 99 rest
        two 59 (rest.dropWhile fun c => c == ':' || isBlank c)
      else .error .invalid

/-- Goes through a text as `parse?` does, as far as its parts can be read. -/
def skipParts (text : List Char) : Except Refusal (List Char) := do
  let signed := trimStart text
  let digits := if signed.head?.any ['-', '+'].contains then signed.drop 1 else signed
  let (year, rest) ← orRefuse digits (year? text)
  if Nat.pow 2 31 ≤ year.natAbs then throw .outOfRange
  let rest ← fieldWithin 1 12 (← separator '-' rest)
  let rest ← fieldWithin 1 31 (← separator '-' rest)
  let rest ← orRefuse rest (if rest.head?.any ['T', 't', ' '].contains then some rest.tail else none)
  let rest ← fieldWithin 0 23 rest
  let rest ← fieldWithin 0 59 (← separator ':' rest)
  let rest ← fieldWithin 0 60 (← separator ':' rest)
  let (_, rest) ← orRefuse (rest.drop 1) (fraction? rest)
  skipOffset (trimStart rest)

/-- What is wrong with a text that is no timestamp. If its parts can be read, it goes on or is no
instant of the calendar. -/
def refusal (text : String) : Refusal :=
  match skipParts text.toList with
  | .error e => e
  | .ok rest => if (trimStart rest).isEmpty then .outOfRange else .tooLong

end DatasetCatalog.Timestamp
