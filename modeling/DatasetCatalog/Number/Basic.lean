import DatasetCatalog.Number.Shortest

/-!
# Numbers of a document

A number is an integer of 64 bits, signed or unsigned, or a finite binary64 number. Two integers
compare exactly; as soon as a binary64 number takes part, both are compared as binary64 numbers
(`Number.sameValue`). Which notation a number is written in is a `NumberFormat`.
-/

namespace DatasetCatalog

/-- `-2 ^ 63`, the least integer of 64 bits with a sign. -/
abbrev Number.leastSigned : Int := -9223372036854775808

/-- `2 ^ 63`, above the integers of 64 bits with a sign. -/
abbrev Number.signedBound : Int := 9223372036854775808

/-- `2 ^ 64`, above those without one. -/
abbrev Number.unsignedBound : Int := 18446744073709551616

inductive Number
  /-- An integer that a signed or an unsigned word of 64 bits holds. -/
  | integer (n : Int) (inRange : Number.leastSigned ≤ n ∧ n < Number.unsignedBound)
  | float (x : Binary64)
deriving DecidableEq

namespace Number

def ofInt? (n : Int) : Option Number :=
  if h : leastSigned ≤ n ∧ n < unsignedBound then some (.integer n h) else none

def toBinary64 : Number → Binary64
  | .integer n _ => (Binary64.ofInt? n).getD default
  | .float x => x

/-- Two integers compare exactly, any other pair as binary64 numbers. -/
def sameValue : Number → Number → Bool
  | .integer m _, .integer n _ => m == n
  | x, y => x.toBinary64.sameValue y.toBinary64

/-- Like `sameValue`, but an integer never equals a binary64 number. -/
def sameKindAndValue : Number → Number → Bool
  | .integer m _, .integer n _ => m == n
  | .float x, .float y => x.sameValue y
  | _, _ => false

def toInt? : Number → Option Int
  | .integer n _ => some n
  | .float _ => none

end Number

/-- How a binary64 number is spelled: digits stand around a point when the exponent of the first
digit lies from `leastPositional` up to below `positionalEnd`, else an exponent follows. -/
structure NumberFormat where
  leastPositional : Int
  positionalEnd : Int
  signPositiveExponent : Bool

namespace NumberFormat

/-- Compact and indented documents: `1e+16`. -/
def document : NumberFormat := ⟨-5, 16, true⟩

/-- Block-style records: `1e16`. -/
def record : NumberFormat := ⟨-5, 16, false⟩

def zeros (n : Nat) : List Char := List.replicate n '0'

/-- Digits around a point, with at least one digit on each side. -/
def positional (digits : List Char) (leading : Int) : List Char :=
  if leading < 0 then '0' :: '.' :: (zeros (-leading - 1).toNat ++ digits)
  else
    let whole := leading.toNat + 1
    if digits.length ≤ whole then digits ++ zeros (whole - digits.length) ++ ['.', '0']
    else digits.take whole ++ '.' :: digits.drop whole

def exponential (format : NumberFormat) (digits : List Char) (leading : Int) : List Char :=
  let mantissa := match digits with
    | [] => []
    | [d] => [d]
    | d :: rest => d :: '.' :: rest
  let sign := if leading < 0 then ['-'] else if format.signPositiveExponent then ['+'] else []
  mantissa ++ 'e' :: sign ++ Nat.toDigits 10 leading.natAbs

def float (format : NumberFormat) (x : Binary64) : List Char :=
  let sign := if x.negative then ['-'] else []
  if x.isZero then sign ++ ['0', '.', '0']
  else
    let d := x.shortest
    sign ++
      if format.leastPositional ≤ d.leading ∧ d.leading < format.positionalEnd then
        positional d.text d.leading
      else format.exponential d.text d.leading

def integer (n : Int) : List Char :=
  if n < 0 then '-' :: Nat.toDigits 10 n.natAbs else Nat.toDigits 10 n.natAbs

def chars (format : NumberFormat) : Number → List Char
  | .integer n _ => integer n
  | .float x => format.float x

end NumberFormat

end DatasetCatalog
