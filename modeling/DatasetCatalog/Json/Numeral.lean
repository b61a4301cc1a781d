import DatasetCatalog.Number.Basic
import DatasetCatalog.Text.Basic

/-!
# Numerals of a JSON text

A numeral is a sign, whole digits, and optional fraction and exponent digits. Without fraction and
exponent it is an integer if a 64-bit word holds it. Every other numeral is a binary64 number, read
in two roundings: the leading digits that fit an unsigned 64-bit word are rounded once, and scaling
by the power of ten rounds again. Out of range there is no number.
-/

namespace DatasetCatalog.Json

structure Numeral where
  negative : Bool
  whole : List Char
  fraction : Option (List Char)
  /-- Whether the exponent is negative, and its digits. -/
  exponent : Option (Bool × List Char)
deriving DecidableEq

namespace Numeral

def isChar (c : Char) : Bool := c.isDigit || c == '-' || c == '+' || c == '.' || c == 'e' || c == 'E'

def parseExponent? : List Char → Option (Option (Bool × List Char))
  | [] => some none
  | c :: rest =>
    if c = 'e' ∨ c = 'E' then
      let (negative, digits) := match rest with
        | '+' :: digits => (false, digits)
        | '-' :: digits => (true, digits)
        | digits => (false, digits)
      if digits ≠ [] ∧ digits.all Char.isDigit then some (some (negative, digits)) else none
    else none

/-- Reads a whole numeral; a whole part of several digits starts with none that is zero. -/
def parse? (text : List Char) : Option Numeral :=
  let (negative, text) := match text with
    | '-' :: rest => (true, rest)
    | _ => (false, text)
  let whole := text.takeWhile Char.isDigit
  if whole = [] ∨ (whole.length ≠ 1 ∧ whole.head? = some '0') then none
  else
    match text.dropWhile Char.isDigit with
    | '.' :: rest =>
      let fraction := rest.takeWhile Char.isDigit
      if fraction = [] then none
      else (parseExponent? (rest.dropWhile Char.isDigit)).map (⟨negative, whole, some fraction, ·⟩)
    | rest => (parseExponent? rest).map (⟨negative, whole, none, ·⟩)

/-- Appends digits to `n` while the result fits 64 bits; also how many digits are left over. -/
def gather (n : Nat) : List Char → Nat × Nat
  | [] => (n, 0)
  | c :: rest =>
    let longer := n * 10 + (c.toNat - '0'.toNat)
    if longer < Nat.pow 2 64 then gather longer rest
    else (n, rest.length + 1)

def powerOfTen (k : Nat) : Binary64 := (Binary64.nearest? false (Nat.pow 10 k) 1).getD default

/-- `x * 10 ^ scale` with one rounding per step; a step divides by `10 ^ 308` at most. -/
def scaled : Nat → Binary64 → Int → Option Binary64
  | 0, x, _ => some (.zero x.negative)
  | steps + 1, x, scale =>
    if x.isZero then some x
    else if 308 < scale then none
    else if 0 ≤ scale then x.mul? (powerOfTen scale.toNat)
    else if -308 ≤ scale then x.div? (powerOfTen (-scale).toNat)
    else (x.div? (powerOfTen 308)).bind fun y => scaled steps y (scale + 308)

def float? (negative : Bool) (significand : Nat) (scale : Int) : Option Binary64 :=
  (Binary64.nearest? negative significand 1).bind fun x => scaled 4 x scale

def number? (numeral : Numeral) : Option Number :=
  let (start, skipped) := gather 0 numeral.whole
  match numeral.fraction, numeral.exponent with
  | none, none =>
    if skipped = 0 ∧ (!numeral.negative ∨ (start ≠ 0 ∧ start ≤ Nat.pow 2 63)) then
      Number.ofInt? (if numeral.negative then -start else start)
    else (float? numeral.negative start skipped).map .float
  | fraction, exponent =>
    let digits := fraction.getD []
    let (significand, rest) := gather start digits
    let base : Int := skipped - (digits.length - rest : Nat)
    match exponent with
    | none => (float? numeral.negative significand base).map .float
    | some (down, e) =>
      let e := Text.decimalValue e
      if e < Nat.pow 2 31 then
        (float? numeral.negative significand (if down then base - e else base + e)).map .float
      else if significand = 0 ∨ down then some (.float (.zero numeral.negative))
      else none

end Numeral

end DatasetCatalog.Json
