/-!
# Characters of a text

Blanks have the Unicode property `White_Space`, which is wider than `Char.isWhitespace`. Digits have
values, and numbers are written at a fixed width.
-/

namespace DatasetCatalog.Text

/-! ## Blanks -/

def isBlank (c : Char) : Bool :=
  let n := c.toNat
  (0x09 ≤ n && n ≤ 0x0D) || n == 0x20 || n == 0x85 || n == 0xA0 || n == 0x1680 ||
    (0x2000 ≤ n && n ≤ 0x200A) || n == 0x2028 || n == 0x2029 || n == 0x202F || n == 0x205F ||
    n == 0x3000

def trimStart (cs : List Char) : List Char := cs.dropWhile isBlank

def trimEnd (cs : List Char) : List Char := (cs.reverse.dropWhile isBlank).reverse

/-- Drops blanks on both ends. -/
def trim (cs : List Char) : List Char := trimEnd (trimStart cs)

/-! ## Digits -/

/-- The number that decimal digits write; no digits write zero. -/
def decimalValue (digits : List Char) : Nat :=
  digits.foldl (fun n c => n * 10 + (c.toNat - '0'.toNat)) 0

def hexValue? (c : Char) : Option Nat :=
  if c.isDigit then some (c.toNat - '0'.toNat)
  else if 'a' ≤ c ∧ c ≤ 'f' then some (c.toNat - 'a'.toNat + 10)
  else if 'A' ≤ c ∧ c ≤ 'F' then some (c.toNat - 'A'.toNat + 10)
  else none

/-- The low `width` hexadecimal digits of a number, in lowercase. -/
def hexChars : Nat → Nat → List Char
  | 0, _ => []
  | width + 1, n => hexChars width (n / 16) ++ [Nat.digitChar (n % 16)]

/-- The low `width` decimal digits of a number. -/
def decimalChars : Nat → Nat → List Char
  | 0, _ => []
  | width + 1, n => decimalChars width (n / 10) ++ [Nat.digitChar (n % 10)]

end DatasetCatalog.Text
