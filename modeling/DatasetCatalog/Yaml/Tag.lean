import DatasetCatalog.Text.Basic

/-!
# Tags of YAML nodes

A tag is a list of bytes. Each may be written as `%` and two digits, so that a tag need not be text,
and a byte of zero ends what it stands in. Tags of the core schema say what a scalar must be; those
that start with `!` are the application's own.
-/

namespace DatasetCatalog.Yaml

abbrev Tag := List UInt8

namespace Tag

def ofString (s : String) : Tag := s.toUTF8.toList

/-- What counts of the bytes of a part of a tag. -/
def visible (bytes : List UInt8) : Tag := bytes.takeWhile (· ≠ 0)

def core (name : String) : Tag := ofString ("tag:yaml.org,2002:" ++ name)

def startsLocal (t : Tag) : Bool := t.head? == some 0x21

/-- Whether a tag is the application's own; what follows the mark must be text and may be nothing. -/
def isLocal (t : Tag) : Bool :=
  t.startsLocal && (String.fromUTF8? ⟨t.tail.toArray⟩).isSome

def byteCount? (b : Nat) : Option Nat :=
  if b < 0x80 then some 1
  else if b < 0xc0 then none
  else if b < 0xe0 then some 2
  else if b < 0xf0 then some 3
  else if b < 0xf8 then some 4
  else none

def escapedByte? : List Char → Option (Nat × List Char)
  | '%' :: a :: b :: rest => do
    let a ← Text.hexValue? a
    let b ← Text.hexValue? b
    some (a * 16 + b, rest)
  | _ => none

/-- Further bytes of a character, each with the bits `10` on top. -/
def furtherBytes? : (n : Nat) → List Char → Option (List Nat × List Char)
  | 0, text => some ([], text)
  | n + 1, text => do
    let (b, text) ← escapedByte? text
    if b / 64 ≠ 2 then none
    else
      let (bytes, text) ← furtherBytes? n text
      some (b :: bytes, text)

/-- As many escaped bytes as the first one asks for, and what follows them. They need not encode a
character. -/
def escapedBytes? (text : List Char) : Option (List UInt8 × List Char) := do
  let (b, rest) ← escapedByte? text
  let count ← byteCount? b
  let (bytes, rest) ← furtherBytes? (count - 1) rest
  some ((b :: bytes).map Nat.toUInt8, rest)

end Tag

end DatasetCatalog.Yaml
