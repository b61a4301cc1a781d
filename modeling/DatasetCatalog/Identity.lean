import DatasetCatalog.Text.Basic

/-!
# Dataset identities

An identity is a number of 128 bits. It is written in hyphenated lowercase groups of 8, 4, 4, 4 and
12 hexadecimal digits and also read without hyphens, in braces, and after `urn:uuid:`.
-/

namespace DatasetCatalog

structure Identity where
  bits : BitVec 128
deriving DecidableEq

namespace Identity

instance : Inhabited Identity := ⟨⟨0⟩⟩

instance : Ord Identity := ⟨fun a b => compare a.bits b.bits⟩

instance : Std.OrientedOrd Identity where
  eq_swap {a b} := (Std.OrientedCmp.eq_swap : compare a.bits b.bits = _)

instance : Std.TransOrd Identity where
  isLE_trans {a b c} (h₁ : (compare a.bits b.bits).isLE) (h₂ : (compare b.bits c.bits).isLE) :=
    (Std.TransCmp.isLE_trans h₁ h₂ : (compare a.bits c.bits).isLE)

instance : Std.LawfulEqOrd Identity where
  eq_of_compare {a b} h := by
    have : a.bits = b.bits := Std.LawfulEqOrd.eq_of_compare (show compare a.bits b.bits = .eq from h)
    cases a; cases b; cases this; rfl

def groups : List Nat := [8, 4, 4, 4, 12]

/-- Cuts digits into groups with hyphens between them. -/
def hyphenate : List Nat → List Char → List Char
  | [], digits => digits
  | [_], digits => digits
  | width :: rest, digits => digits.take width ++ '-' :: hyphenate rest (digits.drop width)

def chars (id : Identity) : List Char := hyphenate groups (Text.hexChars 32 id.bits.toNat)

def text (id : Identity) : String := String.ofList id.chars

/-- The number that 32 hexadecimal digits of either case write. -/
def ofHex? (digits : List Char) : Option Identity :=
  if digits.length = 32 then
    (digits.mapM Text.hexValue?).map fun values =>
      ⟨BitVec.ofNat 128 (values.foldl (fun n d => n * 16 + d) 0)⟩
  else none

/-- Removes the hyphens between the groups, each of which must be in its place. -/
def unhyphenate? : List Nat → List Char → Option (List Char)
  | [], text => if text = [] then some [] else none
  | [width], text => if text.length = width then some text else none
  | width :: rest, text =>
    match text.drop width with
    | '-' :: more => (unhyphenate? rest more).map (text.take width ++ ·)
    | _ => none

def ofHyphenated? (text : List Char) : Option Identity := (unhyphenate? groups text).bind ofHex?

def urnMark : List Char := "urn:uuid:".toList

/-- The text inside one pair of braces. -/
def inBraces? (text : List Char) : Option (List Char) :=
  match text with
  | '{' :: rest => if rest.getLast? = some '}' then some rest.dropLast else none
  | _ => none

/-- Reads any of the accepted forms; the length of the text tells which one it can be. -/
def parse? (text : String) : Option Identity :=
  let cs := text.toList
  match cs.length with
  | 32 => ofHex? cs
  | 36 => ofHyphenated? cs
  | 38 => (inBraces? cs).bind ofHyphenated?
  | 45 =>
    if (cs.take 9).map Char.toLower = urnMark then ofHyphenated? (cs.drop 9) else none
  | _ => none

/-- The first character that no identity has, and its place in a text that starts at `place`. -/
def stray? (place : Nat) : List Char → Option (Char × Nat)
  | [] => none
  | c :: rest =>
    if c = '-' ∨ (Text.hexValue? c).isSome then stray? (place + c.utf8Size) rest
    else some (c, place)

/-- What is wrong with a text that is no identity: a character, the number of digits or of groups,
or how long a group is. -/
def refusal (text : String) : String :=
  let cs := text.toList
  let (start, body) :=
    match inBraces? cs with
    | some body => (2, body)
    | none => if (cs.take 9).map Char.toLower = urnMark then (10, cs.drop 9) else (1, cs)
  let found := (body.splitOn '-').map List.length
  let ofGroup := fun (i expected found : Nat) =>
    "invalid group length in group " ++ toString i ++ ": expected " ++ toString expected ++
      ", found " ++ toString found
  match stray? start body with
  | some (c, place) =>
    "invalid character: expected an optional prefix of `urn:uuid:` followed by [0-9a-fA-F-], " ++
      "found `" ++ toString c ++ "` at " ++ toString place
  | none =>
    if found.length = 1 ∧ start = 1 then
      "invalid length: expected length 32 for simple format, found " ++ toString cs.length
    else if found.length ≠ groups.length then
      "invalid group count: expected 5, found " ++ toString found.length
    else
      match (groups.zip found).zipIdx.find? fun g => g.1.1 ≠ g.1.2 ∧ g.2 < 4 with
      | some ((expected, found), i) => ofGroup i expected found
      | none => ofGroup 4 12 (cs.length - 24)

end Identity

end DatasetCatalog
