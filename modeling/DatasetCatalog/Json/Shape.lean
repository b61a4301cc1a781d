import DatasetCatalog.Json.Fault
import DatasetCatalog.Json.Tree

/-!
# What a JSON text is expected to say

A shape is what a text is read as. Going through a text with its shape finds the first fault
(`Shape.fault?`): byte by byte, so that a number of the wrong size is found before a missing brace
behind it. Members that the shape does not name are only skimmed, which asks less of their numbers
and texts and lets them nest without end.
-/

namespace DatasetCatalog.Json

/-- A place in a text of `size` bytes: how many stand before it, and those that follow. -/
structure Cursor where
  size : Nat
  index : Nat
  rest : List UInt8

/-- Reading moves on in a text or stops at a problem, behind so many bytes. -/
abbrev Reading := StateT Cursor (Except (Problem × Nat))

namespace Reading

variable {α : Type}

/-- The next byte. Only the characters of one byte matter. -/
def peek : Reading (Option Char) := do
  return (← get).rest.head?.map fun b => Char.ofNat b.toNat

def take (n : Nat) : Reading (List UInt8) := do
  let c ← get
  let taken := c.rest.take n
  set { c with index := c.index + taken.length, rest := c.rest.drop n }
  return taken

def takeWhile (p : Char → Bool) : Reading (List UInt8) := do
  take ((← get).rest.takeWhile fun b => p (Char.ofNat b.toNat)).length

def eat : Reading Unit := discard (take 1)

def next : Reading (Option Char) := do
  let c ← peek
  eat
  return c

/-- Stops at a problem with what was read last. -/
def stop (p : Problem) : Reading α := do
  throw (p, (← get).index)

/-- Stops at a problem with the next byte. -/
def stopNext (p : Problem) : Reading α := do
  eat
  stop p

/-- The next byte that is no space. -/
def blank : Reading (Option Char) := do
  discard (takeWhile Scan.isSpace)
  peek

/-- More steps than reading can take. -/
def bound : Reading Nat := return (← get).size + 1

/-! ## Words, numbers and strings -/

def word : List Char → Reading Unit
  | [] => return
  | c :: rest => do
    match ← next with
    | none => stop .endInValue
    | some d => if d = c then word rest else stop .word

def digits : Reading (List Char) :=
  return (← takeWhile Char.isDigit).map fun b => Char.ofNat b.toNat

def takeSign : Reading (List Char) := return (← next).toList

def numeral (strict : Bool) : Reading (List Char) := do
  let ended : Problem := if strict then .endInValue else .number
  let sign ← if (← peek) = some '-' then takeSign else pure []
  let whole ← match ← next with
    | none => stop ended
    | some '0' => if (← peek).any Char.isDigit then stopNext .number else pure ['0']
    | some c => if c.isDigit then pure (c :: (← digits)) else stop .number
  let mut fraction := []
  if (← peek) = some '.' then
    eat
    fraction := '.' :: (← digits)
    if fraction.length = 1 then
      stopNext (if (← peek).isNone then ended else .number)
  let mut exponent := []
  if (← peek).any ['e', 'E'].contains then
    eat
    let sign ← if (← peek).any ['+', '-'].contains then takeSign else pure []
    match ← next with
    | none => stop ended
    | some c =>
      if c.isDigit then exponent := 'e' :: (sign ++ c :: (← digits)) else stop .number
  return sign ++ whole ++ fraction ++ exponent

/-- How many digits follow the one with which a number leaves 31 bits. -/
def digitsBeyond (n : Nat) : List Char → Nat
  | [] => 0
  | c :: rest =>
    let longer := n * 10 + (c.toNat - '0'.toNat)
    if longer < Nat.pow 2 31 then digitsBeyond longer rest else rest.length

def number : Reading Number := do
  match Numeral.parse? (← numeral true) with
  | none => stop .number
  | some numeral =>
    match numeral.number? with
    | some n => return n
    | none =>
      -- An exponent is given up with the digit that makes it too large.
      let beyond := (numeral.exponent.map fun e => digitsBeyond 0 e.2).getD 0
      throw (.outOfRange, (← get).index - beyond)

def hex : Reading Nat := do
  let four ← take 4
  if four.length < 4 then stop .endInString
  else
    match four.mapM fun b => Text.hexValue? (Char.ofNat b.toNat) with
    | some digits => return digits.foldl (fun n d => n * 16 + d) 0
    | none => stop .escape

/-- The second half of a surrogate pair has to follow the first. -/
def expectInPair (c : Char) : Reading Unit := do
  match ← peek with
  | none => stop .endInString
  | some d => if d = c then eat else stopNext .hexEnd

def codePoint : Reading Char := do
  let n ← hex
  if 0xDC00 ≤ n ∧ n ≤ 0xDFFF then stop .surrogate
  else if n < 0xD800 ∨ 0xDBFF < n then return Char.ofNat n
  else
    expectInPair '\\'
    expectInPair 'u'
    let low ← hex
    if low < 0xDC00 ∨ 0xDFFF < low then stop .surrogate
    else return Char.ofNat (0x10000 + (n - 0xD800) * 0x400 + (low - 0xDC00))

def escape (strict : Bool) : Reading (List UInt8) := do
  match ← next with
  | none => stop .endInString
  | some 'u' =>
    if strict then return (String.singleton (← codePoint)).toUTF8.data.toList
    else return (fun _ => []) (← hex)
  | some c =>
    match Scan.escaped? c with
    | some d => return (String.singleton d).toUTF8.data.toList
    | none => stop .escape

/-- The bytes of a string behind its opening quote. -/
def stringBytes (strict : Bool) : (steps : Nat) → Reading (List UInt8)
  | 0 => stop .endInString
  | steps + 1 => do
    let plain ← takeWhile fun c => c ≠ '"' ∧ c ≠ '\\' ∧ 0x20 ≤ c.toNat
    match ← peek with
    | none => stop .endInString
    | some '"' => eat; return plain
    | some '\\' =>
      eat
      let escaped ← escape strict
      return plain ++ escaped ++ (← stringBytes strict steps)
    | some _ => if strict then stopNext .control else stop .control

def string (strict : Bool) : Reading String := do
  let bytes ← stringBytes strict (← bound)
  return (String.fromUTF8? ⟨bytes.toArray⟩).getD ""

/-! ## Containers -/

/-- Whether another element of a list follows. -/
def nextElement (strict first : Bool) : Reading Bool := do
  match ← blank with
  | none => stopNext .endInList
  | some ']' => return false
  | some c =>
    if first then return true
    else if c ≠ ',' then stopNext .listEnd
    else
      eat
      if strict then
        match ← blank with
        | none => stopNext .endInValue
        | some ']' => stopNext .trailingComma
        | some _ => return true
      else return true

/-- The key of the next member of an object. -/
def nextKey (strict first : Bool) : Reading (Option String) := do
  match ← blank with
  | none => stopNext .endInObject
  | some '}' => return none
  | some c =>
    if !first then
      if c ≠ ',' then stopNext .objectEnd
      eat
    match ← blank with
    | none => stopNext (if strict then .endInValue else .endInObject)
    | some '"' => eat; return some (← string strict)
    | some '}' => stopNext (if strict then .trailingComma else .key)
    | some _ => stopNext .key

def colon : Reading Unit := do
  match ← blank with
  | none => stopNext .endInObject
  | some ':' => eat
  | some _ => stopNext .colon

/-- A list behind its opening bracket. An element that is read but not accepted shows behind the
list's next mark. -/
def elements (strict : Bool) (element : Reading (Option Problem)) :
    (steps : Nat) → (first : Bool) → Reading Unit
  | 0, _ => stop .endInList
  | steps + 1, first => do
    if ← nextElement strict first then
      match ← element with
      | none => elements strict element steps false
      | some p =>
        match ← blank with
        | some ']' => eat
        | some ',' => eat; discard blank
        | _ => pure ()
        stop p
    else eat

def members (strict : Bool) (member : Reading Unit) :
    (steps : Nat) → (first : Bool) → Reading Unit
  | 0, _ => stop .endInObject
  | steps + 1, first => do
    match ← nextKey strict first with
    | none => eat
    | some _ =>
      colon
      member
      members strict member steps false

def start : Reading Char := do
  match ← blank with
  | none => stopNext .endInValue
  | some c => return c

/-- A value that starts with `c` and is no container. -/
def scalar? (strict : Bool) (c : Char) : Option (Reading Found) :=
  match c with
  | 'n' => some do eat; word "ull".toList; return .null
  | 't' => some do eat; word "rue".toList; return .boolean true
  | 'f' => some do eat; word "alse".toList; return .boolean false
  | '"' => some do eat; return .string (← string strict)
  | _ =>
    if c = '-' ∨ c.isDigit then
      some (if strict then return .number (← number) else discard (numeral false) *> pure .null)
    else none

/-- Any value; `inside?` reads what stands in a container, if one may be opened. -/
def valueAt (strict : Bool) (inside? : Option (Reading Found)) : Reading Found := do
  let c ← start
  match scalar? strict c with
  | some scalar => scalar
  | none =>
    if c ≠ '[' ∧ c ≠ '{' then stopNext .value
    else
      match inside? with
      | none => stopNext .depth
      | some inside =>
        eat
        if c = '[' then
          elements strict (discard inside *> pure none) (← bound) true
          return .list
        else
          members strict (discard inside) (← bound) true
          return .object

def anything (strict : Bool) : (levels : Nat) → Reading Found
  | 0 => valueAt strict none
  | levels + 1 => valueAt strict (some (anything strict levels))

/-- A value that nobody looks at. No text nests more levels than it has bytes. -/
def skim : Reading Unit := do
  discard (anything false (← bound))

/-- Stops at a value of another kind than is expected, once it has been read. -/
def mismatch (c : Char) (expected : String) : Reading α := do
  match scalar? true c with
  | some scalar => stop (.kind (← scalar).text expected)
  | none =>
    if c = '[' then stop (.kind Found.list.text expected)
    else if c = '{' then stop (.kind Found.object.text expected)
    else stopNext .value

end Reading

inductive Shape
  | anything
  | boolean
  /-- An integer from `least` to below `bound`. -/
  | integer (name : String) (least bound : Int)
  /-- A text, or possibly null, of which something may have to be said. -/
  | text (optional : Bool) (expected : String) (complaint? : String → Option String)
  /-- A list of texts and 64-bit integers. -/
  | path
  | list (element : Shape)
  | entries (value : Shape)
  /-- A record, with the fields that have to be there marked. -/
  | record (name : String) (fields : List (String × Bool × Shape))

namespace Shape

def anyText : Shape := .text false "a string" fun _ => none

/-- A text that may be missing. -/
def optionalText : Shape := .text true "a string" fun _ => none

open Reading

/-- What is wrong with a step of a path. -/
def stepProblem? : Found → Option Problem
  | .string _ => none
  | .number (.integer n _) => if 0 ≤ n then none else some mismatched
  | _ => some mismatched
where
  mismatched := .refused "data did not match any variant of untagged enum PathElem"

section Containers

variable (inside : Shape → Reading Unit)

/-- The members of a record written as an object, behind its brace; `seen` are those before. -/
def recordMembers (fields : List (String × Bool × Shape)) :
    (steps : Nat) → (seen : List String) → (first : Bool) → Reading Unit
  | 0, _, _ => stop .endInObject
  | steps + 1, seen, first => do
    match ← nextKey true first with
    | none =>
      eat
      match fields.find? fun f => f.2.1 && !seen.contains f.1 with
      | none => return
      | some f => stop (.missing f.1)
    | some key =>
      match fields.find? fun f => f.1 == key with
      | none =>
        colon
        skim
        recordMembers fields steps seen false
      | some f =>
        if seen.contains key then
          if (← blank) = some '}' then eat
          stop (.repeated key)
        else
          colon
          inside f.2.2
          recordMembers fields steps (key :: seen) false

/-- The elements of a record written as a list, behind its bracket; `read` have been read. -/
def recordElements (tooShort : Nat → Problem) (read : Nat) :
    List (String × Bool × Shape) → Reading Unit
  | [] => do
    match ← blank with
    | none => stopNext .endInList
    | some ']' => eat
    | some ',' => eat; stopNext (if (← blank) = some ']' then .trailingComma else .trailing)
    | some _ => stopNext .trailing
  | (_, needed, shape) :: fields => do
    if ← nextElement true (read == 0) then
      inside shape
      recordElements tooShort (read + 1) fields
    else if needed then
      eat
      stop (tooShort read)
    else recordElements tooShort (read + 1) fields

end Containers

/-- Steps inside a container, if another one may be opened. -/
def enter (inside? : Option (Shape → Reading Unit)) (go : (Shape → Reading Unit) → Reading Unit) :
    Reading Unit :=
  match inside? with
  | none => stopNext .depth
  | some inside => do
    eat
    go inside

/-- Reads a value of a shape that nests at most `levels` containers; `inside?` reads what stands in
one of them. -/
def readAt (levels : Nat) (inside? : Option (Shape → Reading Unit)) : Shape → Reading Unit
  | .anything => discard (Reading.anything true levels)
  | .boolean => do
    let c ← start
    if c = 't' ∨ c = 'f' then discard (Reading.anything true levels) else mismatch c "a boolean"
  | .integer name least bound => do
    let c ← start
    if c = '-' ∨ c.isDigit then
      let n ← number
      match n with
      | .integer i _ =>
        if i < least ∨ bound ≤ i then stop (.bounds (Found.number n).text name)
      | .float _ => stop (.kind (Found.number n).text name)
    else mismatch c name
  | .text optional expected complaint? => do
    let c ← start
    if c = 'n' ∧ optional then
      eat
      word "ull".toList
    else if c = '"' then
      eat
      match complaint? (← string true) with
      | none => return
      | some message => stop (.refused message)
    else mismatch c expected
  | .path => do
    let c ← start
    if c = '[' then
      enter inside? fun _ => do
        let step := return stepProblem? (← Reading.anything true (levels - 1))
        elements true step (← bound) true
    else mismatch c "a sequence"
  | .list element => do
    let c ← start
    if c = '[' then
      enter inside? fun inside => do
        elements true (inside element *> pure none) (← bound) true
    else mismatch c "a sequence"
  | .entries value => do
    let c ← start
    if c = '{' then
      enter inside? fun inside => do
        members true (inside value) (← bound) true
    else mismatch c "a map"
  | .record name fields => do
    let c ← start
    let called := "struct " ++ name
    if c = '{' then
      enter inside? fun inside => do
        recordMembers inside fields (← bound) [] true
    else if c = '[' then
      enter inside? fun inside => do
        let tooShort := fun read =>
          .length read (called ++ " with " ++ toString fields.length ++ " elements")
        recordElements inside tooShort 0 fields
    else mismatch c called

def read : (levels : Nat) → Shape → Reading Unit
  | 0 => readAt 0 none
  | levels + 1 => readAt (levels + 1) (some (read levels))

def readAll (s : Shape) : Reading Unit := do
  read nestingLimit s
  if (← blank).isSome then stopNext .trailing

/-- What is wrong with a text that should be of this shape. -/
def fault? (s : Shape) (text : String) : Option Fault :=
  let bytes := text.toUTF8.data.toList
  match s.readAll.run ⟨bytes.length, 0, bytes⟩ with
  | .ok _ => none
  | .error (p, index) => some (.ofIndex bytes p index)

/-- Whatever a text should say, a fault is on one of its lines. -/
theorem fault?_within {s : Shape} {text : String} {f : Fault} (h : s.fault? text = some f) :
    0 < f.line ∧ f.line ≤ 1 + text.toUTF8.data.toList.countP Fault.isBreak ∧
      f.column ≤ text.toUTF8.data.toList.length := by
  rw [fault?] at h
  split at h
  next => cases h
  next p index _ =>
    cases h
    exact Fault.ofIndex_within _ p index

example : (list .boolean).fault? "[true,\n ]" = some ⟨.trailingComma, 2, 2⟩ := by decide +kernel

end Shape

end DatasetCatalog.Json
