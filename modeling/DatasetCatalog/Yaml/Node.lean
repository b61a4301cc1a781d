import DatasetCatalog.Yaml.Token

/-!
# Nodes of a YAML text

The documents of a token list, as trees of scalars, sequences and mappings. A node may carry an
anchor and a tag, and a reference stands for the node of an anchor. `Node.number?` replaces anchor
names by numbers: a reference means the last anchor of its name before it.
-/

namespace DatasetCatalog.Yaml

/-- A tree whose anchors are named by `ν`. -/
inductive Node (ν : Type)
  | scalar (anchor : Option ν) (tag : Option Tag) (text : String) (plain : Bool)
  | reference (name : ν)
  | sequence (anchor : Option ν) (tag : Option Tag) (items : List (Node ν))
  | mapping (anchor : Option ν) (tag : Option Tag) (entries : List (Node ν × Node ν))

namespace Node

variable {ν : Type}

def absent : Node ν := .scalar none none "" true

/-- A node and the tokens after it. -/
abbrev Parsed (ν : Type) := Option (ν × List Token)

structure Properties where
  anchor : Option String := none
  tag : Option Tag := none

/-- What the tag of a handle and an ending is, given what handles stand for. -/
def tag? (handles : List (String × Tag)) (handle : String) (ending : Tag) :
    Option Tag :=
  if handle.isEmpty then some ending else (handles.lookup handle).map fun start => start ++ ending

/-- An anchor and a tag in either order, each of which may be missing. -/
def properties? (handles : List (String × Tag)) : List Token → Parsed Properties
  | .anchor a :: .tag h e :: rest => (tag? handles h e).map fun t => (⟨some a, some t⟩, rest)
  | .tag h e :: .anchor a :: rest => (tag? handles h e).map fun t => (⟨some a, some t⟩, rest)
  | .anchor a :: rest => some (⟨some a, none⟩, rest)
  | .tag h e :: rest => (tag? handles h e).map fun t => (⟨none, some t⟩, rest)
  | tokens => some ({}, tokens)

def nextIs (tokens : List Token) (these : List Token) : Bool := tokens.head?.any these.contains

mutual

/-- The node at the start of the tokens. Block collections are only looked for if `block`, and
sequences without an indentation of their own if `indentless`. Calls nest at most `n` deep. -/
def parse? (handles : List (String × Tag)) :
    (n : Nat) → (block indentless : Bool) → List Token → Parsed (Node String)
  | 0, _, _, _ => none
  | _ + 1, _, _, .reference name :: rest => some (.reference name, rest)
  | n + 1, block, indentless, tokens =>
    (properties? handles tokens).bind fun (p, tokens) =>
      match tokens with
      | .scalar text plain :: rest =>
        some (.scalar p.anchor p.tag text plain, rest)
      | .flowSequenceStart :: rest =>
        (flowItems? handles n true rest).map fun (items, rest) => (.sequence p.anchor p.tag items, rest)
      | .flowMappingStart :: rest =>
        (flowEntries? handles n true rest).map fun (entries, rest) =>
          (.mapping p.anchor p.tag entries, rest)
      | tokens =>
        if indentless && nextIs tokens [.blockEntry] then
          (indentlessItems? handles n tokens).map fun (items, rest) =>
            (.sequence p.anchor p.tag items, rest)
        else if block && nextIs tokens [.blockSequenceStart] then
          (blockItems? handles n tokens.tail).map fun (items, rest) =>
            (.sequence p.anchor p.tag items, rest)
        else if block && nextIs tokens [.blockMappingStart] then
          (blockEntries? handles n tokens.tail).map fun (entries, rest) =>
            (.mapping p.anchor p.tag entries, rest)
        else if p.anchor.isSome || p.tag.isSome then
          some (.scalar p.anchor p.tag "" true, tokens)
        else none

/-- A node, or an absent one before these tokens. -/
def parseUnless? (handles : List (String × Tag)) :
    (n : Nat) → (block indentless : Bool) → (ends : List Token) → List Token → Parsed (Node String)
  | 0, _, _, _, _ => none
  | n + 1, block, indentless, ends, tokens =>
    if nextIs tokens ends then some (absent, tokens) else parse? handles n block indentless tokens

/-- What follows a value token, or an absent node if there is none. -/
def parseValue? (handles : List (String × Tag)) :
    (n : Nat) → (block indentless : Bool) → (ends : List Token) → List Token → Parsed (Node String)
  | 0, _, _, _, _ => none
  | n + 1, block, indentless, ends, tokens =>
    match tokens with
    | .value :: rest => parseUnless? handles n block indentless ends rest
    | tokens => some (absent, tokens)

def blockItems? (handles : List (String × Tag)) :
    (n : Nat) → List Token → Parsed (List (Node String))
  | 0, _ => none
  | n + 1, tokens =>
    match tokens with
    | .blockEntry :: rest =>
      (parseUnless? handles n true false [.blockEntry, .blockEnd] rest).bind fun (item, rest) =>
        (blockItems? handles n rest).map fun (items, rest) => (item :: items, rest)
    | .blockEnd :: rest => some ([], rest)
    | _ => none

/-- The items of a sequence that stands in a mapping without further indentation. -/
def indentlessItems? (handles : List (String × Tag)) :
    (n : Nat) → List Token → Parsed (List (Node String))
  | 0, _ => none
  | n + 1, tokens =>
    match tokens with
    | .blockEntry :: rest =>
      (parseUnless? handles n true false [.blockEntry, .key, .value, .blockEnd] rest).bind
        fun (item, rest) =>
          (indentlessItems? handles n rest).map fun (items, rest) => (item :: items, rest)
    | tokens => some ([], tokens)

def blockEntries? (handles : List (String × Tag)) :
    (n : Nat) → List Token → Parsed (List (Node String × Node String))
  | 0, _ => none
  | n + 1, tokens =>
    match tokens with
    | .key :: rest =>
      (parseUnless? handles n true true [.key, .value, .blockEnd] rest).bind fun (key, rest) =>
        (parseValue? handles n true true [.key, .value, .blockEnd] rest).bind fun (value, rest) =>
          (blockEntries? handles n rest).map fun (entries, rest) => ((key, value) :: entries, rest)
    | .blockEnd :: rest => some ([], rest)
    | _ => none

/-- The items of a flow sequence and its end; each but the first comes after a comma. A key makes an
item a mapping of one entry. -/
def flowItems? (handles : List (String × Tag)) :
    (n : Nat) → (first : Bool) → List Token → Parsed (List (Node String))
  | 0, _, _ => none
  | n + 1, first, tokens =>
    if nextIs tokens [.flowSequenceEnd] then some ([], tokens.tail)
    else if !first && !nextIs tokens [.flowEntry] then none
    else
      match if first then tokens else tokens.tail with
      | .flowSequenceEnd :: rest => some ([], rest)
      | .key :: rest =>
        (flowPair? handles n rest).bind fun (entry, rest) =>
          (flowItems? handles n false rest).map fun (items, rest) =>
            (.mapping none none [entry] :: items, rest)
      | tokens =>
        (parse? handles n false false tokens).bind fun (item, rest) =>
          (flowItems? handles n false rest).map fun (items, rest) => (item :: items, rest)

/-- The entry of a mapping of one entry. An absent key takes the token after it along. -/
def flowPair? (handles : List (String × Tag)) :
    (n : Nat) → List Token → Parsed (Node String × Node String)
  | 0, _ => none
  | n + 1, tokens =>
    let key := if nextIs tokens [.value, .flowEntry, .flowSequenceEnd] then some (absent, tokens.tail)
      else parse? handles n false false tokens
    key.bind fun (key, rest) =>
      (parseValue? handles n false false [.flowEntry, .flowSequenceEnd] rest).map
        fun (value, rest) => ((key, value), rest)

/-- The entries of a flow mapping and its end; each but the first comes after a comma. -/
def flowEntries? (handles : List (String × Tag)) :
    (n : Nat) → (first : Bool) → List Token → Parsed (List (Node String × Node String))
  | 0, _, _ => none
  | n + 1, first, tokens =>
    if nextIs tokens [.flowMappingEnd] then some ([], tokens.tail)
    else if !first && !nextIs tokens [.flowEntry] then none
    else
      match if first then tokens else tokens.tail with
      | .flowMappingEnd :: rest => some ([], rest)
      | .key :: rest =>
        (parseUnless? handles n false false [.value, .flowEntry, .flowMappingEnd] rest).bind
          fun (key, rest) =>
            (parseValue? handles n false false [.flowEntry, .flowMappingEnd] rest).bind
              fun (value, rest) =>
                (flowEntries? handles n false rest).map fun (entries, rest) =>
                  ((key, value) :: entries, rest)
      | tokens =>
        (parse? handles n false false tokens).bind fun (key, rest) =>
          (flowEntries? handles n false rest).map fun (entries, rest) =>
            ((key, absent) :: entries, rest)

end

def standardHandles : List (String × Tag) := [("!", Tag.ofString "!"), ("!!", Tag.core "")]

/-- The directives before a document, at most one version among them and no handle twice. -/
def directives? (versioned : Bool) (handles : List (String × Tag)) :
    List Token → Parsed (List (String × Tag))
  | .version major minor :: rest =>
    if versioned || major ≠ 1 || (minor ≠ 1 && minor ≠ 2) then none
    else directives? true handles rest
  | .tagDirective handle expansion :: rest =>
    if (handles.lookup handle).isSome then none
    else directives? versioned ((handle, expansion) :: handles) rest
  | tokens => some (handles ++ standardHandles, tokens)

def startsDocument : Token → Bool
  | .version .. | .tagDirective .. | .documentStart | .streamEnd => true
  | _ => false

def document? (handles : List (String × Tag)) (tokens : List Token) : Parsed (Node String) :=
  (parse? handles (4 * (tokens.length + 1)) true false tokens).map fun (node, rest) =>
    (node, if nextIs rest [.documentEnd] then rest.tail else rest)

def explicitDocument? (tokens : List Token) : Parsed (Node String) :=
  (directives? false [] tokens).bind fun (handles, tokens) =>
    match tokens with
    | .documentStart :: rest =>
      if rest.head?.any fun t => startsDocument t || t == .documentEnd then
        some (absent, if nextIs rest [.documentEnd] then rest.tail else rest)
      else document? handles rest
    | _ => none

/-- The documents of a stream, of which there are fewer than `n`. Only the first may lack a start. -/
def documents? : (n : Nat) → (first : Bool) → List Token → Option (List (Node String))
  | 0, _, _ => none
  | n + 1, first, tokens =>
    let tokens := if first then tokens else tokens.dropWhile (· == .documentEnd)
    if nextIs tokens [.streamEnd] then some []
    else
      let parsed := if first && !tokens.head?.any startsDocument then document? standardHandles tokens
        else explicitDocument? tokens
      parsed.bind fun (node, rest) => (documents? n false rest).map fun nodes => node :: nodes

def ofTokens? (tokens : List Token) : Option (List (Node String)) :=
  documents? (tokens.length + 1) true tokens

/-- What each anchor name means so far. -/
abbrev Numbers := List (String × Nat)

/-- A name's number is the number of different names so far, itself not counted if it is new. -/
def assign (numbers : Numbers) (name : String) : Nat × Numbers :=
  let others := numbers.filter fun p => p.1 ≠ name
  (numbers.length, (name, numbers.length) :: others)

def assignAnchor (numbers : Numbers) : Option String → Option Nat × Numbers
  | none => (none, numbers)
  | some name =>
    let (i, numbers) := assign numbers name
    (some i, numbers)

mutual

/-- Replaces anchor names by numbers; a reference must come after an anchor of its name. -/
def number? (numbers : Numbers) : Node String → Option (Node Nat × Numbers)
  | .scalar anchor tag text plain =>
    let (anchor, numbers) := assignAnchor numbers anchor
    some (.scalar anchor tag text plain, numbers)
  | .reference name => (numbers.lookup name).map fun i => (.reference i, numbers)
  | .sequence anchor tag items =>
    let (anchor, numbers) := assignAnchor numbers anchor
    (numberItems? numbers items).map fun (items, numbers) => (.sequence anchor tag items, numbers)
  | .mapping anchor tag entries =>
    let (anchor, numbers) := assignAnchor numbers anchor
    (numberEntries? numbers entries).map fun (entries, numbers) =>
      (.mapping anchor tag entries, numbers)

def numberItems? (numbers : Numbers) : List (Node String) → Option (List (Node Nat) × Numbers)
  | [] => some ([], numbers)
  | item :: rest =>
    (number? numbers item).bind fun (item, numbers) =>
      (numberItems? numbers rest).map fun (items, numbers) => (item :: items, numbers)

def numberEntries? (numbers : Numbers) :
    List (Node String × Node String) → Option (List (Node Nat × Node Nat) × Numbers)
  | [] => some ([], numbers)
  | (key, value) :: rest =>
    (number? numbers key).bind fun (key, numbers) =>
      (number? numbers value).bind fun (value, numbers) =>
        (numberEntries? numbers rest).map fun (entries, numbers) =>
          ((key, value) :: entries, numbers)

end

mutual

def anchored : Node ν → List (ν × Node ν)
  | .scalar anchor tag text plain => (anchor.map fun a => (a, .scalar anchor tag text plain)).toList
  | .reference _ => []
  | .sequence anchor tag items =>
    (anchor.map fun a => (a, .sequence anchor tag items)).toList ++ anchoredItems items
  | .mapping anchor tag entries =>
    (anchor.map fun a => (a, .mapping anchor tag entries)).toList ++ anchoredEntries entries

def anchoredItems : List (Node ν) → List (ν × Node ν)
  | [] => []
  | item :: rest => anchored item ++ anchoredItems rest

def anchoredEntries : List (Node ν × Node ν) → List (ν × Node ν)
  | [] => []
  | (key, value) :: rest => anchored key ++ (anchored value ++ anchoredEntries rest)

end

mutual

/-- How many starts, ends, scalars and references write a node. -/
def weight : Node ν → Nat
  | .scalar .. => 1
  | .reference _ => 1
  | .sequence _ _ items => 2 + itemsWeight items
  | .mapping _ _ entries => 2 + entriesWeight entries

def itemsWeight : List (Node ν) → Nat
  | [] => 0
  | item :: rest => weight item + itemsWeight rest

def entriesWeight : List (Node ν × Node ν) → Nat
  | [] => 0
  | (key, value) :: rest => weight key + weight value + entriesWeight rest

end

end Node

end DatasetCatalog.Yaml
