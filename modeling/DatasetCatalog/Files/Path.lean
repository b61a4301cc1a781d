import DatasetCatalog.Text.Basic

/-!
# File paths

A path is a text of segments between slashes. Empty segments and single dots are idle: they stay
where they are, so they name no file, except that a path may start with one. Paths are kept as they
were given; `fileUri` alone makes them absolute.
-/

namespace DatasetCatalog

structure FilePath where
  text : String
deriving DecidableEq, Inhabited

namespace FilePath

def segments (p : FilePath) : List (List Char) := List.splitOn '/' p.text.toList

/-- Whether a segment stays where it is. -/
def isIdle (segment : List Char) : Bool := segment.isEmpty || segment == ['.']

def isAscent (segment : List Char) : Bool := segment == ['.', '.']

def dropIdleEnd : List (List Char) → List (List Char)
  | [] => []
  | first :: rest => first :: (rest.reverse.dropWhile isIdle).reverse

def idleEnd (p : FilePath) : List (List Char) :=
  p.segments.drop (dropIdleEnd p.segments).length

def ofSegments : List (List Char) → FilePath
  | [[]] => ⟨"/"⟩
  | segments => ⟨String.ofList (['/'].intercalate segments)⟩

def isAbsolute (p : FilePath) : Bool := p.text.toList.head? == some '/'

def fileName? (p : FilePath) : Option (List Char) :=
  match (dropIdleEnd p.segments).getLast? with
  | some s => if isIdle s || isAscent s then none else some s
  | none => none

def extension? (p : FilePath) : Option (List Char) :=
  p.fileName?.bind fun name =>
    match name.reverse.dropWhile (· ≠ '.') with
    | [] | ['.'] => none
    | _ => some (name.reverse.takeWhile (· ≠ '.')).reverse

/-- The path of a relative path below this one. -/
def join (p : FilePath) (below : String) : FilePath :=
  if below.toList.head? == some '/' then ⟨below⟩
  else if p.text.isEmpty || p.text.toList.getLast? == some '/' then ⟨p.text ++ below⟩
  else ⟨p.text ++ "/" ++ below⟩

def parent (p : FilePath) : FilePath := ofSegments (dropIdleEnd (dropIdleEnd p.segments).dropLast)

def withFileName (p : FilePath) (name : String) : FilePath := p.parent.join name

def append (p : FilePath) (ending : String) : FilePath := ⟨p.text ++ ending⟩

/-- The file name without the extension. -/
def stem? (p : FilePath) : Option (List Char) :=
  p.fileName?.map fun name =>
    match p.extension? with
    | some old => name.take (name.length - old.length - 1)
    | none => name

def beforeName (p : FilePath) : List Char :=
  (dropIdleEnd p.segments).dropLast.flatMap fun s => s ++ ['/']

/-- Puts another ending in place of the extension and of what follows the file name. The old
extension goes first, which may leave an ascent: that has no ending. -/
def withExtension (p : FilePath) (ending : String) : FilePath :=
  match p.stem? with
  | none => p
  | some stem =>
    let cut := stem ++ ['.']
    let ending := if isAscent cut && p.idleEnd.isEmpty then [] else ending.toList
    ⟨String.ofList (p.beforeName ++ cut ++ ending)⟩

/-- Bytes that a segment of a URI holds as they are. -/
def isUriByte (b : UInt8) : Bool :=
  0x20 < b && b < 0x7f && !(['"', '#', '%', '/', '<', '>', '?', '\\', '\x60', '\x7b', '\x7d'].any
    fun c => c.toNat == b.toNat)

/-- A segment of a URI: other bytes are written as `%` and two digits. -/
def uriSegment (segment : List Char) : List Char :=
  (String.ofList segment).toUTF8.toList.flatMap fun b =>
    if isUriByte b then [Char.ofNat b.toNat]
    else '%' :: (Text.hexChars 2 b.toNat).map Char.toUpper

/-- The path from the root on, if it starts in the working directory. -/
def absolute (p : FilePath) (workingDirectory : String) : FilePath :=
  (FilePath.mk workingDirectory).join p.text

/-- The URI of a path that starts in the working directory. -/
def fileUri (p : FilePath) (workingDirectory : String) : String :=
  let segments := (p.absolute workingDirectory).segments.filter fun s => !isIdle s
  "file://" ++ if segments.isEmpty then "/"
    else String.ofList (segments.flatMap fun s => '/' :: uriSegment s)

end FilePath

end DatasetCatalog
