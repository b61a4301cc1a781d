import DatasetCatalog.Files.Path

/-!
# File systems

A file system is a working directory and what stands at each path. A file tree holds one in memory;
its paths are followed segment by segment, so that an ascent needs the directory that it leaves.
-/

namespace DatasetCatalog

inductive FileError
  | notFound
  | notADirectory
  | isADirectory
  | alreadyExists
  | denied
  | nameTooLong
  | notText
deriving DecidableEq

def FileError.message : FileError → String
  | .notFound => "No such file or directory (os error 2)"
  | .notADirectory => "Not a directory (os error 20)"
  | .isADirectory => "Is a directory (os error 21)"
  | .alreadyExists => "File exists (os error 17)"
  | .denied => "Permission denied (os error 13)"
  | .nameTooLong => "File name too long (os error 36)"
  | .notText => "stream did not contain valid UTF-8"

inductive FileEntry
  | directory
  | file (content : ByteArray)

structure FileSystem where
  workingDirectory : String
  look : FilePath → Except FileError FileEntry

namespace FileSystem

def isDirectory (fs : FileSystem) (p : FilePath) : Bool :=
  match fs.look p with
  | .ok .directory => true
  | _ => false

def isFile (fs : FileSystem) (p : FilePath) : Bool :=
  match fs.look p with
  | .ok (.file _) => true
  | _ => false

def readText (fs : FileSystem) (p : FilePath) : Except FileError String :=
  match fs.look p with
  | .error e => .error e
  | .ok .directory => .error .isADirectory
  | .ok (.file content) =>
    match String.fromUTF8? content with
    | some text => .ok text
    | none => .error .notText

end FileSystem

/-- Entries by their segments below the root. Whatever contains an entry is a directory. -/
structure FileTree where
  entries : List (List (List Char) × FileEntry)

namespace FileTree

def empty : FileTree := ⟨[]⟩

def entry? (t : FileTree) (here : List (List Char)) : Option FileEntry :=
  match t.entries.find? fun e => e.1 == here with
  | some e => some e.2
  | none =>
    if here.isEmpty || t.entries.any fun e => here.isPrefixOf e.1 then some .directory else none

def nameLimit : Nat := 255

def pathLimit : Nat := 4095

/-- Follows segments from a place in the tree. -/
def follow (t : FileTree) : (here : List (List Char)) → List (List Char) → Except FileError FileEntry
  | here, [] =>
    match t.entry? here with
    | some e => .ok e
    | none => .error .notFound
  | here, s :: rest =>
    match t.entry? here with
    | none => .error .notFound
    | some (.file _) => .error .notADirectory
    | some .directory =>
      if nameLimit < (String.ofList s).utf8ByteSize then .error .nameTooLong
      else t.follow (if FilePath.isIdle s then here
        else if FilePath.isAscent s then here.dropLast else here ++ [s]) rest

/-- Where an absolute path leads if every directory on its way exists. -/
def place (p : FilePath) : List (List Char) :=
  p.segments.foldl (fun here s =>
    if FilePath.isIdle s then here
    else if FilePath.isAscent s then here.dropLast else here ++ [s]) []

/-- The tree seen from a working directory. -/
def fileSystem (t : FileTree) (workingDirectory : String) : FileSystem where
  workingDirectory
  look p :=
    if p.text.isEmpty then .error .notFound
    else if pathLimit < p.text.utf8ByteSize then .error .nameTooLong
    else t.follow (if p.isAbsolute then [] else place ⟨workingDirectory⟩) p.segments

def write (t : FileTree) (p : FilePath) (e : FileEntry) : FileTree :=
  ⟨(place p, e) :: t.entries.filter fun old => old.1 ≠ place p⟩

def content? (t : FileTree) (p : FilePath) : Option ByteArray :=
  match t.entry? (place p) with
  | some (.file content) => some content
  | _ => none

/-- Moves the file between the places of two absolute paths. -/
def rename (t : FileTree) (p q : FilePath) : FileTree :=
  match t.content? p with
  | none => t
  | some content =>
    FileTree.write ⟨t.entries.filter fun old => old.1 ≠ place p⟩ q (.file content)

end FileTree

end DatasetCatalog
