import DatasetCatalog.Files.FileSystem

/-!
# Replacing files

A file is replaced by way of a draft beside it: the directories on its way are made, the draft is
written, and then it takes the place of the file. A step that is refused leaves what the steps before
it have done.
-/

namespace DatasetCatalog

inductive ReplacementError
  | creating (directory : FilePath) (cause : FileError)
  | writing (draft : FilePath) (cause : FileError)
  | moving (path : FilePath) (cause : FileError)

namespace FilePath

/-- Where the new content of a file is written at first. -/
def draft (p : FilePath) : FilePath := p.withExtension "json.tmp"

/-- Why no file can be moved to a path at which nothing stands: the path ends as that of a
directory. -/
def directoryEndError? (p : FilePath) : Option FileError :=
  if p.idleEnd.isEmpty then none
  else if p.idleEnd.all List.isEmpty then some .notADirectory
  else some .notFound

end FilePath

namespace FileTree

/-- A step that changes a tree; if it is refused, the tree is kept as it is then. -/
abbrev Change := ExceptT FileError (StateM FileTree)

variable (workingDirectory : String)

def fileSystemNow : Change FileSystem := do return (← get).fileSystem workingDirectory

/-- Puts an entry where nothing stands; the directory that contains it must be there. -/
def place? (p : FilePath) (e : FileEntry) : Change Unit := do
  let fs ← fileSystemNow workingDirectory
  if p.parent.text.isEmpty || fs.isDirectory p.parent then
    modify fun t => t.write (p.absolute workingDirectory) e
  else throw .notFound

def makeDirectory (p : FilePath) : Change Unit := do
  match (← fileSystemNow workingDirectory).look p with
  | .ok _ => throw .alreadyExists
  | .error .notFound => place? workingDirectory p .directory
  | .error e => throw e

def requireDirectory (p : FilePath) : Change Unit := do
  try makeDirectory workingDirectory p
  catch e =>
    if (← fileSystemNow workingDirectory).isDirectory p then pure () else throw e

/-- Makes a directory and the missing ones above it, of which there are at most `n`. -/
def makeDirectories : (n : Nat) → FilePath → Change Unit
  | 0, p => requireDirectory workingDirectory p
  | n + 1, p => do
    if p.text.isEmpty then pure ()
    else
      try requireDirectory workingDirectory p
      catch
        | .notFound => do
          makeDirectories n p.parent
          requireDirectory workingDirectory p
        | e => throw e

def writeFile (p : FilePath) (content : ByteArray) : Change Unit := do
  match (← fileSystemNow workingDirectory).look p with
  | .ok .directory => throw .isADirectory
  | .ok (.file _) => modify fun t => t.write (p.absolute workingDirectory) (.file content)
  | .error .notFound => place? workingDirectory p (.file content)
  | .error e => throw e

/-- Moves the file at `draft` to `p`, where it replaces a file. -/
def moveFile (draft p : FilePath) : Change Unit := do
  match (← fileSystemNow workingDirectory).look p with
  | .ok .directory => throw .isADirectory
  | .error .notFound => if let some e := p.directoryEndError? then throw e
  | .error e => throw e
  | .ok (.file _) => pure ()
  modify fun t => t.rename (draft.absolute workingDirectory) (p.absolute workingDirectory)

/-- Gives the file at a path another content. -/
def replaceFile (p : FilePath) (content : ByteArray) :
    ExceptT ReplacementError (StateM FileTree) Unit := do
  let directory := p.parent
  (makeDirectories workingDirectory directory.segments.length directory).adapt
    (.creating directory)
  (writeFile workingDirectory p.draft content).adapt (.writing p.draft)
  (moveFile workingDirectory p.draft p).adapt (.moving p)

end FileTree

end DatasetCatalog
