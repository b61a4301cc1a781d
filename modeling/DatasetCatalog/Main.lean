import DatasetCatalog.CommandLine.Run
import Std.Time.DateTime.Timestamp

/-!
# The program

Looks up the files that a request may read, runs it, and writes and prints what it leads to.
-/

namespace DatasetCatalog.CommandLine

/-- Every path that a request may look at. -/
def Request.lookedAt (r : Request) : List FilePath :=
  let own := match r.command with
    | .addProducts files => files
    | .addDatasets paths _ | .updateDatasets paths _ =>
      paths.flatMap fun p => p :: (p.metadataInside ++ p.metadataBeside)
    | _ => []
  r.settings.toList ++ [r.catalog.getD Session.standardCatalog] ++ own

/-- Whether an error has this number, which may come with its sign changed. -/
def hasNumber (code number : UInt32) : Bool := code == number || code == 0 - number

def fileError : IO.Error → FileError
  | .noFileOrDirectory .. => .notFound
  | .alreadyExists .. => .alreadyExists
  | .inappropriateType _ code _ => if hasNumber code 21 then .isADirectory else .notADirectory
  | .invalidArgument _ code _ => if hasNumber code 36 then .nameTooLong else .denied
  | _ => .denied

/-- What stands at a path. A directory opens like a file and then cannot be read. -/
def look (p : FilePath) : IO (Except FileError FileEntry) := do
  try return .ok (.file (← IO.FS.readBinFile p.text))
  catch e =>
    match fileError e with
    | .isADirectory => return .ok .directory
    | e => return .error e

def fileSystem (paths : List FilePath) : IO FileSystem := do
  let found ← paths.mapM fun p => return (p, ← look p)
  let workingDirectory := (← IO.currentDir).toString
  return { workingDirectory, look := fun p => (found.lookup p).getD (.error .notFound) }

/-- The instant that many nanoseconds after the start of 1970. -/
def instant (nanoseconds : Int) : Timestamp :=
  let seconds := nanoseconds / Timestamp.nanosPerSecond
  ⟨seconds / Timestamp.secondsPerDay, (seconds % Timestamp.secondsPerDay).toNat,
    (nanoseconds % Timestamp.nanosPerSecond).toNat⟩

def step (refused : Option ReplacementError) (error : FileError → ReplacementError) (act : IO Unit) :
    IO (Option ReplacementError) := do
  if refused.isSome then return refused
  else
    try
      act
      return none
    catch e => return some (error (fileError e))

def replaceFile (p : FilePath) (content : String) : IO (Option ReplacementError) := do
  let directory := p.parent
  let refused ← step none (.creating directory) do
    unless directory.text.isEmpty do IO.FS.createDirAll directory.text
  let refused ← step refused (.writing p.draft) (IO.FS.writeFile p.draft.text content)
  step refused (.moving p) (IO.FS.rename p.draft.text p.text)

/-- Runs what the arguments ask for. Each reading of the clock is a nanosecond after the last. -/
def runNow (arguments : List String) : IO Run := do
  match Request.ofArguments arguments with
  | .error stop => return .finished stop.outcome
  | .ok r =>
    let start := (← Std.Time.Timestamp.now).toNanosecondsSinceUnixEpoch.val
    return r.run (← fileSystem r.lookedAt) fun i => instant (start + i)

def complete (arguments : List String) : IO Outcome := do
  let r ← runNow arguments
  match r.file? with
  | none => return r.outcome none
  | some (p, content) => return r.outcome (← replaceFile p content)

end DatasetCatalog.CommandLine

def main (arguments : List String) : IO UInt32 := do
  let o ← DatasetCatalog.CommandLine.complete arguments
  for e in o.events do IO.eprintln e.text
  IO.print o.output
  IO.eprint o.errors
  return o.exitCode.toUInt32
