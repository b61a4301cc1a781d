import DatasetCatalog.Batch.Indexing
import DatasetCatalog.Catalog.Rules
import DatasetCatalog.Catalog.Snapshot
import DatasetCatalog.CommandLine.Request
import DatasetCatalog.Files.Replacement
import DatasetCatalog.Files.Stream
import DatasetCatalog.Settings

/-!
# Running requests

A request opens the settings and the catalog, runs its command, and tells what is printed, with which
code the program ends, and what the catalog's file is to hold. Nothing is written by a dry run, by a
command that only reads, or if something fails before; what is printed last depends on whether the
file could be replaced.
-/

namespace DatasetCatalog.CommandLine

/-- What a run is seen to lead to. -/
structure Outcome where
  output : String := ""
  errors : String := ""
  exitCode : Nat := 0
  events : List Event := []

/-- What goes wrong, the cause last. -/
abbrev Failure := List String

def failureText : Failure → String
  | [] => ""
  | message :: causes =>
    "Error: " ++ message ++ "\n" ++
      if causes.isEmpty then ""
      else "\nCaused by:\n" ++ String.join (causes.map fun c => "    " ++ indented c ++ "\n")
where
  indented (cause : String) := String.ofList ("\n    ".toList.intercalate (cause.toList.splitOn '\n'))

namespace Outcome

def fail (o : Outcome) (f : Failure) : Outcome :=
  { o with errors := o.errors ++ failureText f, exitCode := 1 }

def print (o : Outcome) (text : String) : Outcome := { o with output := o.output ++ text }

def printError (o : Outcome) (text : String) : Outcome := { o with errors := o.errors ++ text }

def report (o : Outcome) (events : List Event) : Outcome := { o with events := o.events ++ events }

def conclude (o : Outcome) (r : BatchReport) : Outcome :=
  if r.isClean then o.printError ("ok " ++ r.text ++ "\n")
  else { o.printError ("failed " ++ r.text ++ "\n") with exitCode := 1 }

end Outcome

/-- What a run leads to: the end, or a file to be replaced before it. -/
inductive Run
  | finished (o : Outcome)
  | saving (path : FilePath) (content : String) (o : Outcome) (next : Outcome → Outcome)

def replacementFailure : ReplacementError → Failure
  | .creating directory cause => ["creating " ++ directory.text, cause.message]
  | .writing draft cause => ["writing " ++ draft.text, cause.message]
  | .moving path cause => ["replacing catalog snapshot " ++ path.text, cause.message]

namespace Run

/-- The path of the file to be replaced and its content. -/
def file? : Run → Option (FilePath × String)
  | .finished _ => none
  | .saving path content _ _ => some (path, content)

/-- The end of a run, given why the file was not replaced. -/
def outcome (refusal : Option ReplacementError) : Run → Outcome
  | .finished o => o
  | .saving _ _ o next =>
    match refusal with
    | some e => o.fail (replacementFailure e)
    | none => next o

/-- The end of a run in a file tree, and the tree afterwards. -/
def inTree (r : Run) (workingDirectory : String) (t : FileTree) : Outcome × FileTree :=
  match r.file? with
  | none => (r.outcome none, t)
  | some (path, content) =>
    match (t.replaceFile workingDirectory path content.toUTF8).run with
    | (.ok (), t) => (r.outcome none, t)
    | (.error e, t) => (r.outcome (some e), t)

end Run

structure Session where
  files : FileSystem
  settings : Settings
  catalogPath : FilePath
  catalog : Catalog

namespace Session

/-- Where the catalog is kept if the request does not say. -/
def standardCatalog : FilePath := ⟨"./geocat-catalog.json"⟩

def readSettings (files : FileSystem) (p : FilePath) : Except Failure Settings :=
  match files.readText p with
  | .error e => .error ["reading config " ++ p.text, e.message]
  | .ok text =>
    match Settings.read text with
    | .error e => .error (e.messages p.text ++ (e.fault?.map Json.Fault.message).toList)
    | .ok settings => .ok settings

/-- The catalog of a file; one that cannot be looked up is an empty one. -/
def readCatalog (files : FileSystem) (p : FilePath) : Except Failure Catalog :=
  match files.readText p with
  | .error .notFound | .error .notADirectory | .error .nameTooLong => .ok .empty
  | .error e => .error ["reading catalog snapshot " ++ p.text, e.message]
  | .ok text =>
    match Catalog.ofSnapshot? text with
    | .error e => .error (e.message p.text :: (e.fault?.map Json.Fault.message).toList)
    | .ok catalog => .ok catalog

def ofRequest (files : FileSystem) (r : Request) : Except Failure Session := do
  let settings ← match r.settings with
    | none => pure Settings.standard
    | some p => readSettings files p
  let catalogPath := r.catalog.getD standardCatalog
  let catalog ← readCatalog files catalogPath
  .ok { files, settings, catalogPath, catalog }

/-- Saves a catalog and goes on. -/
def save (s : Session) (c : Catalog) (o : Outcome) (next : Outcome → Outcome) : Run :=
  .saving s.catalogPath c.snapshot o next

/-- Saves the catalog that a batch has left, unless it was a dry run, and tells the count. -/
def finish (s : Session) (c : Catalog) (dryRun : Bool) (r : BatchReport) (o : Outcome) : Run :=
  if dryRun then .finished (o.conclude r) else s.save c o fun o => o.conclude r

/-! Products -/

/-- A run that registers products: the catalog so far and what failed. -/
structure Registration where
  catalog : Catalog
  failed : Nat
  outcome : Outcome

def Registration.refuse (g : Registration) (e : Event) : Registration :=
  { g with failed := g.failed + 1, outcome := g.outcome.report [e] }

def define (g : Registration) (d : String × Document) : Registration :=
  let refused := fun (message : String) =>
    g.refuse (.error "failed to add product" [("uri", d.1), ("error", message)])
  match Product.ofDefinition d.2 with
  | .error e => refused e.message
  | .ok p =>
    match g.catalog.addProduct p with
    | .error e => refused e.message
    | .ok (catalog, p, events) =>
      { g with
        catalog
        outcome := (g.outcome.report events).printError ("added product " ++ p.name ++ "\n") }

def defineAll (files : FileSystem) (g : Registration) (p : FilePath) : Registration :=
  match files.readDocuments p with
  | .error e =>
    g.refuse (.error "skipping product file" [("path", p.text), ("error", e.message)])
  | .ok documents => documents.foldl define g

def addProducts (s : Session) (paths : List FilePath) : Run :=
  let g := paths.foldl (defineAll s.files) ⟨s.catalog, 0, {}⟩
  s.save g.catalog g.outcome fun o => if g.failed == 0 then o else { o with exitCode := 1 }

def listProducts (s : Session) : Outcome :=
  let line := fun (p : Product) => p.name ++ "\t" ++ p.description.getD "" ++ "\n"
  let o : Outcome := if s.catalog.products.isEmpty then { errors := "info: no products registered\n" }
    else {}
  o.print (String.join (s.catalog.products.map line))

/-! Batches -/

def failing (r : BatchReport) (n : Nat) : BatchReport := r.merge ⟨0, n⟩

def unreadEvents (d : DocumentStream) : List Event :=
  d.failures.map fun f =>
    .error "skipping dataset" [("path", f.1.text), ("error", f.2.message)]

def resolver (s : Session) (o : AddOptions) : Except Failure Resolver :=
  match s.catalog.rules o.products with
  | .error e => .error [e.message]
  | .ok rules =>
    match Matcher.ofRules rules s.settings.matching s.settings.layout with
    | .error e => .error [e.message]
    | .ok matcher => .ok ⟨matcher, .ofFlags o.ignoreLineage (!o.addLineage) o.verifyLineage⟩

def unconfirmed : String :=
  "--ignore-lineage records datasets without their sources; pass --confirm-ignore-lineage to proceed"

def addDatasets (s : Session) (clock : Nat → Timestamp) (paths : List FilePath) (o : AddOptions) :
    Run :=
  if o.ignoreLineage && !o.confirmed then .finished (({} : Outcome).fail [unconfirmed])
  else
    match s.resolver o with
    | .error f => .finished (({} : Outcome).fail f)
    | .ok r =>
      let documents := s.files.documentStream paths
      let p := Indexing.run r ⟨o.addLineage, o.dryRun⟩ clock s.catalog documents.documents
      s.finish p.catalog o.dryRun (failing p.report (p.unresolved + documents.failures.length))
        (({} : Outcome).report (unreadEvents documents ++ p.events))

def rejectedEvent (uri : String) (e : UpdateError) : Event :=
  .error "Failed to update dataset" [("uri", uri), ("error", e.message)]

def updateDatasets (s : Session) (paths : List FilePath) (o : UpdateOptions) : Run :=
  match ChangeRules.allowAny o.fields with
  | .error e => .finished (({} : Outcome).fail [e.message])
  | .ok rules =>
    let documents := s.files.documentStream paths
    let loaded := documents.documents.map fun d =>
      (d.1, UpdateCandidate.load s.catalog s.settings.layout d.2 d.1)
    let rejected := loaded.filterMap fun l =>
      match l.2 with
      | .ok _ => none
      | .error e => some (rejectedEvent l.1 e)
    let p := Updating.run ⟨rules, o.policy, o.dryRun⟩ s.catalog (loaded.filterMap fun l => l.2.toOption)
    s.finish p.catalog o.dryRun (failing p.report (documents.failures.length + rejected.length))
      (({} : Outcome).report (unreadEvents documents ++ rejected ++ p.events))

/-- The selected datasets, a line each. -/
def selectionText (verb : String) (dryRun : Bool) (selected : List Entry) : String :=
  let verb := if dryRun then "would " ++ verb else verb
  String.join (selected.map fun e => Cascade.selectedText verb e ++ "\n")

def finishCascade (s : Session) (verb : String) (dryRun : Bool) (p : Cascade.Progress) : Run :=
  s.finish p.catalog dryRun p.report
    ((({} : Outcome).report p.events).print (selectionText verb dryRun p.selected))

def archive (s : Session) (clock : Nat → Timestamp) (ids : List Identity) (o : Cascade.Options) :
    Run :=
  s.finishCascade "archive" o.dryRun (Cascade.archive o clock s.catalog ids)

def restore (s : Session) (ids : List Identity) (o : Cascade.Options) (seconds : Option Int) : Run :=
  let settings := { s.settings with toleranceSeconds := seconds.getD s.settings.toleranceSeconds }
  match settings.tolerance with
  | .error e => .finished (({} : Outcome).fail [e.message])
  | .ok tolerance =>
    s.finishCascade "restore" o.dryRun (Cascade.restore o tolerance s.catalog ids)

/-! Records -/

/-- Records found so far, the number of datasets that are missing, and what is printed of them. -/
structure Search where
  found : List DatasetInfo := []
  missing : Nat := 0
  outcome : Outcome := {}

/-- Looks for the datasets in turn. -/
def search (s : Session) (o : DatasetInfo.Options) : Search → List Identity → Except Outcome Search
  | found, [] => .ok found
  | found, id :: rest =>
    match s.catalog.get? id with
    | .error e => .error (found.outcome.fail [e.message])
    | .ok none =>
      s.search o { found with
        missing := found.missing + 1
        outcome := found.outcome.printError ("error: " ++ id.text ++ " missing\n") } rest
    | .ok (some entry) =>
      match DatasetInfo.ofEntry s.catalog o entry with
      | .error e => .error (found.outcome.fail [e.message])
      | .ok (info, events) =>
        s.search o { found with
          found := found.found ++ [info], outcome := found.outcome.report events } rest

def describe (s : Session) (ids : List Identity) (o : DatasetInfo.Options) (format : ListingFormat) :
    Outcome :=
  match s.search o {} ids with
  | .error o => o
  | .ok found =>
    { found.outcome.print (format.text found.found) with exitCode := min found.missing 255 }

def run (s : Session) (clock : Nat → Timestamp) : Command → Run
  | .addProducts files => s.addProducts files
  | .listProducts => .finished s.listProducts
  | .addDatasets paths o => s.addDatasets clock paths o
  | .updateDatasets paths o => s.updateDatasets paths o
  | .describe ids o format => .finished (s.describe ids o format)
  | .archive ids o => s.archive clock ids o
  | .restore ids o seconds => s.restore ids o seconds

end Session

namespace Request

def run (files : FileSystem) (clock : Nat → Timestamp) (r : Request) : Run :=
  match Session.ofRequest files r with
  | .error f => .finished (({} : Outcome).fail f)
  | .ok s => s.run clock r.command

end Request

def usage : String :=
  String.intercalate "\n"
    ["Usage: geocat [--config FILE] [--catalog FILE] [-v] COMMAND",
      "",
      "Commands:",
      "  product add [FILES]     register products",
      "  product list            list registered products",
      "  dataset add [PATHS]     index datasets and their lineage",
      "  dataset update [PATHS]  update indexed datasets",
      "  dataset info [IDS]      show indexed datasets",
      "  dataset archive [IDS]   archive datasets",
      "  dataset restore [IDS]   restore archived datasets",
      ""]

/-- What arguments that lead to no command are answered with. -/
def Stop.outcome : Stop → Outcome
  | .help => { output := usage }
  | .version => { output := "geocat 0.6.0\n" }
  | .refused => { errors := usage, exitCode := 2 }

/-- Runs what the arguments ask for, given the readings of the clock. -/
def run (files : FileSystem) (clock : Nat → Timestamp) (arguments : List String) : Run :=
  match Request.ofArguments arguments with
  | .error stop => .finished stop.outcome
  | .ok r => r.run files clock

end DatasetCatalog.CommandLine
