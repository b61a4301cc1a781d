import DatasetCatalog.Batch.Cascade
import DatasetCatalog.Batch.Updating
import DatasetCatalog.Catalog.Listing
import DatasetCatalog.CommandLine.Arguments
import DatasetCatalog.Files.Path

/-!
# Requests

A request is a command of one of two groups, with files of its own for the settings and the catalog.
The options for these may stand before, between and after the words of the command; of several the
one nearest to the command counts.
-/

namespace DatasetCatalog.CommandLine

structure AddOptions where
  /-- The products to match against; all if there are none. -/
  products : List String
  addLineage : Bool
  verifyLineage : Bool
  ignoreLineage : Bool
  /-- Confirms that lineage is to be ignored. -/
  confirmed : Bool
  dryRun : Bool
deriving DecidableEq

structure UpdateOptions where
  /-- Dotted fields that may change in any way. -/
  fields : List String
  policy : LocationPolicy
  dryRun : Bool
deriving DecidableEq

inductive Command
  | addProducts (files : List FilePath)
  | listProducts
  | addDatasets (paths : List FilePath) (options : AddOptions)
  | updateDatasets (paths : List FilePath) (options : UpdateOptions)
  | describe (ids : List Identity) (options : DatasetInfo.Options) (format : ListingFormat)
  | archive (ids : List Identity) (options : Cascade.Options)
  | restore (ids : List Identity) (options : Cascade.Options) (toleranceSeconds : Option Int)

structure Request where
  settings : Option FilePath := none
  catalog : Option FilePath := none
  command : Command

/-! The words of a command line -/

def helpOption : OptionSpec := ⟨"help", some 'h', false, false⟩

def versionOption : OptionSpec := ⟨"version", some 'V', false, false⟩

/-- Options that every command takes. Nothing is reported more verbosely than otherwise. -/
def commonOptions : List OptionSpec :=
  [⟨"config", none, true, false⟩, ⟨"catalog", none, true, false⟩, ⟨"verbose", some 'v', false, false⟩,
    helpOption]

def flag (long : String) (short : Option Char := none) : OptionSpec := ⟨long, short, false, false⟩

def setting (long : String) (short : Option Char := none) : OptionSpec := ⟨long, short, true, false⟩

def repeated (long : String) (short : Option Char := none) : OptionSpec := ⟨long, short, true, true⟩

def groups : List (String × List String) :=
  [("product", ["add", "list"]), ("dataset", ["add", "update", "info", "archive", "restore"])]

def ownOptions : (group command : String) → List OptionSpec
  | "dataset", "add" =>
    [repeated "product" (some 'p'), flag "no-auto-add-lineage", flag "no-verify-lineage",
      flag "ignore-lineage", flag "confirm-ignore-lineage", flag "dry-run"]
  | "dataset", "update" => [repeated "allow-any", setting "location-policy", flag "dry-run"]
  | "dataset", "info" =>
    [flag "show-sources", flag "show-derived", setting "format" (some 'f'), setting "max-depth"]
  | "dataset", "archive" => [flag "archive-derived" (some 'd'), flag "dry-run"]
  | "dataset", "restore" =>
    [flag "restore-derived" (some 'd'), setting "derived-tolerance-seconds", flag "dry-run"]
  | _, _ => []

/-! Values of options and operands -/

def orRefuse {α : Type} : Option α → Except Stop α
  | some a => .ok a
  | none => .error .refused

def path? (text : String) : Option FilePath := if text.isEmpty then none else some ⟨text⟩

/-- Decimal digits, of which there is at least one. -/
def digits? (chars : List Char) : Option Nat :=
  if chars.isEmpty || !chars.all Char.isDigit then none else some (Text.decimalValue chars)

def depth? (text : String) : Option Nat :=
  let digits := match text.toList with
    | '+' :: rest => rest
    | rest => rest
  (digits? digits).filter (· < Nat.pow 2 64)

def seconds? (text : String) : Option Int :=
  let n : Option Int := match text.toList with
    | '-' :: rest => (digits? rest).map fun n => -(n : Int)
    | '+' :: rest => (digits? rest).map Int.ofNat
    | rest => (digits? rest).map Int.ofNat
  n.filter fun n => Number.leastSigned ≤ n && n < Number.signedBound

namespace Arguments

/-- The value of an option as `read` takes it, if it is given. -/
def optional? {α : Type} (a : Arguments) (name : String) (read : String → Option α) :
    Except Stop (Option α) :=
  match a.value? name with
  | none => .ok none
  | some text => (orRefuse (read text)).map some

def paths (a : Arguments) : Except Stop (List FilePath) := orRefuse (a.operands.mapM path?)

def identities (a : Arguments) : Except Stop (List Identity) :=
  orRefuse (a.operands.mapM Identity.parse?)

end Arguments

/-! Commands -/

/-- The command that a group's word stands for. -/
def Command.ofArguments (group word : String) (a : Arguments) : Except Stop Command := do
  let dryRun := a.has "dry-run"
  match group, word with
  | "product", "add" => .ok (.addProducts (← a.paths))
  | "product", "list" => if a.operands.isEmpty then .ok .listProducts else .error .refused
  | "dataset", "add" =>
    .ok (.addDatasets (← a.paths)
      { products := a.values "product"
        addLineage := !a.has "no-auto-add-lineage"
        verifyLineage := !a.has "no-verify-lineage"
        ignoreLineage := a.has "ignore-lineage"
        confirmed := a.has "confirm-ignore-lineage"
        dryRun })
  | "dataset", "update" =>
    let policy ← a.optional? "location-policy" LocationPolicy.ofName?
    .ok (.updateDatasets (← a.paths) ⟨a.values "allow-any", policy.getD .keep, dryRun⟩)
  | "dataset", "info" =>
    let format ← a.optional? "format" ListingFormat.ofName?
    let depth ← a.optional? "max-depth" depth?
    .ok (.describe (← a.identities)
      ⟨a.has "show-sources", a.has "show-derived", depth.getD 99⟩ (format.getD .yaml))
  | "dataset", "archive" => .ok (.archive (← a.identities) ⟨a.has "archive-derived", dryRun⟩)
  | "dataset", "restore" =>
    let seconds ← a.optional? "derived-tolerance-seconds" seconds?
    .ok (.restore (← a.identities) ⟨a.has "restore-derived", dryRun⟩ seconds)
  | _, _ => .error .refused

/-- Help is shown for a group or a command that there is. -/
def helpOn : List String → Stop
  | [] => .help
  | group :: rest =>
    match groups.lookup group, rest with
    | some _, [] => .help
    | some words, word :: _ => if words.contains word then .help else .refused
    | none, _ => .refused

namespace Request

/-- The last path that the levels of a command line give for a file. -/
def file? (levels : List Arguments) (name : String) : Except Stop (Option FilePath) := do
  let given ← levels.mapM fun a => a.optional? name path?
  .ok (given.filterMap id).getLast?

/-- The request that arguments make. -/
def ofArguments (arguments : List String) : Except Stop Request := do
  let (top, rest) ← ({} : Arguments).readLeading (versionOption :: commonOptions) arguments
  match rest with
  | [] => .error .refused
  | "help" :: words => .error (helpOn words)
  | group :: rest =>
    let words ← orRefuse (groups.lookup group)
    let (middle, rest) ← ({} : Arguments).readLeading commonOptions rest
    match rest with
    | [] => .error .refused
    | "help" :: below => .error (helpOn (group :: below))
    | word :: rest =>
      if words.contains word then
        let own ← Arguments.read (ownOptions group word ++ commonOptions) rest
        let command ← Command.ofArguments group word own
        let settings ← file? [top, middle, own] "config"
        let catalog ← file? [top, middle, own] "catalog"
        .ok { settings, catalog, command }
      else .error .refused

end Request

end DatasetCatalog.CommandLine
