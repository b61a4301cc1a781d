import DatasetCatalog.Document.DifferenceRecord
import DatasetCatalog.Document.Layout
import DatasetCatalog.Json.Shape

/-!
# Settings

Where documents keep what the catalog needs, how texts of signatures are compared, and how far apart
archive times may be in a cascading restore. Settings are read from a JSON text in which every field
may be missing.
-/

namespace DatasetCatalog

/-- A number of seconds that no duration represents. -/
inductive ToleranceError
  | negative (seconds : Int)
  | outOfRange (seconds : Int)
deriving DecidableEq

def ToleranceError.message : ToleranceError → String
  | .negative seconds =>
    "derived tolerance must not be negative, got " ++ toString seconds ++ " seconds"
  | .outOfRange seconds => "derived tolerance of " ++ toString seconds ++ " seconds is out of range"

namespace Layout

def record (layout : Layout) : Value :=
  .mapping [("id", layout.id.value), ("sources", layout.sources.value),
    ("measurements", layout.measurements.value)]

def read? (t : Json.Tree) : Option Layout :=
  match t.record? ["id", "sources", "measurements"] with
  | some [id, sources, measurements] => do
    let id ← Json.Tree.orElse? standard.id Json.Tree.path? id
    let sources ← Json.Tree.orElse? standard.sources Json.Tree.path? sources
    let measurements ← Json.Tree.orElse? standard.measurements Json.Tree.path? measurements
    some { id, sources, measurements }
  | _ => none

def shape : Json.Shape :=
  .record "DocLayout"
    [("id", false, .path), ("sources", false, .path), ("measurements", false, .path)]

end Layout

structure Settings where
  layout : Layout := .standard
  matching : CaseMode := .sensitive
  /-- How many seconds around a target's archive time a cascading restore reaches. -/
  toleranceSeconds : Int := 600
deriving DecidableEq, Inhabited

inductive SettingsError
  | malformed (cause : Option Json.Fault)
  | tolerance (cause : ToleranceError)
deriving DecidableEq

namespace Settings

def standard : Settings := {}

/-- The longest duration, counted in milliseconds in 64 bits. -/
def maxTolerance : Nat := (Nat.pow 2 63 - 1) / 1000

def tolerance (s : Settings) : Except ToleranceError Nat :=
  if s.toleranceSeconds < 0 then .error (.negative s.toleranceSeconds)
  else if maxTolerance < s.toleranceSeconds then .error (.outOfRange s.toleranceSeconds)
  else .ok s.toleranceSeconds.toNat

def record (s : Settings) : Value :=
  .mapping [("layout", s.layout.record),
    ("matching", .mapping [("case_sensitive", .boolean s.matching.isSensitive)]),
    ("restore", .mapping [("derived_tolerance_secs",
      ((Number.ofInt? s.toleranceSeconds).map .number).getD .null)])]

/-- A record with one field. -/
def readSingle? {α : Type} (name : String) (absent : α) (read : Json.Tree → Option α)
    (t : Json.Tree) : Option α :=
  match t.record? [name] with
  | some [field] => Json.Tree.orElse? absent read field
  | _ => none

def readTree? (t : Json.Tree) : Option Settings :=
  match t.record? ["layout", "matching", "restore"] with
  | some [layout, matching, restore] => do
    let layout ← Json.Tree.orElse? standard.layout Layout.read? layout
    let sensitive ← Json.Tree.orElse? true (readSingle? "case_sensitive" true Json.Tree.boolean?) matching
    let toleranceSeconds ← Json.Tree.orElse? standard.toleranceSeconds
      (readSingle? "derived_tolerance_secs" standard.toleranceSeconds
        (Json.Tree.integer? Number.leastSigned Number.signedBound)) restore
    some { layout, matching := .ofSensitive sensitive, toleranceSeconds }
  | _ => none

def shape : Json.Shape :=
  .record "CatalogConfig"
    [("layout", false, Layout.shape),
      ("matching", false, .record "MatchConfig" [("case_sensitive", false, .boolean)]),
      ("restore", false, .record "RestoreConfig" [("derived_tolerance_secs", false,
        .integer "i64" Number.leastSigned Number.signedBound)])]

/-- Reads settings and checks that the tolerance is a duration. -/
def read (text : String) : Except SettingsError Settings :=
  match (Json.Tree.read? text).bind readTree? with
  | none => .error (.malformed (shape.fault? text))
  | some s =>
    match s.tolerance with
    | .ok _ => .ok s
    | .error e => .error (.tolerance e)

end Settings

namespace SettingsError

/-- What went wrong with the settings in the file `path`. -/
def messages (path : String) : SettingsError → List String
  | .malformed _ => ["parsing config " ++ path]
  | .tolerance cause => ["invalid restore settings in " ++ path, cause.message]

/-- What is wrong with their text. -/
def fault? : SettingsError → Option Json.Fault
  | .malformed cause => cause
  | .tolerance _ => none

end SettingsError

end DatasetCatalog
