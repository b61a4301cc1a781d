/-!
# Events and reports

What an operation tells about its course, beside its result. An event has a level, a message, and
named values that the message may leave out. In a batch every item stands alone: one that fails is
counted in the report, and the batch goes on.
-/

namespace DatasetCatalog

inductive Severity
  | info
  | warning
  | error
deriving DecidableEq

structure Event where
  severity : Severity
  message : String
  fields : List (String × String)
deriving DecidableEq

namespace Severity

def text : Severity → String
  | .info => "INFO"
  | .warning => "WARN"
  | .error => "ERROR"

end Severity

namespace Event

def info (message : String) (fields : List (String × String) := []) : Event :=
  ⟨.info, message, fields⟩

def warning (message : String) (fields : List (String × String) := []) : Event :=
  ⟨.warning, message, fields⟩

def error (message : String) (fields : List (String × String) := []) : Event :=
  ⟨.error, message, fields⟩

/-- The event on one line, its fields last. -/
def text (e : Event) : String :=
  e.fields.foldl (fun line f => line ++ " " ++ f.1 ++ "=" ++ f.2) (e.severity.text ++ " " ++ e.message)

end Event

/-- How many items of a batch went through. -/
structure BatchReport where
  succeeded : Nat := 0
  failed : Nat := 0
deriving DecidableEq, Inhabited

namespace BatchReport

def merge (a b : BatchReport) : BatchReport := ⟨a.succeeded + b.succeeded, a.failed + b.failed⟩

def succeed (r : BatchReport) : BatchReport := { r with succeeded := r.succeeded + 1 }

def fail (r : BatchReport) : BatchReport := { r with failed := r.failed + 1 }

/-- Whether nothing failed. -/
def isClean (r : BatchReport) : Bool := r.failed == 0

def text (r : BatchReport) : String :=
  toString r.succeeded ++ " successful, " ++ toString r.failed ++ " failed"

end BatchReport

end DatasetCatalog
