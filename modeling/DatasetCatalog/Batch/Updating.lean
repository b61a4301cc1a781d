import DatasetCatalog.Catalog.Basic
import DatasetCatalog.Event

/-!
# Updating recorded datasets

An update keeps the product of the dataset that it replaces and leaves lineage alone; change rules
decide whether it may be written. What becomes of the recorded location is a matter of its own, and
only settled if there is exactly one, since of several none can be told to be the one replaced.
-/

namespace DatasetCatalog

inductive UpdateError
  | missingIdentity
  | notIndexed (id : Identity)
  | document (cause : DocumentError)
  | measurement (cause : MeasurementError)
  | catalog (cause : CatalogError)

def UpdateError.message : UpdateError → String
  | .missingIdentity => "Metadata document is missing id field"
  | .notIndexed id => "No such dataset in the database: " ++ id.text
  | .document cause => cause.message
  | .measurement cause => cause.message
  | .catalog cause => cause.message

/-- A new version of a dataset, with the entry that it replaces. -/
structure UpdateCandidate where
  dataset : Dataset
  existing : Entry
deriving Inhabited

/-- What happens to the recorded location of an updated dataset. -/
inductive LocationPolicy
  | keep
  | archive
  | forget
deriving DecidableEq

namespace LocationPolicy

def name : LocationPolicy → String
  | .keep => "keep"
  | .archive => "archive"
  | .forget => "forget"

def all : List LocationPolicy := [.keep, .archive, .forget]

def ofName? (name : String) : Option LocationPolicy := all.find? fun p => p.name == name

/-- What a name that is no policy is answered with. -/
def refusal (name : String) : String :=
  "unknown location policy '" ++ name ++ "', expected keep, archive or forget"

end LocationPolicy

inductive LocationOutcome
  /-- There is nothing to settle. -/
  | unchanged
  /-- There are several old locations. -/
  | skipped
  /-- A dry run, else the policy would have been applied. -/
  | wouldApply
  | applied
deriving DecidableEq

namespace UpdateCandidate

def changes (u : UpdateCandidate) (rules : ChangeRules) : ClassifiedChanges :=
  rules.classify (u.existing.metadata.changes u.dataset.metadata)

/-- The candidate of a document stored at `uri`. -/
def load (c : Catalog) (layout : Layout) (d : Document) (uri : String) :
    Except UpdateError UpdateCandidate :=
  match layout.identity d with
  | .error e => .error (.document e)
  | .ok none => .error .missingIdentity
  | .ok (some id) =>
    match c.get? id with
    | .error e => .error (.catalog e)
    | .ok none => .error (.notIndexed id)
    | .ok (some existing) =>
      let dataset : Dataset :=
        { id := some id, product := existing.product, metadata := layout.withoutLineage d
          uris := [uri], sources := [] }
      match dataset.checkMeasurements layout with
      | .error e => .error (.measurement e)
      | .ok () => .ok ⟨dataset, existing⟩

/-- Does with the location `old` what the policy says. -/
def settle (c : Catalog) (policy : LocationPolicy) (id : Identity) (old : String) :
    Except CatalogError Catalog :=
  match policy with
  | .keep => .ok c
  | .archive => (c.archiveLocation id old).map Prod.fst
  | .forget => (c.removeLocation id old).map Prod.fst

/-- Applies the location policy to the old location of a candidate. -/
def reconcile (c : Catalog) (u : UpdateCandidate) (policy : LocationPolicy) (dryRun : Bool) :
    Except CatalogError (Catalog × LocationOutcome × List Event) :=
  if policy = .keep then .ok (c, .unchanged, [])
  else
    match u.existing.locations with
    | [] => .ok (c, .unchanged, [])
    | [old] =>
      match u.dataset.primaryUri? with
      | none => .ok (c, .unchanged, [])
      | some new =>
        if new = old then .ok (c, .unchanged, [])
        else if dryRun then
          .ok (c, .wouldApply, [.info
            ("Will " ++ policy.name ++ " old location " ++ old ++ ", and add new one " ++ new)])
        else (settle c policy u.existing.id old).map fun c => (c, .applied, [])
    | _ =>
      .ok (c, .skipped, [.warning ("Refusing to " ++ policy.name ++ " old location, there are several")
        [("id", u.existing.id.text), ("policy", policy.name)]])

end UpdateCandidate

namespace Updating

structure Options where
  rules : ChangeRules
  policy : LocationPolicy
  /-- Judge the updates, but write nothing. -/
  dryRun : Bool

structure Progress where
  catalog : Catalog
  report : BatchReport
  events : List Event

def Progress.emit (p : Progress) (events : List Event) : Progress :=
  { p with events := p.events ++ events }

def Progress.refuse (p : Progress) (label : String) (e : CatalogError) : Progress :=
  { p with report := p.report.fail }.emit
    [.error ("Failed to update " ++ label ++ ": " ++ e.message) [("id", label), ("error", e.message)]]

def verdictEvent (label : String) (changes : ClassifiedChanges) : Event :=
  .info ((if changes.isSafe then "Can" else "Cannot") ++ " update " ++ label ++ ": " ++
    toString changes.refused.length ++ " unsafe changes, " ++
    toString changes.allowed.length ++ " safe changes")

def finish (o : Options) (u : UpdateCandidate) (p : Progress) : Progress :=
  match u.reconcile p.catalog o.policy o.dryRun with
  | .error e => p.refuse u.dataset.label e
  | .ok (catalog, _, events) => { p with catalog, report := p.report.succeed }.emit events

/-- Judges or writes one update. -/
def apply (o : Options) (p : Progress) (u : UpdateCandidate) : Progress :=
  let label := u.dataset.label
  let p := p.emit [.info ("Matched " ++ label) [("id", label)]]
  if o.dryRun then
    match p.catalog.canUpdate u.dataset o.rules with
    | .error e => p.refuse label e
    | .ok changes =>
      let p := p.emit [verdictEvent label changes]
      if changes.isSafe then finish o u p else { p with report := p.report.fail }
  else
    match p.catalog.update u.dataset o.rules with
    | .error e => p.refuse label e
    | .ok catalog => finish o u ({ p with catalog }.emit [.info ("Updated " ++ label)])

def run (o : Options) (c : Catalog) (candidates : List UpdateCandidate) : Progress :=
  let p := candidates.foldl (apply o) ⟨c, {}, []⟩
  p.emit [.info p.report.text]

end Updating

end DatasetCatalog
