import DatasetCatalog.Catalog.Basic
import DatasetCatalog.Event

/-!
# Archiving and restoring with what is derived

Archiving or restoring a dataset may extend to everything derived from it, found level by level. A
restore takes archived datasets only and, when it extends from an archived target, those archived at
about the same time as the target.
-/

namespace DatasetCatalog

namespace Catalog

/-- The datasets derived from those of one level that are not yet among the found ones. -/
def nextLevel (c : Catalog) (found : List Entry) :
    (level : List Entry) → (next : List Entry) → Except CatalogError (List Entry)
  | [], next => .ok next
  | e :: rest, next => do
    let derived ← c.getDerived e.id
    let isNew := fun (d : Entry) => !(found ++ next).any fun f => f.id == d.id
    nextLevel c found rest (next ++ derived.filter isNew)

/-- Follows the derived relation level by level, at most `levels` times. -/
def derivedLevels (c : Catalog) :
    (levels : Nat) → (found level : List Entry) → Except CatalogError (List Entry)
  | 0, found, _ => .ok found
  | levels + 1, found, level => do
    let next ← c.nextLevel found level []
    if next.isEmpty then .ok found else derivedLevels c levels (found ++ next) next

/-- The dataset and everything derived from it, nearest first. Every level but the last adds a
dataset, so there are no more levels than datasets. -/
def derivedSet (c : Catalog) (id : Identity) : Except CatalogError (List Entry) := do
  let target ← c.get id
  c.derivedLevels c.size [target] [target]

/-- What is archived along with `id`. -/
def archiveSelection (c : Catalog) (id : Identity) (derived : Bool) :
    Except CatalogError (List Entry) :=
  if derived then c.derivedSet id else (c.get id).map fun e => [e]

/-- Whether an entry is restored along with a target archived at `target`. -/
def isRestoredNear (derived : Bool) (tolerance : Duration) (target : Option Timestamp) (e : Entry) :
    Bool :=
  match e.archived, target with
  | none, _ => false
  | some t, some target => !derived || t.isNear target tolerance
  | some _, none => true

/-- What is restored along with `id`. -/
def restoreSelectionNear (c : Catalog) (id : Identity) (derived : Bool) (tolerance : Duration) :
    Except CatalogError (List Entry) :=
  (c.archiveSelection id derived).map fun selection =>
    selection.filter (isRestoredNear derived tolerance (selection.head?.bind Entry.archived))

/-- The same with a tolerance in seconds. -/
def restoreSelection (c : Catalog) (id : Identity) (derived : Bool) (seconds : Nat) :
    Except CatalogError (List Entry) :=
  c.restoreSelectionNear id derived (.ofSeconds seconds)

end Catalog

namespace Cascade

structure Options where
  /-- Extend to everything derived. -/
  derived : Bool
  /-- Select, but change nothing. -/
  dryRun : Bool
deriving DecidableEq

structure Progress where
  catalog : Catalog
  report : BatchReport
  /-- Every dataset selected, in order, as it was then. -/
  selected : List Entry
  events : List Event

def selectedText (verb : String) (e : Entry) : String :=
  verb ++ " " ++ e.product.name ++ " " ++ e.id.text ++ " " ++ e.primaryUri?.getD "None"

def selectedEvent (verb : String) (e : Entry) : Event := .info (selectedText verb e)

def Progress.refuse (p : Progress) (id : Identity) (e : CatalogError) : Progress :=
  { p with
    report := p.report.fail
    events := p.events ++
      [.error (id.text ++ ": " ++ e.message) [("id", id.text), ("error", e.message)]] }

/-- Selects for one identity and, unless it is a dry run, changes what is selected. -/
def apply (verb : String) (dryRun : Bool)
    (select : Catalog → Identity → Except CatalogError (List Entry))
    (change : Catalog → List Identity → Except CatalogError Catalog)
    (p : Progress) (id : Identity) : Progress :=
  match select p.catalog id with
  | .error e => p.refuse id e
  | .ok selection =>
    let p := { p with
      selected := p.selected ++ selection, events := p.events ++ selection.map (selectedEvent verb) }
    if dryRun then { p with report := p.report.succeed }
    else
      match change p.catalog (selection.map Entry.id) with
      | .error e => p.refuse id e
      | .ok catalog => { p with catalog, report := p.report.succeed }

def start (c : Catalog) : Progress := ⟨c, {}, [], []⟩

/-- Archives for each identity in turn, the `i`-th at the `i`-th reading of the clock. -/
def archive (o : Options) (clock : Nat → Timestamp) (c : Catalog) (ids : List Identity) : Progress :=
  ids.zipIdx.foldl (fun p id =>
    apply "archiving" o.dryRun (fun c id => c.archiveSelection id o.derived)
      (fun c ids => c.archive ids (clock id.2)) p id.1) (start c)

/-- Restores for each identity in turn. -/
def restoreNear (o : Options) (tolerance : Duration) (c : Catalog) (ids : List Identity) :
    Progress :=
  ids.foldl (apply "restoring" o.dryRun
    (fun c id => c.restoreSelectionNear id o.derived tolerance) Catalog.restore) (start c)

/-- The same with a tolerance in seconds. -/
def restore (o : Options) (seconds : Nat) (c : Catalog) (ids : List Identity) : Progress :=
  restoreNear o (.ofSeconds seconds) c ids

end Cascade

end DatasetCatalog
