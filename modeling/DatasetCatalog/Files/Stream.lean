import DatasetCatalog.Files.Metadata

/-!
# Streams of documents

A stream hands out the documents of its paths one at a time. It looks at a path only when everything
read before has been handed out. A path that cannot be read is reported and passed over.
-/

namespace DatasetCatalog

/-- What reporting a path that failed does to whoever is told. -/
abbrev FailureSink (σ : Type) := σ → FilePath → MetadataError → σ

abbrev PathReader := FilePath → Except MetadataError (List (String × Document))

/-- A stream over paths, and the state of whoever is told of failures. -/
structure PathStream (σ : Type) where
  /-- The paths that have not been looked at. -/
  paths : List FilePath
  /-- What has been read but not been handed out. -/
  pending : List (String × Document)
  told : σ

namespace PathStream

variable {σ : Type}

def pull (read : PathReader) (sink : FailureSink σ) :
    List FilePath → List (String × Document) → σ → Option (String × Document) × PathStream σ
  | paths, d :: pending, told => (some d, ⟨paths, pending, told⟩)
  | [], [], told => (none, ⟨[], [], told⟩)
  | p :: paths, [], told =>
    match read p with
    | .ok documents => pull read sink paths documents told
    | .error e => pull read sink paths [] (sink told p e)

theorem pull_pending (read : PathReader) (sink : FailureSink σ) (paths : List FilePath)
    (d : String × Document) (pending : List (String × Document)) (told : σ) :
    pull read sink paths (d :: pending) told = (some d, ⟨paths, pending, told⟩) := by
  cases paths <;> rfl

theorem length_paths_pull (read : PathReader) (sink : FailureSink σ) (paths : List FilePath)
    (pending : List (String × Document)) (told : σ) :
    (pull read sink paths pending told).2.paths.length ≤ paths.length := by
  induction paths generalizing pending told with
  | nil => cases pending <;> exact Nat.le_refl 0
  | cons p paths ih =>
    cases pending with
    | cons d pending => exact Nat.le_refl _
    | nil =>
      simp only [pull]
      split
      next documents _ => exact Nat.le_succ_of_le (ih documents told)
      next e _ => exact Nat.le_succ_of_le (ih [] (sink told p e))

def next (read : PathReader) (sink : FailureSink σ) (s : PathStream σ) :
    Option (String × Document) × PathStream σ :=
  pull read sink s.paths s.pending s.told

/-- With every document handed out there are fewer paths left, or as many and fewer documents. -/
theorem next_decreases {read : PathReader} {sink : FailureSink σ} {s rest : PathStream σ}
    {d : String × Document} (h : s.next read sink = (some d, rest)) :
    Prod.Lex (· < ·) (· < ·) (rest.paths.length, rest.pending.length)
      (s.paths.length, s.pending.length) := by
  obtain ⟨paths, pending, told⟩ := s
  cases pending with
  | cons first pending =>
    rw [next, pull_pending] at h
    cases h
    exact .right _ (Nat.lt_succ_self _)
  | nil =>
    cases paths with
    | nil => cases h
    | cons p paths =>
      have hlater : rest.paths.length ≤ paths.length := by
        simp only [next, pull] at h
        split at h
        next documents _ =>
          have hle := length_paths_pull read sink paths documents told
          rwa [h] at hle
        next e _ =>
          have hle := length_paths_pull read sink paths [] (sink told p e)
          rwa [h] at hle
      exact .left _ _ (Nat.lt_succ_of_le hlater)

/-- Everything that is handed out until there is no next document, and who has been told of failures
then. -/
def drain (read : PathReader) (sink : FailureSink σ) (s : PathStream σ) :
    List (String × Document) × σ :=
  match _ : s.next read sink with
  | (none, last) => ([], last.told)
  | (some d, rest) =>
    let later := rest.drain read sink
    (d :: later.1, later.2)
termination_by (s.paths.length, s.pending.length)
decreasing_by exact next_decreases ‹_›

end PathStream

structure DocumentStream where
  documents : List (String × Document)
  failures : List (FilePath × MetadataError)

/-- What the stream over these paths yields, with the failures in the order in which they are
reported. -/
def FileSystem.documentStream (fs : FileSystem) (paths : List FilePath) : DocumentStream :=
  let drained := (PathStream.mk paths [] []).drain (fs.describeBy DocumentFormat.read?)
    fun failures p e => failures ++ [(p, e)]
  ⟨drained.1, drained.2⟩

end DatasetCatalog
