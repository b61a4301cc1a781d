import DatasetCatalog.Files.Stream
import DatasetCatalog.Proofs.Outcome
import Mathlib.Data.List.Nodup

/-!
# What a stream of documents hands out

A stream goes back and forth between the documents it has read and the paths it has not looked at.
What is upcoming, and who will have been told of which failures, does not depend on how far it has
come: a document that is handed out was the first one upcoming (`PathStream.Pulled`). So a drained
stream has handed out what its paths contribute, one path after the other, and a path of which any
document is no mapping contributes nothing.
-/

namespace DatasetCatalog

variable {σ : Type}

namespace FileSystem

variable {fs : FileSystem} {read : DocumentReader} {p file : FilePath}
  {documents : List (String × Document)}

/-- The documents of the metadata file of a path, none if it cannot be found or read. -/
def contribution (fs : FileSystem) (read : DocumentReader) (p : FilePath) :
    List (String × Document) :=
  (fs.metadataPath p >>= fs.readDocumentsBy read).toOption.getD []

/-- A path whose metadata file cannot be found or read, and the reason. -/
def failure? (fs : FileSystem) (read : DocumentReader) (p : FilePath) :
    Option (FilePath × MetadataError) :=
  match fs.metadataPath p >>= fs.readDocumentsBy read with
  | .ok _ => none
  | .error e => some (p, e)

/-- The text of a metadata file reads as these values. -/
def Holds (fs : FileSystem) (read : DocumentReader) (file : FilePath) (values : List Value) :
    Prop :=
  ∃ format text, DocumentFormat.ofPath? file = some format ∧ fs.readText file = .ok text ∧
    read format text = some values

theorem contribution_of_ok (h : fs.describeBy read p = .ok documents) :
    fs.contribution read p = documents :=
  congrArg (fun outcome => outcome.toOption.getD []) h

theorem contribution_of_error {e : MetadataError} (h : fs.describeBy read p = .error e) :
    fs.contribution read p = [] :=
  congrArg (fun outcome => outcome.toOption.getD []) h

theorem failure?_of_ok (h : fs.describeBy read p = .ok documents) : fs.failure? read p = none := by
  rw [describeBy] at h
  rw [failure?, h]

theorem failure?_of_error {e : MetadataError} (h : fs.describeBy read p = .error e) :
    fs.failure? read p = some (p, e) := by
  rw [describeBy] at h
  rw [failure?, h]

end FileSystem

namespace PathStream

variable {fs : FileSystem} {read : DocumentReader} {sink : FailureSink σ} {s : PathStream σ}

/-- What is pending, and then what the paths contribute. -/
def upcoming (fs : FileSystem) (read : DocumentReader) (s : PathStream σ) :
    List (String × Document) :=
  s.pending ++ s.paths.flatMap (fs.contribution read)

/-- Who has been told of every failure to come. -/
def toldOfAll (fs : FileSystem) (read : DocumentReader) (sink : FailureSink σ)
    (s : PathStream σ) : σ :=
  (s.paths.filterMap (fs.failure? read)).foldl (fun told f => sink told f.1 f.2) s.told

/-- The document was the first one upcoming, and nothing else has become of the stream; without a
document nothing was. -/
structure Pulled (fs : FileSystem) (read : DocumentReader) (sink : FailureSink σ)
    (s : PathStream σ) (pulled : Option (String × Document) × PathStream σ) : Prop where
  documents : s.upcoming fs read = pulled.1.toList ++ pulled.2.upcoming fs read
  failures : s.toldOfAll fs read sink = pulled.2.toldOfAll fs read sink
  finished : pulled.1 = none → pulled.2.paths = [] ∧ pulled.2.pending = []

/-- Looking at a path takes up what it contributes, or reports it. -/
theorem pulled_pull (fs : FileSystem) (read : DocumentReader) (sink : FailureSink σ)
    (paths : List FilePath) (pending : List (String × Document)) (told : σ) :
    Pulled fs read sink ⟨paths, pending, told⟩
      (pull (fs.describeBy read) sink paths pending told) := by
  induction paths generalizing pending told with
  | nil =>
      cases pending with
      | nil => exact ⟨rfl, rfl, fun _ => ⟨rfl, rfl⟩⟩
      | cons d pending => exact ⟨rfl, rfl, fun h => nomatch h⟩
  | cons p paths ih =>
      cases pending with
      | cons d pending => exact ⟨rfl, rfl, fun h => nomatch h⟩
      | nil =>
          rw [pull]
          split
          next documents hread =>
            have hrest := ih documents told
            refine ⟨Eq.trans ?_ hrest.documents, Eq.trans ?_ hrest.failures, hrest.finished⟩
            · show [] ++ List.flatMap _ (p :: paths) = documents ++ _
              rw [List.flatMap_cons, FileSystem.contribution_of_ok hread, List.nil_append]
            · rw [toldOfAll, List.filterMap_cons_none (FileSystem.failure?_of_ok hread)]
              rfl
          next e hfailed =>
            have hrest := ih [] (sink told p e)
            refine ⟨Eq.trans ?_ hrest.documents, Eq.trans ?_ hrest.failures, hrest.finished⟩
            · show [] ++ List.flatMap _ (p :: paths) = [] ++ _
              rw [List.flatMap_cons, FileSystem.contribution_of_error hfailed]
              rfl
            · rw [toldOfAll, List.filterMap_cons_some (FileSystem.failure?_of_error hfailed)]
              rfl

section Draining

variable {look : PathReader}

theorem drain_of_none {last : PathStream σ} (h : s.next look sink = (none, last)) :
    s.drain look sink = ([], last.told) := by
  rw [drain]
  split
  next hnext =>
    cases h.symm.trans hnext
    rfl
  next hnext => cases h.symm.trans hnext

theorem drain_of_some {d : String × Document} {rest : PathStream σ}
    (h : s.next look sink = (some d, rest)) :
    s.drain look sink = (d :: (rest.drain look sink).1, (rest.drain look sink).2) := by
  rw [drain]
  split
  next hnext => cases h.symm.trans hnext
  next hnext =>
    cases h.symm.trans hnext
    rfl

end Draining

/-- A drained stream has handed out all that was upcoming, and has told of all failures. -/
theorem drain_eq (fs : FileSystem) (read : DocumentReader) (sink : FailureSink σ)
    (s : PathStream σ) :
    s.drain (fs.describeBy read) sink = (s.upcoming fs read, s.toldOfAll fs read sink) := by
  induction s using PathStream.drain.induct (fs.describeBy read) sink with
  | case1 s last h =>
      have hpulled : Pulled fs read sink s (none, last) :=
        h ▸ pulled_pull fs read sink s.paths s.pending s.told
      obtain ⟨paths, pending, told⟩ := last
      obtain ⟨rfl, rfl⟩ : paths = [] ∧ pending = [] := hpulled.finished rfl
      rw [drain_of_none h, hpulled.documents, hpulled.failures]
      rfl
  | case2 s d rest h ih =>
      have hpulled : Pulled fs read sink s (some d, rest) :=
        h ▸ pulled_pull fs read sink s.paths s.pending s.told
      rw [drain_of_some h, hpulled.documents, hpulled.failures, ih]
      rfl

end PathStream

namespace FileSystem

variable {fs : FileSystem} {read : DocumentReader} {p file : FilePath} {uri : String}
  {values : List Value} {documents : List (String × Document)}

/-- What one of several documents is addressed by tells its number. -/
theorem part_injective (uri : String) :
    Function.Injective fun n : Nat => uri ++ "#part=" ++ toString n := by
  intro m n h
  have hdigits : Nat.toDigits 10 m = Nat.toDigits 10 n := by
    simpa [String.ext_iff, Nat.repr] using h
  have hvalue := congrArg (Nat.ofDigitChars 10 · 0) hdigits
  simpa only [Nat.ofDigitChars_toDigits (b := 10) (by decide) (by decide)] using hvalue

theorem uris_addressed (h : addressed file uri values = .ok documents) :
    documents.map Prod.fst = values.zipIdx.map fun v =>
      if 1 < values.length then uri ++ "#part=" ++ toString v.2 else uri := by
  apply map_eq_map_of_forall₂ (mapM_eq_ok.mp h)
  intro v d hd
  split at hd
  next => cases hd
  next =>
    cases hd
    rfl

theorem nodup_uris_addressed (h : addressed file uri values = .ok documents) :
    (documents.map Prod.fst).Nodup := by
  rw [uris_addressed h]
  by_cases hmany : 1 < values.length
  · simp only [if_pos hmany]
    have hnumbers : (values.zipIdx.map Prod.snd).Nodup := by
      rw [List.zipIdx_map_snd]
      exact List.nodup_range'
    have hparts := hnumbers.map (part_injective uri)
    rwa [List.map_map] at hparts
  · simp only [if_neg hmany]
    match values, hmany with
    | [], _ => exact List.nodup_nil
    | [_], _ => exact List.nodup_singleton _
    | _ :: _ :: _, hmany => exact (hmany (by simp)).elim

theorem exists_addressed_of_readDocuments (h : fs.readDocumentsBy read file = .ok documents) :
    ∃ values, addressed file (file.fileUri fs.workingDirectory) values = .ok documents := by
  rw [readDocumentsBy] at h
  split at h
  next => cases h
  next =>
    split at h
    next => cases h
    next =>
      split at h
      next => cases h
      next values _ => exact ⟨values, h⟩

theorem readDocuments_of_holds (h : fs.Holds read file values) :
    fs.readDocumentsBy read file = addressed file (file.fileUri fs.workingDirectory) values := by
  obtain ⟨format, text, hformat, htext, hvalues⟩ := h
  rw [readDocumentsBy, hformat]
  simp only [htext, hvalues]

/-- One value that is no mapping is enough for a file to be refused. -/
theorem exists_addressed_eq_error {v : Value} (hv : v ∈ values) (hother : v.isMapping = false) :
    ∃ cause, addressed file uri values = .error (.document file cause) := by
  cases h : addressed file uri values with
  | error e =>
      obtain ⟨w, -, hw⟩ := exists_of_mapM_eq_error h
      split at hw
      next cause _ =>
        cases hw
        exact ⟨cause, rfl⟩
      next => cases hw
  | ok documents =>
      obtain ⟨i, hi⟩ := List.mem_iff_getElem?.mp hv
      obtain ⟨d, -, hd⟩ :=
        exists_of_mem_left (mapM_eq_ok.mp h) (List.mk_mem_zipIdx_iff_getElem?.mpr hi)
      cases v with
      | mapping fields => cases hother
      | null | boolean | number | text | sequence => cases hd

/-- However texts are read, a drained stream has handed out the documents of all paths that could be
read, and its sink has been told once of every other path, in their order. One document that is no
mapping keeps back all documents of its file, and several documents of a file have different
addresses. -/
theorem stream_concatenates (read : DocumentReader) (fs : FileSystem) (sink : FailureSink σ)
    (told : σ) (paths : List FilePath) :
    (PathStream.mk paths [] told).drain (fs.describeBy read) sink =
      (paths.flatMap (fs.contribution read),
        (paths.filterMap (fs.failure? read)).foldl (fun told f => sink told f.1 f.2) told) ∧
    (∀ p file values v, fs.metadataPath p = .ok file → fs.Holds read file values → v ∈ values →
      v.isMapping = false → fs.contribution read p = [] ∧
        ∃ cause, fs.failure? read p = some (p, .document file cause)) ∧
    ∀ p, ((fs.contribution read p).map Prod.fst).Nodup := by
  refine ⟨PathStream.drain_eq fs read sink _, ?_, ?_⟩
  · intro p file values v hfile hholds hv hother
    obtain ⟨cause, hcause⟩ := exists_addressed_eq_error hv hother
    have hfailed : fs.describeBy read p = .error (.document file cause) := by
      rw [describeBy, hfile]
      exact (readDocuments_of_holds hholds).trans hcause
    exact ⟨contribution_of_error hfailed, cause, failure?_of_error hfailed⟩
  · intro p
    cases h : fs.describeBy read p with
    | error e =>
        rw [contribution_of_error h]
        exact List.nodup_nil
    | ok documents =>
        obtain ⟨file, -, hread⟩ := bind_eq_ok.mp h
        obtain ⟨values, haddressed⟩ := exists_addressed_of_readDocuments hread
        rw [contribution_of_ok h]
        exact nodup_uris_addressed haddressed

section Pier

def pierFiles : FileSystem where
  workingDirectory := "/"
  look p :=
    match p.text with
    | "/one.json" => .ok (.file "\x7b\x7d".toUTF8)
    | "/two.yaml" => .ok (.file "\x7b\x7d\n---\n\x7b\x7d\n".toUTF8)
    | "/mixed.yaml" => .ok (.file "\x7b\x7d\n---\n1\n".toUTF8)
    | _ => .error .notFound

/-- The second document of a file is no mapping, so the first one is not handed out either. -/
theorem pier_concatenated :
    ∃ documents told,
      (PathStream.mk [⟨"/two.yaml"⟩, ⟨"/mixed.yaml"⟩, ⟨"/gone"⟩, ⟨"/one.json"⟩] [] []).drain
        (pierFiles.describeBy DocumentFormat.read?) (fun told p _ => told ++ [p.text]) =
          (documents, told) ∧
      documents.map Prod.fst =
        ["file:///two.yaml#part=0", "file:///two.yaml#part=1", "file:///one.json"] ∧
      told = ["/mixed.yaml", "/gone"] ∧
      ∃ values v, pierFiles.metadataPath ⟨"/mixed.yaml"⟩ = .ok ⟨"/mixed.yaml"⟩ ∧
        pierFiles.Holds DocumentFormat.read? ⟨"/mixed.yaml"⟩ values ∧ v ∈ values ∧
        v.isMapping = false ∧
        pierFiles.contribution DocumentFormat.read? ⟨"/mixed.yaml"⟩ = [] := by
  obtain ⟨hdrained, hkept, -⟩ := stream_concatenates DocumentFormat.read? pierFiles
    (fun told p _ => told ++ [p.text]) [] [⟨"/two.yaml"⟩, ⟨"/mixed.yaml"⟩, ⟨"/gone"⟩, ⟨"/one.json"⟩]
  have hkinds : (Yaml.read? "\x7b\x7d\n---\n1\n").map (List.map Value.isMapping) =
      some [true, false] := by
    decide +kernel
  obtain ⟨values, hvalues, hmapping⟩ := Option.map_eq_some_iff.mp hkinds
  have hsecond : false ∈ values.map Value.isMapping :=
    hmapping ▸ List.mem_cons_of_mem true List.mem_cons_self
  obtain ⟨v, hv, hother⟩ := List.mem_map.mp hsecond
  have hholds : pierFiles.Holds DocumentFormat.read? ⟨"/mixed.yaml"⟩ values :=
    ⟨.yaml, _, rfl, by decide +kernel, hvalues⟩
  obtain ⟨hnothing, -⟩ := hkept ⟨"/mixed.yaml"⟩ _ values v rfl hholds hv hother
  exact ⟨_, _, hdrained, by decide +kernel, by decide +kernel, values, v, rfl, hholds, hv, hother,
    hnothing⟩

end Pier

end FileSystem

end DatasetCatalog
