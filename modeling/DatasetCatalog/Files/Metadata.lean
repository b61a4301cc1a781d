import DatasetCatalog.Document.Basic
import DatasetCatalog.Files.FileSystem
import DatasetCatalog.Json.Tree
import DatasetCatalog.Yaml.Reader

/-!
# Metadata files

Documents are kept in JSON files, one each, and in YAML files, one or several each. A dataset is
described by its metadata file, by one inside its directory, or by one beside it.
-/

namespace DatasetCatalog

inductive DocumentFormat
  | yaml
  | json
deriving DecidableEq

namespace DocumentFormat

def extensions : List String := ["yaml", "yml", "json"]

/-- The format of a file by its extension, in any case. -/
def ofPath? (p : FilePath) : Option DocumentFormat :=
  p.extension?.bind fun e =>
    match String.ofList (e.map Char.toLower) with
    | "yaml" | "yml" => some .yaml
    | "json" => some .json
    | _ => none

def read? : DocumentFormat → String → Option (List Value)
  | .json, text => (Json.read? text).map fun v => [v]
  | .yaml, text => Yaml.read? text

end DocumentFormat

/-- What reads every document of a text; nothing if the text is malformed. -/
abbrev DocumentReader := DocumentFormat → String → Option (List Value)

inductive MetadataError
  | noMetadata (path : FilePath)
  | unsupportedFormat (path : FilePath)
  | unreadable (path : FilePath) (cause : FileError)
  | malformed (path : FilePath) (format : DocumentFormat)
  | document (path : FilePath) (cause : DocumentError)

def MetadataError.message : MetadataError → String
  | .noMetadata path => "No supported metadata docs found for dataset " ++ path.text
  | .unsupportedFormat path => "Unsupported document type: " ++ path.text
  | .unreadable path cause => "Failed reading documents from " ++ path.text ++ ": " ++ cause.message
  | .malformed path .yaml => "Invalid YAML in " ++ path.text
  | .malformed path .json => "Invalid JSON in " ++ path.text
  | .document path cause => "Invalid document in " ++ path.text ++ ": " ++ cause.message

namespace FilePath

/-- A path with each of the supported extensions, the preferred one first. -/
def withMetadataExtensions (p : FilePath) : List FilePath :=
  DocumentFormat.extensions.map fun e => p.append ("." ++ e)

def metadataInside (p : FilePath) : List FilePath := (p.join "agdc-metadata").withMetadataExtensions

/-- The files that describe a file from beside it. -/
def metadataBeside (p : FilePath) : List FilePath :=
  match p.fileName? with
  | none => []
  | some name => (p.withFileName (String.ofList name ++ ".agdc-md")).withMetadataExtensions

end FilePath

namespace FileSystem

/-- The file that describes the dataset at a path. -/
def metadataPath (fs : FileSystem) (p : FilePath) : Except MetadataError FilePath :=
  let found := if fs.isDirectory p then p.metadataInside.find? fs.isFile
    else if fs.isFile p && (DocumentFormat.ofPath? p).isSome then some p
    else p.metadataBeside.find? fs.isFile
  match found with
  | some file => .ok file
  | none => .error (.noMetadata p)

/-- Documents with their URIs; one of several is addressed by its number. -/
def addressed (p : FilePath) (uri : String) (values : List Value) :
    Except MetadataError (List (String × Document)) :=
  values.zipIdx.mapM fun v =>
    match Document.ofValue? v.1 with
    | .error e => .error (.document p e)
    | .ok d => .ok (if 1 < values.length then uri ++ "#part=" ++ toString v.2 else uri, d)

/-- Every document of a metadata file whose text is read by `read`. -/
def readDocumentsBy (fs : FileSystem) (read : DocumentReader) (p : FilePath) :
    Except MetadataError (List (String × Document)) :=
  match DocumentFormat.ofPath? p with
  | none => .error (.unsupportedFormat p)
  | some format =>
    match fs.readText p with
    | .error e => .error (.unreadable p e)
    | .ok text =>
      match read format text with
      | none => .error (.malformed p format)
      | some values => addressed p (p.fileUri fs.workingDirectory) values

def readDocuments (fs : FileSystem) : FilePath → Except MetadataError (List (String × Document)) :=
  fs.readDocumentsBy DocumentFormat.read?

/-- The documents that describe the dataset at a path. -/
def describeBy (fs : FileSystem) (read : DocumentReader) (p : FilePath) :
    Except MetadataError (List (String × Document)) := do
  fs.readDocumentsBy read (← fs.metadataPath p)

end FileSystem

end DatasetCatalog
