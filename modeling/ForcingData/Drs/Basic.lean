import ForcingData.Drs.Pattern
import ForcingData.Path

/-! # The data reference syntax

`Drs`: the templates for the directories and the name of a data file. `buildPath` gives the place of
a file from its values, `parsePath` and `parseFileName` give the values back, and `masterId` names
the dataset that all versions of a file belong to. -/

namespace ForcingData

structure Drs where
  directory : List Drs.Template
  fileName : Drs.Template
deriving DecidableEq, Repr

namespace Drs
open Text

def versionKey : String := "version"

/-- A text without the slashes at its end. -/
def trimSlashes (s : String) : String :=
  String.ofList (s.toList.reverse.dropWhile (· == '/')).reverse

/-- The templates of the directories, one for each name between slashes, and of the file name. -/
def ofTemplates? (directory fileName : String) : Except TemplateError Drs := do
  let segments ← (splitAt '/' (trimSlashes directory)).mapM Template.parse?
  if segments.any fun t => t.pieces.any Piece.isOptional then
    throw ⟨.optionalInDirectory, directory⟩
  return ⟨segments, ← Template.parse? fileName⟩

def directoryTemplate (d : Drs) : String := "/".intercalate (d.directory.map (·.text))

def fileNameTemplate (d : Drs) : String := d.fileName.text

/-- All keys, sorted, each once. -/
def keys (d : Drs) : List String :=
  (Dict.ofList ((d.directory ++ [d.fileName]).flatMap fun t => t.keys.map (·, ()))).keys

/-! ### Building -/

/-- Where a file belongs, below the root of the tree. -/
structure PathSpec where
  directory : Path
  fileName : String
deriving DecidableEq, Repr

def PathSpec.path (s : PathSpec) : Path := s.directory.join ⟨s.fileName⟩

def buildPath (d : Drs) (fields : Attributes) : Except BuildError PathSpec := do
  let segments ← d.directory.mapM (Template.render .directory fields)
  let fileName ← d.fileName.render .fileName fields
  return ⟨segments.foldl (fun path s => path.join ⟨s⟩) ⟨""⟩, fileName⟩

/-- The names of the directories that do not depend on the version, joined with dots. -/
def masterId (d : Drs) (fields : Attributes) : Except BuildError String := do
  let segments ← (d.directory.filter fun t => !t.usesKey versionKey).mapM
    (Template.render .directory fields)
  return ".".intercalate segments

/-! ### Parsing -/

structure ParseError where
  path : String
  pattern : String
deriving DecidableEq, Repr

def ParseError.message (e : ParseError) : String :=
  s!"Path '{e.path}' does not match the DRS pattern '{e.pattern}'"

def fileNamePattern (d : Drs) : Pattern := d.fileName.pieces.map (.fileName, ·)

/-- The segments of the directory, with slashes between them and after the last one. -/
def directoryPattern : List Template → Pattern
  | [] => []
  | t :: ts =>
    t.pieces.map (.directory, ·) ++ (.directory, .item (.literal ['/'])) :: directoryPattern ts

def pathPattern (d : Drs) : Pattern := directoryPattern d.directory ++ d.fileNamePattern

/-- Takes up a captured value: in a directory the last one counts, and any one before the name's. -/
def addCapture (fields : Attributes) (c : Capture) : Attributes :=
  match c.part with
  | .directory => fields.insert c.key (String.ofList c.text)
  | .fileName =>
    if fields.contains c.key then fields else fields.insert c.key (String.ofList c.text)

/-- The values in a path that ends as the templates say; a backslash counts as a slash. -/
def parsePath (d : Drs) (path : Path) : Except ParseError Attributes :=
  match findEnd d.pathPattern (path.text.toList.map fun c => if c = '\\' then '/' else c) with
  | some captures => .ok (captures.foldl addCapture ∅)
  | none => .error ⟨path.text, "(?:^|/)" ++ patternText 0 d.pathPattern ++ "$"⟩

/-- The values in the name at the end of a path, as they stand there; the last one counts. -/
def parseFileName (d : Drs) (path : Path) : Except ParseError Attributes :=
  match matchAll d.fileNamePattern (path.fileName?.getD "").toList with
  | some captures =>
    .ok (captures.foldl (fun fields c => fields.insert c.key (String.ofList c.text)) ∅)
  | none => .error ⟨path.text, "^" ++ patternText 0 d.fileNamePattern ++ "$"⟩

end Drs
end ForcingData
