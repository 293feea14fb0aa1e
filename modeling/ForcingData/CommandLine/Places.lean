import ForcingData.CommandLine.Run

/-! # Places

The paths that a run may look at, so that a tree which agrees with the disk below them is enough to
run on. -/

namespace ForcingData.CommandLine

/-- How much there is to know of a path. -/
inductive Extent
  /-- What is there, without the content of files. -/
  | names
  /-- A file with its content, or all that is below a directory. -/
  | contents
deriving DecidableEq, Repr

structure Place where
  path : Path
  extent : Extent
deriving DecidableEq, Repr

/-- Where settings are looked for. -/
def settingsPlaces : List Place :=
  let names := Settings.fileName ::
    Settings.extensions.map fun (extension, _) => Settings.fileName ++ "." ++ extension
  names.map fun name => ⟨⟨name⟩, .contents⟩

def filePlaces (p : Path) : List Place := [⟨p, .contents⟩, ⟨Dataset.sidecar p, .contents⟩]

def namePlaces (p : Option Path) : List Place := p.toList.map (⟨·, .names⟩)

/-- Where the files of the vocabularies may be. -/
def vocabularyPlaces (s : Settings) : List Place :=
  let files (directory : Path) : List Place :=
    Vocabularies.allFiles.map fun (name, _) => ⟨directory.join ⟨name⟩, .contents⟩
  match CvSource.ofSetting? s.cvSource with
  | .error _ => []
  | .ok (.directory directory) => files directory
  | .ok (.remote root) => files (CvSource.cacheDirectory s.cacheDirectory root)

def Command.places (s : Settings) : Command → List Place
  | .validateFile file _ report root =>
    vocabularyPlaces s ++ filePlaces file ++ namePlaces report ++ namePlaces root
  | .validateTree root _ _ _ report =>
    vocabularyPlaces s ++ [⟨root, .contents⟩] ++ namePlaces report
  | .createDatabase root _ _ directory =>
    vocabularyPlaces s ++ [⟨root, .contents⟩, ⟨directory, .contents⟩]
  | .validateDatabase directory => [⟨directory, .contents⟩]

/-- The files of which the entries of a database tell. -/
def entryPlaces (t : FileTree) (directory : Path) : List Place :=
  match (Database.mk directory).all t with
  | .ok entries => entries.map fun e => ⟨e.path, .contents⟩
  | .error _ => []

/-- The variables that settings are read from. -/
def settingVariables : List String :=
  ["HOME", "XDG_CACHE_HOME"] ++
    Settings.Draft.fieldNames.map fun name => (Settings.environmentPrefix ++ name).toUpper

end ForcingData.CommandLine
