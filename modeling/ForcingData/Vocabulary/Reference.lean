import ForcingData.Vocabulary.Files

/-! # Where vocabularies come from

A reference is `gh:` and a branch, tag or commit of the official repository, an `http` or `https`
URL of a directory, a `file` URL, or else the path of a local directory. -/

namespace ForcingData
open Text Vocabularies

inductive CvSource
  /-- The root URL of all files. -/
  | remote (root : Url)
  /-- The directory of all files. -/
  | directory (path : Path)
deriving DecidableEq, Repr

namespace CvSource

/-- Where the official repository keeps its versions. -/
def officialRoot : String := "https://raw.githubusercontent.com/PCMDI/input4MIPs_CVs/"

/-- A version of the official repository. -/
def ofVersion? (reference : String) (version : List Char) : Except SourceError CvSource :=
  if version = [] || version.getLast? = some '/' then .error (.invalidSource reference)
  else
    match Url.parse? (officialRoot ++ String.ofList version ++ "/") with
    | .ok url => .ok (.remote url)
    | .error _ => .error (.invalidSource reference)

def parse? (reference : String) : Except SourceError CvSource :=
  let reference := trim reference
  if reference = "" then .error .noSource
  else
    match Text.dropPrefix? "gh:".toList reference.toList with
    | some version => ofVersion? reference version
    | none =>
      match Url.parse? reference with
      | .ok url =>
        if url.scheme = "http" || url.scheme = "https" then .ok (.remote url.asDirectory)
        else if url.scheme = "file" then
          match url.filePath? with
          | some path => .ok (.directory ⟨path⟩)
          | none => .error (.invalidSource reference)
        else .ok (.directory ⟨reference⟩)
      | .error _ => .ok (.directory ⟨reference⟩)

/-- The configured source. -/
def ofSetting? : Option String → Except SourceError CvSource
  | some reference => parse? reference
  | none => .error .noSource

def text : CvSource → String
  | .remote root => root.text
  | .directory path => path.text

/-- Where the files of a remote source are kept: its URL is the name of the directory. -/
def cacheDirectory (cache : Path) (root : Url) : Path :=
  cache.join ⟨Url.encodeComponent root.text⟩

end CvSource
end ForcingData
