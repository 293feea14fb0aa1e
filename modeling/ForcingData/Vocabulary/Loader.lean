import ForcingData.FileTree.Work
import ForcingData.Vocabulary.Reference

/-! # Loading vocabularies

The files of a local source are in its directory. Those of a remote source are in the cache, or are
downloaded and kept there; where a download fails, a copy in the cache serves even if a new one was
asked for. All files are read together, and the first that can not be had ends it all. -/

namespace ForcingData.Vocabularies

structure Network where
  /-- What the server of a root says about a file: its content, that there is none, or nothing. -/
  answer : Url → String → Except String (Option ByteArray)
  /-- Which of all files gets on next, by its place among them. -/
  turns : List Nat

instance : CoeFun Network fun _ => Url → String → Except String (Option ByteArray) :=
  ⟨Network.answer⟩

/-- Every download fails. -/
def offline : Network := ⟨fun _ _ => .error "the download failed", []⟩

/-- Every file, required ones first, and whether it is required. -/
def allFiles : List (String × Bool) :=
  requiredFiles.map (·, true) ++ optionalFiles.map (·, false)

section
variable (source : CvSource)

def unavailable (file reason : String) : SourceError := .sourceUnavailable source.text file reason

/-- A file of a local source; one that is not required may be missing. -/
def readLocal (directory : Path) (file : String) (required : Bool) (t : FileTree) :
    Except SourceError (Option ByteArray) :=
  match t.read (directory.join ⟨file⟩) with
  | .ok content => .ok (some content)
  | .error e =>
    if !required && e = .notFound then .ok none else .error (unavailable source file e.message)

def readCached (path : Path) (file : String) (t : FileTree) :
    Except SourceError (Option ByteArray) :=
  match t.read path with
  | .ok content => .ok (some content)
  | .error e =>
    .error (unavailable source file s!"failed to read cache '{path.text}': {e.message}")

/-- What it takes to keep a file in the cache, beside its lock. -/
def keepingSteps (directory : Path) (file : String) (content : ByteArray) :
    List (Disk OsError Unit) :=
  let temporary := directory.join ⟨file ++ ".temp"⟩
  [FileTree.createDirectories directory,
    Disk.change fun t => t.ensureFile (directory.join ⟨file ++ ".lock"⟩),
    -- what the temporary file had in it goes first
    Disk.change fun t => t.write temporary .empty,
    Disk.change fun t => t.write temporary content,
    Disk.change fun t => t.rename temporary (directory.join ⟨file⟩)]

/-- Keeps a file in the cache; it does not matter if that fails. -/
def keep (directory : Path) (file : String) (content : ByteArray) : Work SourceError Unit :=
  ((keepingSteps directory file content).forM Work.once).attempt

def readRemote (network : Network) (cache : Path) (force : Bool) (root : Url) (file : String)
    (required : Bool) : Work SourceError (Option ByteArray) := do
  let directory := CvSource.cacheDirectory cache root
  let path := directory.join ⟨file⟩
  let cached ← Work.look fun t => .ok (t.isFile path)
  if cached && !force then Work.look (readCached source path file)
  else
    match network root file with
    | .ok (some content) =>
      keep directory file content
      return some content
    | .ok none =>
      if required then Work.fail (unavailable source file "not found") else return none
    | .error reason =>
      if cached then Work.look (readCached source path file)
      else if required then Work.fail (unavailable source file reason)
      else return none

def readFile (network : Network) (cache : Path) (force : Bool) (file : String) (required : Bool) :
    Work SourceError (Option ByteArray) :=
  match source with
  | .directory directory => Work.look (readLocal source directory file required)
  | .remote root => readRemote source network cache force root file required

/-- The files that there are, or what is wrong with the first that can not be had. -/
def readFiles (network : Network) (cache : Path) (force : Bool) (files : List (String × Bool)) :
    Disk SourceError RawFiles := do
  let contents ← Work.together network.turns
    (files.map fun f => readFile source network cache force f.1 f.2)
  return Dict.ofList ((files.zip contents).filterMap fun (f, content) => content.map (f.1, ·))

/-- The vocabularies of a source. -/
def load (network : Network) (cache : Path) (force : Bool) : Disk SourceError Vocabularies := do
  let files ← readFiles source network cache force allFiles
  Disk.ask fun _ => ofFiles? source.text files

end
end ForcingData.Vocabularies
