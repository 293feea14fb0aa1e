import ForcingData.FileTree.Basic
import ForcingData.Glob
import ForcingData.Text.Quoted

/-! # Finding files

`findFiles` finds the files below a directory whose name or path fits a glob, sorted. Links are
followed, and what they lead to is found under the path of the link; a link to a directory that is
being searched already is passed over. A link that leads nowhere ends the search. -/

namespace ForcingData

inductive FindError
  | emptyPattern
  | baseNotADirectory (base : Path)
  | walk (path : Path) (error : OsError)
deriving DecidableEq, Repr

def FindError.message : FindError → String
  | .emptyPattern => "The search-pattern is empty"
  | .baseNotADirectory base => s!"The search base is not a directory: '{Text.quoted base.text}'"
  | .walk path e => s!"IO error for operation on {path.text}: {e.message}"

/-- A glob for the name of a file or, if it has a slash, for the path below the base. -/
structure FilePattern where
  glob : String
  glob_ne_empty : glob ≠ ""
deriving DecidableEq, Repr

namespace FilePattern

def ofGlob? (glob : String) : Except FindError FilePattern :=
  if h : glob = "" then .error .emptyPattern else .ok ⟨glob, h⟩

def hasSlash (g : FilePattern) : Bool := g.glob.toList.contains '/'

/-- Does the file fit, whose names from the base on are these? -/
def fits (g : FilePattern) (names : List String) : Bool :=
  if g.hasSlash then Glob.accepts g.glob ("/".intercalate names)
  else (names.getLast?).any (Glob.accepts g.glob)

end FilePattern

namespace FileTree

/-- A file below the base: its path, and its names from the base on. -/
structure Found where
  path : Path
  names : List String
deriving DecidableEq, Repr

/-- The files under a name in a directory. `ancestors` are the directories that are being searched,
with this one; `search` finds the files in a directory below. -/
def filesAt (t : FileTree) (search : Path → List String → Except FindError (List Found))
    (ancestors : List Location) (here : Location) (path : Path) (below : List String)
    (name : String) : Except FindError (List Found) :=
  let path := path.join ⟨name⟩
  let names := below ++ [name]
  match t.node? (here ++ [name]) with
  | some (.file _) => .ok [⟨path, names⟩]
  | some .directory => search path names
  | some (.link _) =>
    match t.locate path with
    | .error e => .error (.walk path e)
    | .ok l =>
      if !t.isDirectoryAt l then .ok [⟨path, names⟩]
      else if ancestors.contains l then .ok []
      else search path names
  | none => .ok []

/-- The files in a directory, which is opened by its path; at most `depth` directories may stand
inside each other. -/
def filesIn (t : FileTree) : Nat → List Location → Path → List String →
    Except FindError (List Found)
  | 0, _, _, _ => .ok []
  | depth + 1, ancestors, path, below =>
    match t.locate path with
    | .error e => .error (.walk path e)
    | .ok here => do
      let ancestors := here :: ancestors
      let search := filesIn t depth ancestors
      let found ← (t.namesAt here).mapM fun name =>
        t.filesAt search ancestors here path below name
      return found.flatten

/-- More than the directories on any way that passes over links to what is being searched. -/
def searchDepth (t : FileTree) : Nat := (t.nodes.size + 2) * (t.nodes.size + 2)

def pathLe (p q : Path) : Bool := compare p q != .gt

/-- The files below a directory that fit. -/
def findFiles (t : FileTree) (base : Path) (pattern : FilePattern) : Except FindError (List Path) :=
  match t.locate base with
  | .error _ => .error (.baseNotADirectory base)
  | .ok l =>
    if !t.isDirectoryAt l then .error (.baseNotADirectory base)
    else do
      let files ← t.filesIn t.searchDepth [] base []
      return ((files.filter fun f => pattern.fits f.names).map (·.path)).mergeSort pathLe

end FileTree
end ForcingData
