import ForcingData.Dict
import ForcingData.Path

/-! # File trees

Files, directories and symbolic links, each at its location: the names on the way from the root.
`FileTree.locate` follows a path to a location, from the root or from the working directory, through
at most `linkLimit` links. What the system refuses is an `OsError`. -/

namespace ForcingData
open Text

inductive OsError
  | notFound
  | permissionDenied
  | alreadyExists
  | notDirectory
  | isDirectory
  | nameTooLong
  | tooManyLinks
  /-- The name holds a character that no name can hold. -/
  | invalidName
deriving DecidableEq, Repr, Inhabited

def OsError.message : OsError → String
  | .notFound => "No such file or directory (os error 2)"
  | .permissionDenied => "Permission denied (os error 13)"
  | .alreadyExists => "File exists (os error 17)"
  | .notDirectory => "Not a directory (os error 20)"
  | .isDirectory => "Is a directory (os error 21)"
  | .nameTooLong => "File name too long (os error 36)"
  | .tooManyLinks => "Too many levels of symbolic links (os error 40)"
  | .invalidName => "file name contained an unexpected NUL byte"

abbrev Location := List String

inductive Node
  | file (content : ByteArray)
  | directory
  | link (target : Path)
deriving Inhabited

instance : DecidableEq Node
  | .file a, .file b =>
    match ByteArray.instDecidableEq a b with
    | isTrue h => isTrue (h ▸ rfl)
    | isFalse h => isFalse fun e => h (Node.file.inj e)
  | .link a, .link b => if h : a = b then isTrue (h ▸ rfl) else isFalse fun e => h (Node.link.inj e)
  | .directory, .directory => isTrue rfl
  | .file _, .directory => isFalse nofun
  | .file _, .link _ => isFalse nofun
  | .directory, .file _ => isFalse nofun
  | .directory, .link _ => isFalse nofun
  | .link _, .file _ => isFalse nofun
  | .link _, .directory => isFalse nofun

structure FileTree where
  /-- All nodes but the root, which is always a directory. -/
  nodes : Dict Location Node
  workingDirectory : Location
deriving DecidableEq, Inhabited

namespace FileTree

def node? (t : FileTree) (l : Location) : Option Node :=
  if l = [] then some .directory else t.nodes.get? l

def isDirectoryAt (t : FileTree) (l : Location) : Bool := t.node? l = some .directory

/-- Puts a node where there may be one. -/
def put (t : FileTree) (l : Location) (n : Node) : FileTree :=
  { t with nodes := t.nodes.insert l n }

def removeAt (t : FileTree) (l : Location) : FileTree :=
  { t with nodes := t.nodes.erase l }

/-! ### Following paths -/

/-- The steps of a path; a slash at the end is a step that needs a directory. -/
def steps (p : Path) : List String :=
  let pieces := splitAt '/' p.text
  let names := pieces.filter (· ≠ "")
  if pieces.getLast? = some "" && names ≠ [] then names ++ ["."] else names

def linkLimit : Nat := 40
def nameLimit : Nat := 255
def pathLimit : Nat := 4095

/-- What becomes of the end of a path. -/
structure Ending where
  /-- Is a link at the end followed? -/
  follow : Bool
  /-- May there be nothing at the end? -/
  missing : Bool

/-- Takes the steps from a location, through at most `links` links. -/
def walk (t : FileTree) (ending : Ending) (links : Nat) (here : Location) (names : List String) :
    Except OsError Location :=
  match names with
  | [] => .ok here
  | name :: rest =>
    if !t.isDirectoryAt here then .error .notDirectory
    else if name = "." then walk t ending links here rest
    else if name = ".." then walk t ending links here.dropLast rest
    else if nameLimit < name.utf8ByteSize then .error .nameTooLong
    else
      match t.node? (here ++ [name]) with
      | none =>
        if rest = [] && ending.missing then .ok (here ++ [name]) else .error .notFound
      | some (.link target) =>
        if rest = [] && !ending.follow then .ok (here ++ [name])
        else
          match links with
          | 0 => .error .tooManyLinks
          | links + 1 =>
            walk t ending links (if target.isAbsolute then [] else here) (steps target ++ rest)
      | some _ => walk t ending links (here ++ [name]) rest
termination_by (links, names.length)

/-- Where a path starts. -/
def origin (t : FileTree) (p : Path) : Location :=
  if p.isAbsolute then [] else t.workingDirectory

/-- No system call takes such a path. -/
def refused? (p : Path) : Option OsError :=
  if p.text.toList.contains '\x00' then some .invalidName
  else if p.text = "" then some .notFound
  else if pathLimit < p.text.utf8ByteSize then some .nameTooLong
  else none

def locateWith (t : FileTree) (ending : Ending) (p : Path) : Except OsError Location :=
  match refused? p with
  | some e => .error e
  | none => t.walk ending linkLimit (t.origin p) (steps p)

/-- The location of what a path leads to in the end. -/
def locate (t : FileTree) : Path → Except OsError Location := t.locateWith ⟨true, false⟩

/-! ### Looking -/

def lookup (t : FileTree) (p : Path) : Except OsError Node := do
  match t.node? (← t.locate p) with
  | some n => .ok n
  | none => .error .notFound

def isFile (t : FileTree) (p : Path) : Bool :=
  match t.lookup p with
  | .ok (.file _) => true
  | _ => false

def isDirectory (t : FileTree) (p : Path) : Bool :=
  match t.lookup p with
  | .ok .directory => true
  | _ => false

def exists? (t : FileTree) (p : Path) : Bool :=
  match t.lookup p with
  | .ok _ => true
  | .error _ => false

/-- The content of a file. -/
def read (t : FileTree) (p : Path) : Except OsError ByteArray := do
  match ← t.lookup p with
  | .file content => .ok content
  | .directory => .error .isDirectory
  | .link _ => .error .tooManyLinks

/-- The content, if it is a regular file. -/
def read? (t : FileTree) (p : Path) : Option ByteArray :=
  match t.read p with
  | .ok content => some content
  | .error _ => none

/-- The names in the directory at a location, in order. -/
def namesAt (t : FileTree) (l : Location) : List String :=
  t.nodes.keys.filterMap fun k => if k.dropLast = l then k.getLast? else none

def names (t : FileTree) (p : Path) : Except OsError (List String) := do
  let l ← t.locate p
  if t.isDirectoryAt l then .ok (t.namesAt l) else .error .notDirectory

end FileTree
end ForcingData
