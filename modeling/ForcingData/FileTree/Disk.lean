import ForcingData.FileTree.Basic

/-! # Changing file trees

`Disk ε α` is work that changes a file tree and may fail; what it changed before it failed stays
changed. Each primitive below either does all that it says or fails and changes nothing. -/

namespace ForcingData

abbrev Disk (ε α : Type) := ExceptT ε (StateM FileTree) α

namespace Disk
variable {ε α : Type}

/-- The outcome, and the tree after it. -/
def on (x : Disk ε α) (t : FileTree) : Except ε α × FileTree := x.run t

/-- Looks at the tree, or fails. -/
def ask (f : FileTree → Except ε α) : Disk ε α := do
  match f (← get) with
  | .ok a => return a
  | .error e => throw e

/-- Changes the tree, or fails. -/
def change (f : FileTree → Except ε FileTree) : Disk ε Unit := do
  match f (← get) with
  | .ok t => set t
  | .error e => throw e

/-- The same work with other errors. -/
def withError {ε' : Type} (f : ε → ε') (x : Disk ε α) : Disk ε' α := fun t =>
  let (r, t) := x.run t
  (r.mapError f, t)

end Disk

namespace FileTree

/-! ### Primitives -/

/-- The location for something new: its directory is there, and it is not. -/
def freeLocation (t : FileTree) (p : Path) : Except OsError Location := do
  let l ← t.locateWith ⟨false, true⟩ p
  if (t.node? l).isSome then .error .alreadyExists else .ok l

/-- The path without the slashes at its end. -/
def withoutSlashes (p : Path) : Path :=
  match (p.text.toList.reverse.dropWhile (· == '/')).reverse with
  | [] => p
  | cs => ⟨String.ofList cs⟩

/-- Makes a directory. -/
def makeDirectory (t : FileTree) (p : Path) : Except OsError FileTree := do
  return t.put (← t.freeLocation (withoutSlashes p)) .directory

/-- A path with a slash at its end names no file, whether or not there is something. -/
def refuseSlash (t : FileTree) (p : Path) : Except OsError Unit := do
  if p.text.toList.getLast? = some '/' then
    let l ← t.walk ⟨true, false⟩ linkLimit (t.origin p) (steps p).dropLast.dropLast
    if t.isDirectoryAt l then .error .isDirectory else .error .notDirectory

/-- Makes a file that is not there yet. -/
def createNew (t : FileTree) (p : Path) (content : ByteArray) : Except OsError FileTree := do
  t.refuseSlash p
  return t.put (← t.freeLocation p) (.file content)

/-- Writes a file, also one that is there, and also through a link. -/
def write (t : FileTree) (p : Path) (content : ByteArray) : Except OsError FileTree := do
  t.refuseSlash p
  let l ← t.locateWith ⟨true, true⟩ p
  match t.node? l with
  | some .directory => .error .isDirectory
  | _ => .ok (t.put l (.file content))

/-- Makes an empty file unless there is a file, also through a link. -/
def ensureFile (t : FileTree) (p : Path) : Except OsError FileTree := do
  t.refuseSlash p
  let l ← t.locateWith ⟨true, true⟩ p
  match t.node? l with
  | some .directory => .error .isDirectory
  | some _ => .ok t
  | none => .ok (t.put l (.file .empty))

/-- Moves a file to where there is nothing or no directory; a link there is replaced. -/
def rename (t : FileTree) (source target : Path) : Except OsError FileTree := do
  let l ← t.locateWith ⟨false, false⟩ source
  let l' ← t.locateWith ⟨false, true⟩ target
  match t.node? l, t.node? l' with
  | none, _ => .error .notFound
  | some _, some .directory => .error .isDirectory
  | some n, _ => .ok ((t.removeAt l).put l' n)

/-- Removes a file or a link. -/
def remove (t : FileTree) (p : Path) : Except OsError FileTree := do
  let l ← t.locateWith ⟨false, false⟩ p
  if t.isDirectoryAt l then .error .isDirectory else .ok (t.removeAt l)

/-! ### Directories with all that leads to them -/

/-- A directory that is there already is no failure. -/
def makeOrFind (p : Path) : Disk OsError Unit := fun t =>
  match t.makeDirectory p with
  | .ok t => (.ok (), t)
  | .error e => (if t.isDirectory p then .ok () else .error e, t)

/-- Makes a directory, and the directories on the way to it if that is needed. -/
def makeDirectories : Nat → Path → Disk OsError Unit
  | 0, _ => throw .notFound
  | fuel + 1, p => fun t =>
    if p.text = "" then (.ok (), t)
    else
      match t.makeDirectory p with
      | .error .notFound =>
        match p.parent? with
        | none => (.error .notFound, t)
        | some parent => (do makeDirectories fuel parent; makeOrFind p) t
      | _ => makeOrFind p t

def createDirectories (p : Path) : Disk OsError Unit :=
  makeDirectories (p.text.length + 1) p

/-! ### Replacing a file -/

/-- A name that no node beside it has. -/
def freeName (t : FileTree) (directory : Path) : Nat → Nat → Path
  | 0, n => directory.join ⟨s!".tmp{n}"⟩
  | fuel + 1, n =>
    let p := directory.join ⟨s!".tmp{n}"⟩
    match t.freeLocation p with
    | .error .alreadyExists => freeName t directory fuel (n + 1)
    | _ => p

/-- The directory of a file. -/
def directoryOf (p : Path) : Path :=
  match p.parent? with
  | some parent => if parent.text = "" then ⟨"."⟩ else parent
  | none => ⟨"."⟩

/-- Writes all of a temporary file beside the target and then moves it there, so that the target
is never there in part. -/
def replace (p : Path) (content : ByteArray) : Disk OsError Unit := do
  let t ← get
  let temporary := t.freeName (directoryOf p) t.nodes.size 0
  Disk.change fun t => t.createNew temporary ByteArray.empty
  Disk.change fun t => t.write temporary content
  fun t =>
    match t.rename temporary p with
    | .ok t => (.ok (), t)
    | .error e => (.error e, ((t.remove temporary).toOption).getD t)

end FileTree
end ForcingData
