import ForcingData.FileTree.Disk

/-! # Layouts

A layout says what is below a working directory: directories, files and links, each made with the
directories on the way to it. `FileTree.listing` is the way back: all that is no directory. -/

namespace ForcingData

structure Layout where
  directories : List Path := []
  files : List (Path × ByteArray) := []
  links : List (Path × Path) := []
deriving Inhabited

namespace FileTree

/-- Makes the directory of a path. -/
def createParent (p : Path) : Disk OsError Unit :=
  match p.parent? with
  | some parent => createDirectories parent
  | none => pure ()

/-- Writes a file wherever it is to be. -/
def writeAnywhere (p : Path) (content : ByteArray) : Disk OsError Unit := do
  createParent p
  Disk.change fun t => t.write p content

/-- Makes a link; what it leads to need not be there. -/
def makeLink (p target : Path) : Disk OsError Unit := do
  createParent p
  Disk.change fun t => do return t.put (← t.freeLocation p) (.link target)

/-- Nothing but the working directory. -/
def bare (workingDirectory : Location) : FileTree :=
  let locations := (List.range workingDirectory.length).map fun n => workingDirectory.take (n + 1)
  ⟨Dict.ofList (locations.map (·, .directory)), workingDirectory⟩

/-- Makes all that a layout says, in its order. -/
def lay (l : Layout) : Disk OsError Unit := do
  l.directories.forM createDirectories
  l.files.forM fun (p, content) => writeAnywhere p content
  l.links.forM fun (p, target) => makeLink p target

/-- The tree of a layout, if all of it can be made. -/
def ofLayout? (workingDirectory : Location) (l : Layout) : Option FileTree :=
  match (lay l).on (bare workingDirectory) with
  | (.ok (), t) => some t
  | (.error _, _) => none

/-- The files and links below the working directory, sorted as texts. -/
def listing (t : FileTree) : List String :=
  let depth := t.workingDirectory.length
  let found := t.nodes.toList.filterMap fun (l, n) =>
    if n = .directory || l.take depth ≠ t.workingDirectory then none
    else some ("/".intercalate (l.drop depth))
  found.mergeSort fun a b => a ≤ b

end FileTree
end ForcingData
