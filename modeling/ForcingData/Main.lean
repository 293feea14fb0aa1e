import ForcingData.CommandLine.Places
import ForcingData.FileTree.Layout
import Std.Time.DateTime.Timestamp

/-! # The program

What the disk holds at the places of a run is taken into a tree, the run is computed on it, and what
it has changed is written back. -/

namespace ForcingData.Program
open CommandLine

def textOf (l : Location) : String := "/" ++ "/".intercalate l

def locationOf (text : String) : Location := (FileTree.steps ⟨text⟩)

/-- What is at a location, and below it if its content is wanted. A link leads to its last
target. -/
partial def takeIn (extent : Extent) (t : FileTree) (l : Location) : IO FileTree := do
  if l = [] then return t
  let real ← (some <$> IO.FS.realPath (textOf l)) <|> pure none
  let parent ← (some <$> IO.FS.realPath (textOf l.dropLast)) <|> pure none
  match real, parent with
  | some real, some parent =>
    let target := locationOf real.toString
    if target ≠ locationOf parent.toString ++ l.getLast?.toList then
      if (t.node? l).isSome then return t
      takeIn extent (t.put l (.link ⟨real.toString⟩)) target
    else if ← real.isDir then
      let t := t.put l .directory
      if extent = .names then return t
      (← real.readDir).foldlM (fun t entry => takeIn extent t (l ++ [entry.fileName])) t
    else if extent = .names then
      return if (t.node? l).isSome then t else t.put l (.file ByteArray.empty)
    else
      return t.put l (.file (← IO.FS.readBinFile real))
  | none, some parent =>
    let names := (← parent.readDir).map (·.fileName)
    if l.getLast?.any names.contains then return t.put l (.link ⟨textOf l ++ ".missing"⟩)
    else return t
  | _, none => return t

/-- Takes in what is at a place, and what leads there. -/
def takeInPlace (t : FileTree) (place : Place) : IO FileTree := do
  let l := t.origin place.path ++ FileTree.steps place.path
  let ways := (List.range l.length).map fun n => l.take n
  let t ← ways.foldlM (takeIn .names) t
  takeIn place.extent t l

def takeInPlaces (t : FileTree) (places : List Place) : IO FileTree := places.foldlM takeInPlace t

/-- Writes back what is new or changed, and removes what is gone. -/
def writeBack (old new : FileTree) : IO Unit := do
  for (l, n) in new.nodes.toList do
    if old.node? l ≠ some n then
      match n with
      | .directory => IO.FS.createDirAll (textOf l)
      | .file content =>
        let temporary := textOf l ++ ".new"
        IO.FS.writeBinFile temporary content
        IO.FS.rename temporary (textOf l)
      | .link _ => pure ()
  for (l, n) in old.nodes.toList do
    if n ≠ .directory && (new.node? l).isNone then IO.FS.removeFile (textOf l)

def environment : IO Environment := do
  let given ← settingVariables.filterMapM fun name => do return (← IO.getEnv name).map (name, ·)
  return Dict.ofList given

def now : IO Instant := do
  let nanos := (← Std.Time.Timestamp.now).toNanosecondsSinceUnixEpoch.val.toNat
  let seconds := nanos / Instant.billion
  return ⟨Nat.repeat Date.succ (seconds / 86400) ⟨1970, 1, 1⟩, seconds % 86400,
    nanos % Instant.billion⟩

def version : String := "0.1.0"

/-- The tree that a run needs. -/
def treeFor (env : Environment) (invocation : Invocation) : IO FileTree := do
  let here := locationOf (← IO.currentDir).toString
  let t ← takeInPlaces (FileTree.bare here) settingsPlaces
  match Settings.load? t.read? env, invocation.command with
  | .ok settings, some command =>
    let t ← takeInPlaces t (command.places (invocation.overrides.apply settings))
    match command with
    | .validateDatabase directory => takeInPlaces t (entryPlaces t directory)
    | _ => return t
  | _, _ => return t

def tell : Except Failure Success → IO Unit
  | .ok (.help command) => IO.println s!"Usage: {command} [OPTIONS] [COMMAND]"
  | .ok (.version true) => IO.println version
  | .ok (.version false) => IO.println s!"{programName} {version}"
  | .ok .done => pure ()
  | .error e => IO.eprintln s!"Error: {e.message}"

end ForcingData.Program

open ForcingData ForcingData.CommandLine ForcingData.Program

def main (words : List String) : IO UInt32 := do
  let env ← environment
  let surroundings : Surroundings :=
    ⟨env, Vocabularies.offline, Compliance.basic, fun _ => 0, ← now⟩
  let before ← match Invocation.ofWords? words with
    | .ok invocation => treeFor env invocation
    | .error _ => pure (FileTree.bare [])
  let (ended, after) := (run surroundings words).on before
  writeBack before after
  tell ended
  return (exitCode ended).toUInt32
