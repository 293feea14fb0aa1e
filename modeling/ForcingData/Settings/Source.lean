import ForcingData.Decimal.Positional
import ForcingData.Settings.Basic
import ForcingData.Text.Lowercase
import ForcingData.Toml.Basic
import ForcingData.Yaml.Value

/-! # Sources of settings

Settings come from a file and, with priority, from environment variables. Each of them has its own
idea of what a number is, so values are taken loosely: a number may be written as a text, and a text
as a number. -/

namespace ForcingData.Settings
open Json Text

/-! ### Loose values -/

def truthWords : List String := ["true", "on", "yes"]
def falsehoodWords : List String := ["false", "off", "no"]

/-- A whole number; decimals are rounded, and cut off at the ends of the range. -/
def looseNat? : Value → Option Nat
  | .number (.int n) => if 0 ≤ n then some n.toNat else none
  | .number (.float f) => some f.round.toUInt64.toNat
  | .bool b => some (if b then 1 else 0)
  | .text s =>
    let word := lowercase s
    if truthWords.contains word then some 1
    else if falsehoodWords.contains word then some 0
    else Decimal.word? s.toList
  | _ => none

def looseBool? : Value → Option Bool
  | .bool b => some b
  | .number (.int n) => some (n != 0)
  | .number (.float f) => some (f != 0.0)
  | .text s =>
    let word := lowercase s
    if word = "1" || truthWords.contains word then some true
    else if word = "0" || falsehoodWords.contains word then some false
    else none
  | _ => none

def looseText? : Value → Option String
  | .text s => some s
  | .bool true => some "true"
  | .bool false => some "false"
  | .number (.int n) => some (toString n)
  | .number (.float f) => some (Decimal.positional f)
  | _ => none

def looseList? : Value → Option (List String)
  | .array items => items.mapM looseText?
  | _ => none

abbrev Members := List (String × Value)

/-- A value that is there and not `null`. -/
def given? {α : Type} (ms : Members) (key : String) (item? : Value → Option α) :
    Option (Option α) :=
  match ms.lookup key with
  | none => some none
  | some .null => some none
  | some v => (item? v).map some

/-- The draft that loose values make. -/
def Draft.ofMembers? (ms : Members) : Option Draft := do
  return {
    userAgent := ← given? ms "user_agent" looseText?
    cvSource := ← given? ms "input4mips_cv_source" looseText?
    forceDownload := ← match ms.lookup "input4mips_cv_source_force_download" with
      | none => some false
      | some v => looseBool? v
    cacheDirectory := ← given? ms "cache_dir" looseText?
    retries := (← given? ms "retries" looseNat?).map (· % Word.count 32)
    timeout := ← given? ms "timeout" looseNat?
    workers := ← given? ms "n_workers" looseNat?
    cfChecker := ← given? ms "cf_checker_command" looseText?
    indicators := ← given? ms "bnds_coord_indicators" looseList? }

/-! ### Environment -/

def environmentPrefix : String := "input4mips_validation_"

def listKey : String := "bnds_coord_indicators"

/-- The value of a variable: a truth value, a number, a list if the key is for one, or a text. -/
def environmentValue (key s : String) : Value :=
  let word := lowercase s
  if word = "true" then .bool true
  else if word = "false" then .bool false
  else
    match (Decimal.int? s.toList).filter (Word.fitsSigned 64), Decimal.readNumber? s.toList with
    | some n, _ => .number (.int n)
    | none, some f => .number (.float f)
    | none, none =>
      if key = listKey then .array ((splitAt ',' s).map .text) else .text s

/-- The settings in variables with the prefix; case does not matter in their names. -/
def ofEnvironment (env : Environment) : Members :=
  env.toList.filterMap fun (name, value) => do
    let key ← dropPrefix? environmentPrefix.toList (lowercase name).toList
    let key := String.ofList key
    return (key, environmentValue key value)

/-! ### Files -/

/-- What plain scalars in a settings file stand for. -/
def plainSetting (s : String) : Option Value :=
  let cs := s.toList
  let based? : Option Int := match cs with
    | '0' :: 'x' :: digits => (Decimal.natOfDigits? 16 digits).map Int.ofNat
    | '0' :: 'o' :: digits => (Decimal.natOfDigits? 8 digits).map Int.ofNat
    | _ => Decimal.int? cs
  if Yaml.isNull s then some .null
  else
    match Yaml.bool? s, based?.filter (Word.fitsSigned 64) with
    | some b, _ => some (.bool b)
    | none, some n => some (.number (.int n))
    | none, none =>
      if Yaml.isNotFinite s then none
      else if cs.any Char.isDigit then
        match Decimal.readNumber? cs with
        | some f => some (.number (.float f))
        | none => some (.text s)
      else some (.text s)

/-- Are the names all different? -/
def distinct : List String → Bool
  | [] => true
  | name :: rest => !rest.contains name && distinct rest

mutual

def nodeSetting? : Yaml.Node → Option Value
  | .scalar s => if s.plain then plainSetting s.text else some (.text s.text)
  | .list items => (nodeSettings? items).map .array
  | .map entries => do
    let ms ← entrySettings? entries
    if distinct (ms.map (·.1)) then return .object ms else none
  | .alias _ => none
  | .marked p node =>
    match p.tag, node with
    | some tag, .scalar s =>
      let core := ["bool", "int", "float", "null"].map Yaml.coreTag
      if core.contains tag then nodeSetting? (.scalar s) else some (.text s.text)
    | _, node => nodeSetting? node

def nodeSettings? : List Yaml.Node → Option (List Value)
  | [] => some []
  | n :: rest => do
    let v ← nodeSetting? n
    return v :: (← nodeSettings? rest)

def entrySettings? : List (Yaml.Scalar × Yaml.Node) → Option Members
  | [] => some []
  | (key, n) :: rest => do
    if key.plain && Yaml.isNull key.text then none
    let v ← nodeSetting? n
    return (key.text, v) :: (← entrySettings? rest)

end

inductive FileFormat
  | toml
  | json
  | yaml
deriving DecidableEq, Repr

def membersOf? : Value → Option Members
  | .object ms => some ms
  | _ => none

/-- The settings in a file; a file without a document has none. -/
def FileFormat.members? (format : FileFormat) (text : String) : Option Members :=
  match format with
  | .toml => Toml.parse? text
  | .json => (Value.parse? text).bind membersOf?
  | .yaml =>
    match Yaml.content? text with
    | none => none
    | some none => some []
    | some (some node) => (nodeSetting? node).bind membersOf?

def fileName : String := "input4mips-validation"

/-- The extensions that a settings file may have. -/
def extensions : List (String × FileFormat) :=
  [("toml", .toml), ("json", .json), ("yaml", .yaml), ("yml", .yaml)]

/-- The settings file that is there: its format and content. A file without an extension hides all
others, and says nothing. -/
def findFile (read? : Path → Option ByteArray) : Option (FileFormat × ByteArray) :=
  if (read? ⟨fileName⟩).isSome then none
  else
    extensions.findSome? fun (extension, format) =>
      (read? ⟨fileName ++ "." ++ extension⟩).map (format, ·)

def fileMembers? (read? : Path → Option ByteArray) : Option Members :=
  match findFile read? with
  | none => some []
  | some (format, bytes) => (String.fromUTF8? bytes).bind format.members?

/-- Reads the settings; the environment has priority over the file. -/
def load? (read? : Path → Option ByteArray) (env : Environment) : Except Error Settings :=
  match (fileMembers? read?).bind fun file => Draft.ofMembers? (ofEnvironment env ++ file) with
  | some draft => draft.finish? env
  | none => .error .unreadable

end ForcingData.Settings
