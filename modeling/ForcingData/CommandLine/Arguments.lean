import ForcingData.Decimal.Reading

/-! # Arguments

The words of a command line are read against a grammar: at every level of commands there are
options, perhaps an operand, and perhaps further commands. `Grammar.read` gives what was found at
each level, from the outermost command to the innermost; where an option may stand at several
levels, the innermost level that has it counts. -/

namespace ForcingData.CommandLine

/-- What follows an option. -/
inductive Takes
  | nothing
  | text
  /-- A text that is not empty. -/
  | path
  | count
deriving DecidableEq, Repr, Inhabited

def Takes.accepts (t : Takes) (value : String) : Bool :=
  match t with
  | .nothing => false
  | .text => true
  | .path => value ≠ ""
  | .count => (Decimal.word? value.toList).isSome

/-- An option is written with two dashes and its name, or with one dash and a letter. -/
structure Opt where
  name : String
  letter : Option Char := none
  takes : Takes := .nothing
  repeats : Bool := false
  required : Bool := false
deriving DecidableEq, Repr, Inhabited

structure Grammar where
  name : String
  options : List Opt := []
  /-- The path that the command needs. -/
  operand : Option String := none
  /-- Options that must not stand together. -/
  exclusive : List (String × String) := []
  commands : List Grammar := []
  needsCommand : Bool := false

/-- A command line that does not follow the grammar. -/
inductive Misuse
  | unknownOption (text : String)
  | unexpectedWord (text : String)
  | missingValue (option : String)
  | unexpectedValue (option : String)
  | invalidValue (option value : String)
  | repeated (option : String)
  | exclusive (option other : String)
  | missing (name : String)
  | missingCommand
deriving DecidableEq, Repr

def Misuse.message : Misuse → String
  | .unknownOption text => s!"unexpected argument '{text}' found"
  | .unexpectedWord text => s!"unexpected argument '{text}' found"
  | .missingValue option => s!"a value is required for '--{option}' but none was supplied"
  | .unexpectedValue option => s!"'--{option}' takes no value"
  | .invalidValue name value => s!"invalid value '{value}' for '{name}'"
  | .repeated option => s!"the argument '--{option}' cannot be used multiple times"
  | .exclusive option other => s!"the argument '--{option}' cannot be used with '--{other}'"
  | .missing name => s!"the required argument '{name}' was not provided"
  | .missingCommand => "a subcommand is required but was not provided"

/-- Why reading gives no arguments. -/
inductive Stop
  /-- Help on a command is asked for, after which nothing is read. -/
  | help (command : String)
  | misuse (error : Misuse)
deriving DecidableEq, Repr

/-! ### One level -/

/-- What is found at one level: options with their values, of which a flag has one empty value. -/
structure Given where
  values : List (String × String) := []
  operand : Option String := none
deriving DecidableEq, Repr, Inhabited

namespace Given

def has (g : Given) (name : String) : Bool := g.values.any (·.1 = name)

def valuesOf (g : Given) (name : String) : List String :=
  (g.values.filter (·.1 = name)).map (·.2)

/-- Adds an option with its value. -/
def add (g : Given) (o : Opt) (value : String) : Except Stop Given :=
  if o.takes ≠ .nothing && !o.takes.accepts value then
    .error (.misuse (.invalidValue o.name value))
  else if !o.repeats && g.has o.name then .error (.misuse (.repeated o.name))
  else .ok { g with values := g.values ++ [(o.name, value)] }

/-- Adds the option that was waiting. -/
def settle (g : Given) : Option (Opt × String) → Except Stop Given
  | none => .ok g
  | some (o, value) => g.add o value

end Given

namespace Grammar

def option? (g : Grammar) (name : String) : Option Opt := g.options.find? (·.name = name)

def letter? (g : Grammar) (c : Char) : Option Opt := g.options.find? (·.letter = some c)

/-- The names of all that is required. -/
def requirements (g : Grammar) : List String :=
  (g.options.filter (·.required)).map (·.name)

/-- Is all there, and nothing that excludes something else? -/
def check (g : Grammar) (given : Given) (hasCommand : Bool) : Except Stop Unit :=
  if !hasCommand && g.needsCommand then .error (.misuse .missingCommand)
  else
    match g.exclusive.find? fun (a, b) => given.has a && given.has b with
    | some (a, b) => .error (.misuse (.exclusive a b))
    | none =>
      match g.requirements.find? fun name => !given.has name with
      | some name => .error (.misuse (.missing name))
      | none =>
        match g.operand, given.operand with
        | some name, none => .error (.misuse (.missing name))
        | _, _ => .ok ()

/-- Adds a word that is no option. -/
def addOperand (g : Grammar) (given : Given) (word : String) : Except Stop Given :=
  match g.operand, given.operand with
  | some name, none =>
    if Takes.path.accepts word then .ok { given with operand := some word }
    else .error (.misuse (.invalidValue name word))
  | _, _ => .error (.misuse (.unexpectedWord word))

/-! ### Options -/

/-- An option in a word: with its value, or without the value that it takes. -/
inductive Reading
  | whole (given : Given)
  | waiting (given : Given) (option : Opt)

def helpName : String := "help"

/-- Reads what follows two dashes. -/
def readLong (g : Grammar) (given : Given) (text : List Char) : Except Stop Reading :=
  let (name, value) := match Text.splitFirst? '=' text with
    | some (name, value) => (String.ofList name, some (String.ofList value))
    | none => (String.ofList text, none)
  if name = helpName then
    if value.isSome then .error (.misuse (.unexpectedValue name)) else .error (.help g.name)
  else
    match g.option? name, value with
    | none, _ => .error (.misuse (.unknownOption ("--" ++ name)))
    | some o, some value =>
      if o.takes = .nothing then .error (.misuse (.unexpectedValue name))
      else (given.add o value).map .whole
    | some o, none =>
      if o.takes = .nothing then (given.add o "").map .whole else .ok (.waiting given o)

/-- Reads the letters that follow one dash. What follows the letter of an option that takes a value
is the value, perhaps after `=`. -/
def readLetters (g : Grammar) (given : Given) : List Char → Except Stop Reading
  | [] => .ok (.whole given)
  | c :: cs =>
    if c = 'h' then .error (.help g.name)
    else
      match g.letter? c with
      | none => .error (.misuse (.unknownOption (String.ofList ['-', c])))
      | some o =>
        if o.takes = .nothing then do readLetters g (← given.add o "") cs
        else
          match cs with
          | [] => .ok (.waiting given o)
          | '=' :: value => (given.add o (String.ofList value)).map .whole
          | value => (given.add o (String.ofList value)).map .whole

/-- Reads a word that begins with a dash. -/
def readOption (g : Grammar) (given : Given) (word : String) : Except Stop Reading :=
  match word.toList with
  | '-' :: '-' :: text => readLong g given text
  | letters => readLetters g given (letters.drop 1)

/-- One dash alone is an operand. -/
def isOption (word : String) : Bool := word.toList.head? = some '-' && word ≠ "-"

/-! ### Commands -/

/-- The command that help is asked for by its names. -/
def helpOn (g : Grammar) : List String → Stop
  | [] => .help g.name
  | word :: rest =>
    match g.commands.find? (·.name = word) with
    | some command => helpOn command rest
    | none =>
      if word = helpName && !g.commands.isEmpty && rest.isEmpty then .help helpName
      else .misuse (.unexpectedWord word)

/-- Reads the words at one level and below. A value that has come for an option waits until it is
known that no command follows, as a command is read before the options in front of it are judged. -/
def readFrom (g : Grammar) (given : Given) (waiting : Option (Opt × String))
    (onlyOperands : Bool) : List String → Except Stop (List (String × Given))
  | [] => do
    let given ← given.settle waiting
    g.check given false
    return [(g.name, given)]
  | word :: rest =>
    if onlyOperands then do
      let given ← g.addOperand (← given.settle waiting) word
      readFrom g given none true rest
    else
      match g.commands.find? (·.name = word) with
      | some command => do
        let below ← readFrom command {} none false rest
        let given ← given.settle waiting
        g.check given true
        return (g.name, given) :: below
      | none =>
        if word = helpName && !g.commands.isEmpty then .error (g.helpOn rest)
        else if word = "--" then readFrom g given waiting true rest
        else if isOption word then do
          match ← g.readOption (← given.settle waiting) word with
          | .whole given => readFrom g given none false rest
          | .waiting given o =>
            match rest with
            | [] => .error (.misuse (.missingValue o.name))
            | value :: rest =>
              if isOption value then .error (.misuse (.missingValue o.name))
              else readFrom g given (some (o, value)) false rest
        else do
          let given ← g.addOperand (← given.settle waiting) word
          readFrom g given none false rest

def read (g : Grammar) (words : List String) : Except Stop (List (String × Given)) :=
  g.readFrom {} none false words

end Grammar

/-! ### All levels -/

/-- What is found at each level, from the outermost to the innermost. -/
abbrev Arguments := List (String × Given)

namespace Arguments

/-- The values at the innermost level that has any. -/
def values (a : Arguments) (name : String) : List String :=
  ((a.reverse.map fun level => level.2.valuesOf name).find? (!·.isEmpty)).getD []

def value? (a : Arguments) (name : String) : Option String := (a.values name).head?

def has (a : Arguments) (name : String) : Bool := !(a.values name).isEmpty

/-- The operand of the innermost command. -/
def operand? (a : Arguments) : Option String := a.getLast?.bind (·.2.operand)

/-- The names of the commands below the outermost. -/
def commands (a : Arguments) : List String := (a.drop 1).map (·.1)

end Arguments
end ForcingData.CommandLine
