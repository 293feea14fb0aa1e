import ForcingData.Dict

/-! # Name templates

A template is literal text with placeholders `<key>` and optional sections `[...]`, which hold at
least one placeholder and no section of their own. A `]` outside of a section is plain text. -/

namespace ForcingData

/-- Texts by name: the attributes of a data file, or the values of placeholders. -/
abbrev Attributes := Dict String String

namespace Drs

inductive Item
  | literal (text : List Char)
  | key (name : String)
deriving DecidableEq, Repr

inductive Piece
  | item (item : Item)
  | optional (items : List Item)
deriving DecidableEq, Repr

/-- A template, and the text it was read from. -/
structure Template where
  text : String
  pieces : List Piece
deriving DecidableEq, Repr

inductive TemplateError.Cause
  | unclosedPlaceholder
  | unclosedOptional
  | nestedOptional
  | optionalWithoutKey
  | emptyKey
  | optionalInDirectory
deriving DecidableEq, Repr

structure TemplateError where
  cause : TemplateError.Cause
  template : String
deriving DecidableEq, Repr

def TemplateError.message (e : TemplateError) : String :=
  match e.cause with
  | .unclosedPlaceholder => s!"Unclosed placeholder in DRS template '{e.template}'"
  | .unclosedOptional => s!"Unclosed optional section in DRS template '{e.template}'"
  | .nestedOptional =>
    s!"Nested optional sections are not supported, in DRS template '{e.template}'"
  | .optionalWithoutKey =>
    s!"Optional section without a placeholder in DRS template '{e.template}'"
  | .emptyKey => s!"Empty placeholder in DRS template '{e.template}'"
  | .optionalInDirectory =>
    s!"Optional sections are not supported in directory templates: '{e.template}'"

namespace Item

def isKey : Item → Bool
  | .key _ => true
  | .literal _ => false

/-- The key of a placeholder. -/
def key? : Item → Option String
  | .key name => some name
  | .literal _ => none

/-- How the item is written in a template. -/
def chars : Item → List Char
  | .literal text => text
  | .key name => '<' :: name.toList ++ ['>']

end Item

namespace Piece

def items : Piece → List Item
  | .item i => [i]
  | .optional is => is

def isOptional : Piece → Bool
  | .item _ => false
  | .optional _ => true

/-- How the piece is written in a template. -/
def chars : Piece → List Char
  | .item i => i.chars
  | .optional is => '[' :: is.flatMap Item.chars ++ [']']

end Piece

/-! ### Reading templates -/

/-- What has been read: whole pieces, an open section, and then an open placeholder or plain
text. -/
structure Scan where
  pieces : List Piece := []
  group? : Option (List Item) := none
  literal : List Char := []
  key? : Option (List Char) := none

namespace Scan

/-- Puts an item where it belongs, in the open section or on its own. -/
def put (s : Scan) (i : Item) : Scan :=
  match s.group? with
  | some is => { s with group? := some (is ++ [i]) }
  | none => { s with pieces := s.pieces ++ [.item i] }

/-- Ends a run of plain text. -/
def flush (s : Scan) : Scan :=
  if s.literal = [] then s else { s.put (.literal s.literal) with literal := [] }

/-- Reads one character. -/
def step (s : Scan) (c : Char) : Except TemplateError.Cause Scan :=
  match s.key? with
  | some key =>
    if c = '>' then
      if key = [] then .error .emptyKey
      else .ok { s.put (.key (String.ofList key)) with key? := none }
    else .ok { s with key? := some (key ++ [c]) }
  | none =>
    if c = '<' then .ok { s.flush with key? := some [] }
    else if c = '[' then
      if s.group?.isSome then .error .nestedOptional
      else .ok { s.flush with group? := some [] }
    else if c = ']' then
      match s.flush.group? with
      | none => .ok { s.flush with literal := [c] }
      | some items =>
        if items.any Item.isKey then
          .ok { s.flush with group? := none, pieces := s.flush.pieces ++ [.optional items] }
        else .error .optionalWithoutKey
    else .ok { s with literal := s.literal ++ [c] }

def run : Scan → List Char → Except TemplateError.Cause Scan
  | s, [] => .ok s
  | s, c :: cs => do run (← s.step c) cs

def finish (s : Scan) : Except TemplateError.Cause (List Piece) :=
  if s.key?.isSome then .error .unclosedPlaceholder
  else if s.group?.isSome then .error .unclosedOptional
  else .ok s.flush.pieces

end Scan

namespace Template

def piecesOf? (cs : List Char) : Except TemplateError.Cause (List Piece) := do
  (← Scan.run {} cs).finish

def parse? (text : String) : Except TemplateError Template :=
  match piecesOf? text.toList with
  | .ok pieces => .ok ⟨text, pieces⟩
  | .error cause => .error ⟨cause, text⟩

/-- The keys of all placeholders, in order. -/
def keys (t : Template) : List String :=
  (t.pieces.flatMap Piece.items).filterMap Item.key?

def usesKey (t : Template) (key : String) : Bool := t.keys.contains key

end Template
end Drs
end ForcingData
