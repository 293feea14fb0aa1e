import ForcingData.Yaml.BlockScalar

/-! # Nodes

The part of YAML without explicit keys, and without anchors on keys: lists and maps by indentation
or in brackets, and scalars. `parse?` reads a text with at most one document. -/

namespace ForcingData.Yaml

/-- What may stand before a node: a name for it, and a tag. -/
structure Properties where
  anchor : Option String := none
  tag : Option String := none
deriving DecidableEq, Repr, Inhabited

inductive Node
  | scalar (s : Scalar)
  | list (items : List Node)
  | map (entries : List (Scalar × Node))
  /-- The node that was given this name before. -/
  | alias (name : String)
  | marked (p : Properties) (node : Node)
deriving Repr, Inhabited

/-- The node that is not written at all. -/
def Node.empty : Node := .scalar ⟨"", true⟩

/-! ### Names and tags -/

/-- A name after its sign. -/
def name? (c : Cursor) : Option (String × Cursor) :=
  let name := c.rest.takeWhile fun d => d.isAlphanum || d == '_' || d == '-'
  let stop := c.advance name.length
  let ends := [',', ']', '\x7d', '?', ':', '%', '@', '\x60']
  if name ≠ [] && (endsWord stop.rest || stop.rest.head?.any ends.contains) then
    some (String.ofList name, stop)
  else none

def coreTag (name : String) : String := "tag:yaml.org,2002:" ++ name

def isTagChar (c : Char) : Bool := c.isAlphanum || "-_;/?:@&=+$.~*\x27()%".toList.contains c

/-- A tag from its sign on: between angle brackets in full, after two signs one of the core. -/
def tag? (c : Cursor) : Option (String × Cursor) :=
  match c.rest with
  | '!' :: '<' :: rest =>
    let tag := rest.takeWhile fun d => isTagChar d || d == ',' || d == '!'
    if tag ≠ [] && (rest.drop tag.length).head? = some '>' then
      some (String.ofList tag, c.advance (tag.length + 3))
    else none
  | '!' :: '!' :: rest =>
    let tag := rest.takeWhile isTagChar
    if tag = [] then none else some (coreTag (String.ofList tag), c.advance (tag.length + 2))
  | '!' :: rest =>
    let tag := rest.takeWhile isTagChar
    some (String.ofList ('!' :: tag), c.advance (tag.length + 1))
  | _ => none

/-- One more property. -/
def property? (p : Properties) (c : Cursor) : Option (Properties × Cursor) :=
  match c.rest with
  | '&' :: _ =>
    if p.anchor.isSome then none
    else (name? (c.advance 1)).map fun (name, stop) => ({ p with anchor := some name }, stop)
  | '!' :: _ =>
    if p.tag.isSome then none
    else
      (tag? c).bind fun (tag, stop) =>
        if endsWord stop.rest || stop.rest.head? = some ',' then
          some ({ p with tag := some tag }, stop)
        else none
  | _ => none

/-- One or two properties. -/
def properties? (c : Cursor) : Option (Properties × Cursor) := do
  let (p, stop) ← property? {} c
  return (property? p (skipBlanks stop)).getD (p, stop)

/-- A key with its colon, all on one line; the cursor is after the colon. -/
def key? (fuel : Nat) (c : Cursor) : Option (Scalar × Cursor) := do
  let line : Cursor := ⟨c.column, c.rest.takeWhile (· != '\n')⟩
  let start := match properties? line with
    | some (_, stop) => skipBlanks stop
    | none => line
  let (s, stop) ← scalar? false (-1) fuel start
  let colon := skipBlanks stop
  let length := line.rest.length - colon.rest.length
  match colon.rest with
  | ':' :: rest => if endsWord rest then some (s, c.advance (length + 1)) else none
  | _ => none

/-! ### Brackets -/

mutual

/-- A node inside brackets. -/
def flowNode : Nat → Cursor → Option (Node × Cursor)
  | 0, _ => none
  | fuel + 1, c =>
    match c.rest with
    | '[' :: _ => do
      let (items, stop) ← flowItems fuel (skipFlow fuel (c.advance 1))
      return (.list items, stop)
    | '\x7b' :: _ => do
      let (entries, stop) ← flowEntries fuel (skipFlow fuel (c.advance 1))
      return (.map entries, stop)
    | '*' :: _ => (name? (c.advance 1)).map fun (name, stop) => (.alias name, stop)
    | _ =>
      match properties? c with
      | some (p, stop) =>
        (flowValue fuel (skipFlow fuel stop)).map fun (node, stop) => (.marked p node, stop)
      | none => (scalar? true (-1) fuel c).map fun (s, stop) => (.scalar s, stop)

/-- A node that may be left out, after a colon or after properties inside brackets. -/
def flowValue : Nat → Cursor → Option (Node × Cursor)
  | 0, _ => none
  | fuel + 1, c =>
    match c.rest with
    | [] => none
    | d :: _ =>
      if d = ',' || d = ']' || d = '\x7d' then some (.empty, c) else flowNode fuel c

def flowItems : Nat → Cursor → Option (List Node × Cursor)
  | 0, _ => none
  | fuel + 1, c =>
    match c.rest with
    | ']' :: _ => some ([], c.advance 1)
    | _ => do
      let (node, stop) ← flowNode fuel c
      let stop := skipFlow fuel stop
      let (item, stop) ← match node, stop.rest with
        | .scalar s, ':' :: _ => do
          let (value, stop) ← flowValue fuel (skipFlow fuel (stop.advance 1))
          pure (Node.map [(s, value)], skipFlow fuel stop)
        | _, _ => pure (node, stop)
      match stop.rest with
      | ']' :: _ => return ([item], stop.advance 1)
      | ',' :: _ =>
        let (items, stop) ← flowItems fuel (skipFlow fuel (stop.advance 1))
        return (item :: items, stop)
      | _ => none

def flowEntries : Nat → Cursor → Option (List (Scalar × Node) × Cursor)
  | 0, _ => none
  | fuel + 1, c =>
    match c.rest with
    | '\x7d' :: _ => some ([], c.advance 1)
    | _ => do
      let (s, stop) ← scalar? true (-1) fuel c
      let stop := skipFlow fuel stop
      let (value, stop) ← match stop.rest with
        | ':' :: _ => do
          let (value, stop) ← flowValue fuel (skipFlow fuel (stop.advance 1))
          pure (value, skipFlow fuel stop)
        | _ => pure (Node.empty, stop)
      match stop.rest with
      | '\x7d' :: _ => return ([(s, value)], stop.advance 1)
      | ',' :: _ =>
        let (entries, stop) ← flowEntries fuel (skipFlow fuel (stop.advance 1))
        return ((s, value) :: entries, stop)
      | _ => none

end

/-! ### Blocks -/

/-- A node that goes on where it starts: brackets, an alias or a scalar. The next content is on a
later line. -/
def inlineNode (fuel : Nat) (indent : Int) (c : Cursor) : Option (Node × Cursor) := do
  let (node, stop) ← match c.rest with
    | '[' :: _ | '\x7b' :: _ => flowNode fuel c
    | '*' :: _ => (name? (c.advance 1)).map fun (name, stop) => (.alias name, stop)
    | _ => (scalar? false indent fuel c).map fun (s, stop) => (.scalar s, stop)
  if lineIsDone stop then return (node, ← skipLines fuel stop) else none

/-- A node that begins on this line. -/
def lineNode (fuel : Nat) (indent : Int) (c : Cursor) : Option (Node × Cursor) :=
  match c.rest with
  | '|' :: _ | '>' :: _ => do
    let (s, stop) ← blockScalar? indent c
    return (.scalar s, ← skipLines fuel stop)
  | _ => inlineNode fuel indent c

def startsItem (c : Cursor) : Bool := c.rest.head? = some '-' && endsWord (c.rest.drop 1)

mutual

/-- The node whose lines are indented by more than `indent`; the cursor is at content. -/
def blockNode (indent : Int) : Nat → Cursor → Option (Node × Cursor)
  | 0, _ => none
  | fuel + 1, c =>
    if atEnd c || c.column ≤ indent then some (.empty, c)
    else if startsItem c then do
      let (items, stop) ← blockItems c.column fuel c
      return (.list items, stop)
    else if (key? fuel c).isSome then do
      let (entries, stop) ← blockEntries c.column fuel c
      return (.map entries, stop)
    else
      match properties? c with
      | some (p, stop) => (bareNode indent fuel stop).map fun (node, stop) => (.marked p node, stop)
      | none => lineNode fuel indent c

/-- A node without properties that begins on this line, or is on the lines after it. A list may
stand under its key at the same column. -/
def bareNode (indent : Int) : Nat → Cursor → Option (Node × Cursor)
  | 0, _ => none
  | fuel + 1, c =>
    if lineIsDone c then do
      let next ← skipLines fuel c
      if !atEnd next && next.column = indent && startsItem next then
        let (items, stop) ← blockItems next.column fuel next
        return (.list items, stop)
      else blockNode indent fuel next
    else lineNode fuel indent (skipBlanks c)

/-- The node after a colon, or after the marker of a document. -/
def valueNode (indent : Int) : Nat → Cursor → Option (Node × Cursor)
  | 0, _ => none
  | fuel + 1, c =>
    match if lineIsDone c then none else properties? (skipBlanks c) with
    | some (p, stop) => (bareNode indent fuel stop).map fun (node, stop) => (.marked p node, stop)
    | none => bareNode indent fuel c

/-- The items of a list at this column. -/
def blockItems (column : Nat) : Nat → Cursor → Option (List Node × Cursor)
  | 0, _ => none
  | fuel + 1, c => do
    let after := c.advance 1
    let (item, stop) ←
      if lineIsDone after then do
        blockNode column fuel (← skipLines fuel after)
      else blockNode column fuel (skipBlanks after)
    if atEnd stop || stop.column < column then return ([item], stop)
    else if stop.column = column then
      if startsItem stop then
        let (items, stop) ← blockItems column fuel stop
        return (item :: items, stop)
      else return ([item], stop)
    else none

/-- The entries of a map at this column. -/
def blockEntries (column : Nat) : Nat → Cursor → Option (List (Scalar × Node) × Cursor)
  | 0, _ => none
  | fuel + 1, c => do
    let (key, after) ← key? fuel c
    let (value, stop) ← valueNode column fuel after
    if atEnd stop || stop.column < column then return ([(key, value)], stop)
    else if stop.column = column then
      let (entries, stop) ← blockEntries column fuel stop
      return ((key, value) :: entries, stop)
    else none

end

/-! ### Documents -/

/-- Only a marker that ends the document and lines without content. -/
def nothingLeft (fuel : Nat) (c : Cursor) : Bool :=
  c.rest.isEmpty
    || (c.rest.take 3 == ['.', '.', '.'] && lineIsDone (c.advance 3)
      && (skipLines fuel (c.advance 3)).any (·.rest.isEmpty))

/-- The only node in a text. -/
def document? (fuel : Nat) : Option (Node × Cursor) → Option Node
  | some (node, stop) => if nothingLeft fuel stop then some node else none
  | none => none

/-- Lines that say which version of YAML this is. -/
def skipVersion (fuel : Nat) (c : Cursor) : Option Cursor :=
  let word := c.rest.takeWhile fun d => !isBlank d && d != '\n'
  if c.column = 0 && word = "%YAML".toList then do
    let after := skipBlanks (c.advance word.length)
    let version := after.rest.takeWhile fun d => d.isDigit || d == '.'
    if ["1.1", "1.2"].contains (String.ofList version) then
      let next ← skipLines fuel (after.advance version.length)
      if next.rest.take 3 = ['-', '-', '-'] then some next else none
    else none
  else some c

/-- Line breaks of all kinds are line feeds. -/
def lineFeeds : List Char → List Char
  | '\r' :: '\n' :: rest => '\n' :: lineFeeds rest
  | '\r' :: rest => '\n' :: lineFeeds rest
  | c :: rest => c :: lineFeeds rest
  | [] => []

def dropMark : List Char → List Char
  | '\ufeff' :: rest => rest
  | cs => cs

/-- The content of a text; the inner value is missing if there is no document. -/
def parse? (s : String) : Option (Option Node) := do
  let cs := lineFeeds (dropMark s.toList)
  let fuel := 4 * cs.length + 16
  let c ← skipVersion fuel (← skipLines fuel ⟨0, cs⟩)
  if c.rest = [] then return none
  else if atMarker c then
    if c.rest.head? = some '.' then return none
    return some (← document? fuel (valueNode (-1) fuel (c.advance 3)))
  else return some (← document? fuel (blockNode (-1) fuel c))

end ForcingData.Yaml
