import ForcingData.Yaml.Node

/-! # Aliases

`Node.resolve?` puts the nodes that were given names in the places of their aliases. A name stands
for the last node before the alias that was given it; there must be one. -/

namespace ForcingData.Yaml

abbrev Named := List (String × Node)

mutual

/-- The node without aliases, and all names after it. -/
def Node.resolve? (named : Named) : Node → Option (Node × Named)
  | .scalar s => some (.scalar s, named)
  | .list items => (resolveAll? named items).map fun (items, named) => (.list items, named)
  | .map entries => (resolveEntries? named entries).map fun (es, named) => (.map es, named)
  | .alias name => (named.lookup name).map fun node => (node, named)
  | .marked p node => do
    let (node, named) ← node.resolve? named
    let node := Node.marked { p with anchor := none } node
    match p.anchor with
    | some name => return (node, (name, node) :: named)
    | none => return (node, named)

def resolveAll? (named : Named) : List Node → Option (List Node × Named)
  | [] => some ([], named)
  | node :: rest => do
    let (node, named) ← node.resolve? named
    let (rest, named) ← resolveAll? named rest
    return (node :: rest, named)

def resolveEntries? (named : Named) :
    List (Scalar × Node) → Option (List (Scalar × Node) × Named)
  | [] => some ([], named)
  | (key, node) :: rest => do
    let (node, named) ← node.resolve? named
    let (rest, named) ← resolveEntries? named rest
    return ((key, node) :: rest, named)

end

/-- The content of a text, without aliases; the inner value is missing if there is no document. -/
def content? (s : String) : Option (Option Node) := do
  match ← parse? s with
  | none => return none
  | some node => return some (← node.resolve? []).1

end ForcingData.Yaml
