import CodeProse.Yaml.Resolution

/-!
# Graphs of nodes

The nodes of a YAML document: scalars, sequences and mappings, each with its tag. A collection
holds the numbers of its nodes, because an alias makes one node part of several others, or of
itself.
-/

set_option autoImplicit false

namespace CodeProse.Yaml

inductive Node where
  | scalar (tag text : Text)
  | sequence (tag : Text) (items : List Nat)
  | mapping (tag : Text) (entries : List (Nat × Nat))
deriving DecidableEq

namespace Node

def tag : Node → Text
  | scalar tag _ => tag
  | sequence tag _ => tag
  | mapping tag _ => tag

def withTag (tag : Text) : Node → Node
  | scalar _ text => scalar tag text
  | sequence _ items => sequence tag items
  | mapping _ entries => mapping tag entries

/-- The node where nothing is written. -/
def nothing : Node :=
  scalar (plainTag []) []

def isMapping : Node → Bool
  | mapping _ _ => true
  | _ => false

end Node

/-- The nodes of a document, each at its number. -/
structure Graph where
  nodes : Array Node := #[]
deriving DecidableEq

namespace Graph

def size (graph : Graph) : Nat :=
  graph.nodes.size

def node (graph : Graph) (number : Nat) : Node :=
  graph.nodes[number]?.getD .nothing

def tag (graph : Graph) (number : Nat) : Text :=
  (graph.node number).tag

def set (graph : Graph) (number : Nat) (node : Node) : Graph :=
  { nodes := graph.nodes.setIfInBounds number node }

/-- Adds a node; its number is the number of nodes before. -/
def add (graph : Graph) (node : Node) : Graph :=
  { nodes := graph.nodes.push node }

/-- The entries of a mapping; other nodes have none. -/
def entries (graph : Graph) (number : Nat) : List (Nat × Nat) :=
  match graph.node number with
  | .mapping _ entries => entries
  | _ => []

def setEntries (graph : Graph) (number : Nat) (entries : List (Nat × Nat)) : Graph :=
  graph.set number (.mapping (graph.tag number) entries)

/-- The text that a node stands for as a scalar: its own, or that of the first entry of a
mapping that is marked as its value. The first argument bounds the way to it. -/
def text (graph : Graph) : Nat → Nat → Except Fault Text
  | 0, _ => .error .tooDeep
  | depth + 1, number =>
      match graph.node number with
      | .scalar _ text => .ok text
      | .sequence _ _ => .error .malformed
      | .mapping _ entries =>
          match entries.find? fun entry => graph.tag entry.1 = typeTag "value" with
          | some entry => graph.text depth entry.2
          | none => .error .malformed

end Graph

end CodeProse.Yaml
