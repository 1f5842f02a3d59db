import CodeProse.Yaml.Graph

/-!
# Merging mappings

An entry of a mapping whose key is marked for it merges other mappings in: the one that is its
value, or those of a list, the first of which wins. What is merged in stands in front of the
mapping's own entries, so that these win. A key that is marked as the value of its mapping is
afterwards a text.
-/

set_option autoImplicit false

namespace CodeProse.Yaml.Graph

/-- How deep mappings may be merged into each other. -/
def deepestMerge : Nat := 980

def isMerge (graph : Graph) (entry : Nat × Nat) : Bool :=
  graph.tag entry.1 = typeTag "merge"

/-- Takes the first merging entry out of a mapping: its value, and the graph without it. -/
def takeMerge? (graph : Graph) (number : Nat) : Option (Nat × Graph) :=
  match (graph.entries number).span fun entry => !graph.isMerge entry with
  | (_, []) => none
  | (front, entry :: rest) => some (entry.2, graph.setEntries number (front ++ rest))

/-- Makes texts of the keys of a mapping that are marked as its value. -/
def clearMarks (graph : Graph) (number : Nat) : Graph :=
  (graph.entries number).foldl
    (fun graph entry =>
      if graph.tag entry.1 = typeTag "value" then
        graph.set entry.1 ((graph.node entry.1).withTag (typeTag "str"))
      else graph)
    graph

/-- The entries that a node merges in, when `flattened` says how a mapping merges others. -/
def mergedEntries (flattened : Nat → Graph → Except Fault Graph) (graph : Graph)
    (number : Nat) : Except Fault (List (Nat × Nat) × Graph) :=
  match graph.node number with
  | .mapping _ _ => do
      let graph ← flattened number graph
      return (graph.entries number, graph)
  | .sequence _ items =>
      items.foldlM
        (fun (merged, graph) item => do
          if !(graph.node item).isMapping then throw .malformed
          let graph ← flattened item graph
          return (graph.entries item ++ merged, graph))
        ([], graph)
  | .scalar _ _ => .error .malformed

/-- Merges into a mapping what it asks for. The first argument bounds the depth. -/
def flatten : Nat → Nat → Graph → Except Fault Graph
  | 0, _, _ => .error .tooDeep
  | depth + 1, number, graph => do
      let count := (graph.entries number).countP graph.isMerge
      let (merged, graph) ← (List.range count).foldlM
        (fun (merged, graph) _ => do
          match graph.takeMerge? number with
          | none => return (merged, graph)
          | some (source, graph) =>
              let (entries, graph) ← mergedEntries (flatten depth) graph source
              return (merged ++ entries, graph))
        ([], graph)
      return (graph.setEntries number (merged ++ graph.entries number)).clearMarks number

end CodeProse.Yaml.Graph
