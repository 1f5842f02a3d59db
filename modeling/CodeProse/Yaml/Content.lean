import CodeProse.Yaml.Merge
import CodeProse.Yaml.Node
import CodeProse.Yaml.Value

/-!
# Contents of nodes

What the nodes of a document stand for, and in which order that is found out. A scalar is read
where it is first met. A collection is empty at first; it waits until those met before it are
filled, so that a fault in a nearer node comes before one further in. The value of a text is
seen to a given depth, because a collection may hold itself.
-/

set_option autoImplicit false

namespace CodeProse.Yaml

/-- How many mappings may lie on the way to the text of a scalar. -/
def deepestText : Nat := 980

/-- What a node stands for. The values of a collection are given by their nodes. -/
inductive Content where
  | scalar (value : Value)
  | list (items : List Nat)
  | pairs (items : List (Nat × Nat))
  | set
  | mapping (entries : List (Text × Nat))

namespace Content

/-- The content under the tag of a collection before it is filled. -/
def empty? (tag : Text) : Option Content :=
  if tag = typeTag "seq" then some (list [])
  else if tag = typeTag "map" then some (mapping [])
  else if tag = typeTag "set" then some set
  else if tag = typeTag "omap" || tag = typeTag "pairs" then some (pairs [])
  else none

def isKey : Content → Bool
  | scalar _ => true
  | _ => false

/-- The name that a key is; only texts are names. -/
def name? : Content → Option Text
  | scalar (.text name) => some name
  | _ => none

end Content

/-- The contents found so far, and the collections that wait to be filled. -/
structure Discovery where
  graph : Graph
  contents : Array (Option Content)
  waiting : List Nat := []

/-- A step of finding out contents. -/
abbrev Discovering :=
  StateT Discovery (Except Fault)

namespace Discovery

def content? (found : Discovery) (number : Nat) : Option Content :=
  found.contents[number]?.join

/-- The value of a node, seen so many levels deep. Collections further down are empty. -/
def value (found : Discovery) : Nat → Nat → Value
  | 0, number =>
      match found.content? number with
      | some (.scalar value) => value
      | some (.list _) | some (.pairs _) => .list []
      | some .set => .set
      | some (.mapping _) => .mapping []
      | none => .null
  | depth + 1, number =>
      match found.content? number with
      | some (.scalar value) => value
      | some (.list items) => .list (items.map (found.value depth))
      | some (.pairs items) =>
          .list (items.map fun (key, item) =>
            .list [found.value depth key, found.value depth item])
      | some .set => .set
      | some (.mapping entries) =>
          .mapping (entries.map fun (name, item) => (name, found.value depth item))
      | none => .null

end Discovery

namespace Discovering

def node (number : Nat) : Discovering Node := do
  return (← get).graph.node number

def setContent (number : Nat) (content : Content) : Discovering Unit :=
  modify fun found =>
    { found with contents := found.contents.setIfInBounds number (some content) }

/-- The value of a node under a tag that names no collection. A point in time has to be written
as a scalar; all else may be the value of a mapping. -/
def scalar (node : Node) (number : Nat) : Discovering Value := do
  match scalarReader? node.tag with
  | none => throw .malformed
  | some reader =>
      let text ← (← get).graph.text deepestText number
      if node.isMapping && node.tag = typeTag "timestamp" then throw .timeOfMapping
      reader text

/-- The content of a node that is met, which may be for the first time. -/
def meet (number : Nat) : Discovering Content := do
  if let some content := (← get).content? number then return content
  let node ← node number
  match Content.empty? node.tag with
  | some content =>
      setContent number content
      modify fun found => { found with waiting := found.waiting ++ [number] }
      return content
  | none =>
      let content := .scalar (← scalar node number)
      setContent number content
      return content

/-- The names and values of the entries of a mapping; other keys have no name. -/
def namedEntries (number : Nat) : Discovering (List (Text × Nat)) := do
  if !(← node number).isMapping then throw .malformed
  let graph ← Graph.flatten Graph.deepestMerge number (← get).graph
  modify fun found => { found with graph }
  let entries ← (graph.entries number).mapM fun (key, item) => do
    let content ← meet key
    if !content.isKey then throw .malformed
    let _ ← meet item
    return content.name?.map fun name => (name, item)
  return entries.filterMap id

def onlyEntry (number : Nat) : Discovering (Nat × Nat) := do
  match ← node number with
  | .mapping _ [(key, item)] =>
      let _ ← meet key
      let _ ← meet item
      return (key, item)
  | _ => throw .malformed

def fill (number : Nat) : Discovering Unit := do
  match (← get).content? number, ← node number with
  | some (.list _), .sequence _ items =>
      for item in items do
        let _ ← meet item
      setContent number (.list items)
  | some (.pairs _), .sequence _ items => setContent number (.pairs (← items.mapM onlyEntry))
  | some (.mapping _), _ => setContent number (.mapping (← namedEntries number))
  | some .set, _ =>
      let _ ← namedEntries number
  | _, _ => throw .malformed

/-- Fills the collections that wait, and those met on the way. Each node waits once at most. -/
def fillAll : Nat → Discovering Unit
  | 0 => return
  | limit + 1 => do
      match (← get).waiting with
      | [] => return
      | number :: waiting =>
          modify fun found => { found with waiting }
          fill number
          fillAll limit

end Discovering

/-- The value of a text, seen so many levels deep: that of its only document, and null for a
text without any. -/
def read (depth : Nat) (text : Text) : Except Fault Value := do
  match ← graphOf text with
  | (none, _) => return .null
  | (some number, graph) =>
      let start : Discovery := { graph, contents := Array.replicate graph.size none }
      let (_, found) ← (do
        let _ ← Discovering.meet number
        Discovering.fillAll (graph.size + 1)).run start
      return found.value depth number

end CodeProse.Yaml
