import CodeProse.Yaml.Graph
import CodeProse.Yaml.Token

/-!
# Reading nodes

The graph of nodes that the tokens of a text describe. An alias stands for the node with its
anchor, also inside that node. A text holds at most one document. No token is looked at before
it is needed, because a fault further on does not matter if the reading ends before it.
-/

set_option autoImplicit false

namespace CodeProse.Yaml

/-- How deep nodes may be nested. -/
def deepestNode : Nat := 486

/-- The tokens to come, with the tag handles and the anchors of the document and the nodes read
so far. -/
structure Source where
  rest : TokenSequence
  handles : List (Text × Text) := []
  anchors : List (Text × Nat) := []
  graph : Graph := {}
deriving DecidableEq

abbrev Reading :=
  StateT Source (Except Fault)

namespace Reading

/-- The next token; none at the end of the text. -/
def peek : Reading (Option Token) := do
  match (← get).rest with
  | ⟨[], some fault⟩ => throw fault
  | ⟨tokens, _⟩ => return tokens.head?

def next : Reading Unit :=
  modify fun source => { source with rest.tokens := source.rest.tokens.drop 1 }

def isNextOf (tokens : List Token) : Reading Bool := do
  return (← peek).any tokens.contains

def pass (token : Token) : Reading Bool := do
  if ← isNextOf [token] then
    next
    return true
  else return false

/-- Goes on behind the next token, which has to be a given one. -/
def expect (token : Token) : Reading Unit := do
  if !(← pass token) then throw .malformed

def addNode (node : Node) : Reading Nat :=
  modifyGet fun source => (source.graph.size, { source with graph := source.graph.add node })

def bind (anchor : Option Text) (number : Nat) : Reading Unit :=
  modify fun source =>
    { source with anchors := anchor.toList.map (fun name => (name, number)) ++ source.anchors }

def addAnchored (anchor : Option Text) (node : Node) : Reading Nat := do
  let number ← addNode node
  bind anchor number
  return number

def setNode (number : Nat) (node : Node) : Reading Unit :=
  modify fun source => { source with graph := source.graph.set number node }

def anchored (name : Text) : Reading Nat := do
  match (← get).anchors.lookup name with
  | some number => return number
  | none => throw .malformed

/-- Refuses an anchor that another node of the document has. -/
def refuseKnown (anchor : Option Text) : Reading Unit := do
  if anchor.any ((← get).anchors.map Prod.fst).contains then throw .malformed

def fullTag (written : WrittenTag) : Reading Text := do
  match written.handle with
  | none => return written.suffix
  | some handle =>
      match (← get).handles.lookup handle with
      | some target => return target ++ written.suffix
      | none => throw .malformed

end Reading

/-- What may stand in front of a node. -/
structure Properties where
  anchor : Option Text := none
  tag : Option Text := none
deriving DecidableEq

/-- The tag that leaves the kind of a node to its text. -/
def plainMark : Text := [.scalar '!']

namespace Properties

/-- Whether no tag names the kind of the node. -/
def isImplicit (given : Properties) : Bool :=
  given.tag.all (· == plainMark)

def collectionTag (given : Properties) (name : Text) : Text :=
  if given.isImplicit then typeTag name else given.tag.getD []

def scalar (given : Properties) (text : Text) (isPlain : Bool) : Node :=
  match given.tag with
  | none => .scalar (if isPlain then plainTag text else typeTag "str") text
  | some tag => .scalar (if tag = plainMark then plainTag text else tag) text

end Properties

open Reading

/-- The anchor and the tag in front of a node, in either order. -/
def properties : Reading Properties := do
  match ← peek with
  | some (.anchor name) =>
      next
      match ← peek with
      | some (.tag written) =>
          next
          return ⟨some name, some (← fullTag written)⟩
      | _ => return ⟨some name, none⟩
  | some (.tag written) =>
      next
      match ← peek with
      | some (.anchor name) =>
          next
          return ⟨some name, some (← fullTag written)⟩
      | _ => return ⟨none, some (← fullTag written)⟩
  | _ => return {}

/-- The sort of sequence that a loop reads. -/
inductive SequenceForm where
  | block
  | indentless
  | flow
deriving DecidableEq

/-- The tokens in front of which an item of a block sequence is empty. -/
def SequenceForm.stops : SequenceForm → List Token
  | block => [.blockEntry, .blockEnd]
  | indentless => [.blockEntry, .key, .value, .blockEnd]
  | flow => [.flowEntry, .flowSequenceEnd]

/-- The tokens in front of which a key or a value is empty. -/
def entryStops (inBlock : Bool) : List Token :=
  if inBlock then [.key, .value, .blockEnd] else [.flowEntry, .flowMappingEnd]

/-- Goes on to an entry inside brackets, or to their end. Every entry but the first stands
behind a comma. The result tells whether the brackets have ended. -/
def closes (isFirst : Bool) (stop : Token) : Reading Bool := do
  if ← pass stop then return true
  if isFirst then return false
  expect .flowEntry
  pass stop

mutual

/-- The number of the node at the front of the tokens, `depth` levels of which may be nested.
Blocks are read where `inBlock` holds, and sequences that are not indented where `indentless`
holds. The first argument bounds the number of steps. -/
def readNode : Nat → Nat → Bool → Bool → Reading Nat
  | 0, _, _, _ => throw .malformed
  | _, 0, _, _ => throw .tooDeep
  | limit + 1, depth + 1, inBlock, indentless => do
      if let some (.alias name) ← peek then
        next
        return ← anchored name
      let given ← properties
      let scalar (node : Node) : Reading Nat := do
        refuseKnown given.anchor
        addAnchored given.anchor node
      let sequence (form : SequenceForm) : Reading Nat := do
        refuseKnown given.anchor
        let tag := given.collectionTag "seq"
        let number ← addAnchored given.anchor (.sequence tag [])
        setNode number (.sequence tag (← readItems limit depth form true))
        return number
      let mapping (inBlock : Bool) : Reading Nat := do
        refuseKnown given.anchor
        let tag := given.collectionTag "map"
        let number ← addAnchored given.anchor (.mapping tag [])
        setNode number (.mapping tag (← readEntries limit depth inBlock true))
        return number
      match ← peek, inBlock, indentless with
      | some .blockEntry, _, true => sequence .indentless
      | some (.scalar text isPlain), _, _ =>
          next
          scalar (given.scalar text isPlain)
      | some .flowSequenceStart, _, _ =>
          next
          sequence .flow
      | some .flowMappingStart, _, _ =>
          next
          mapping false
      | some .blockSequenceStart, true, _ =>
          next
          sequence .block
      | some .blockMappingStart, true, _ =>
          next
          mapping true
      | _, _, _ =>
          if given.anchor.isNone && given.tag.isNone then throw .malformed
          scalar (given.scalar [] true)

/-- The node at the front of the tokens, or the empty one in front of some tokens. -/
def readNodeUnless : Nat → Nat → List Token → Bool → Bool → Reading Nat
  | 0, _, _, _, _ => throw .malformed
  | limit + 1, depth, stops, inBlock, indentless => do
      if ← isNextOf stops then addNode .nothing
      else readNode limit depth inBlock indentless

/-- A key with its value, read behind the announcement of the key. The value is announced by
the next token, or empty. -/
def readPair : Nat → Nat → Bool → List Token → Reading (Nat × Nat)
  | 0, _, _, _ => throw .malformed
  | limit + 1, depth, inBlock, stops => do
      let key ← readNodeUnless limit depth (.value :: stops) inBlock inBlock
      let value ←
        if ← pass .value then readNodeUnless limit depth stops inBlock inBlock
        else addNode .nothing
      return (key, value)

/-- The items of a sequence, up to its end. A pair in the place of an item is a mapping of its
own. -/
def readItems : Nat → Nat → SequenceForm → Bool → Reading (List Nat)
  | 0, _, _, _ => throw .malformed
  | limit + 1, depth, form, isFirst => do
      if form = .flow then
        if ← closes isFirst .flowSequenceEnd then return []
        let item ←
          if ← pass .key then
            match depth with
            | 0 => throw .tooDeep
            | depth + 1 =>
                let number ← addNode (.mapping (typeTag "map") [])
                let pair ← readPair limit depth false form.stops
                setNode number (.mapping (typeTag "map") [pair])
                pure number
          else readNode limit depth false false
        return item :: (← readItems limit depth form false)
      else if ← pass .blockEntry then
        let item ← readNodeUnless limit depth form.stops true false
        return item :: (← readItems limit depth form false)
      else
        if form = .block then expect .blockEnd
        return []

def readEntries : Nat → Nat → Bool → Bool → Reading (List (Nat × Nat))
  | 0, _, _, _ => throw .malformed
  | limit + 1, depth, true, _ => do
      if ← pass .key then
        let pair ← readPair limit depth true (entryStops true)
        return pair :: (← readEntries limit depth true false)
      else
        expect .blockEnd
        return []
  | limit + 1, depth, false, isFirst => do
      if ← closes isFirst .flowMappingEnd then return []
      let pair ←
        if ← pass .key then readPair limit depth false (entryStops false)
        else pure (← readNode limit depth false false, ← addNode .nothing)
      return pair :: (← readEntries limit depth false false)

end

def usualHandles : List (Text × Text) :=
  [(['!'], ['!']), (['!', '!'], tagBase)]

/-- Reads the directives in front of a document; the result is the tag handles that they set. A
version may be given once, and has to be the first. -/
def directives : Nat → Bool → List (Text × Text) → Reading (List (Text × Text))
  | 0, _, handles => return handles
  | limit + 1, hasVersion, handles => do
      match ← peek with
      | some (.version major) =>
          next
          if hasVersion || major ≠ 1 then throw .malformed
          directives limit true handles
      | some (.handle name target) =>
          next
          if (handles.lookup name).isSome then throw .malformed
          directives limit hasVersion ((name, target) :: handles)
      | some .directive =>
          next
          directives limit hasVersion handles
      | _ => return handles

def opensDocument : Token → Bool
  | .version _ | .handle _ _ | .directive | .documentStart => true
  | _ => false

/-- Reads the directives and the mark in front of a document. -/
def readOpening (limit : Nat) : Reading Unit := do
  let handles ← directives limit false []
  expect .documentStart
  modify fun source => { source with handles := handles ++ usualHandles }

/-- Reads what stands behind the mark of a document, which may be nothing. -/
def readContent (limit : Nat) : Reading Nat := do
  if (← peek).all fun token => opensDocument token || token = .documentEnd then
    addNode .nothing
  else readNode limit deepestNode true false

def passEnds : Nat → Reading Unit
  | 0 => return
  | limit + 1 => do if ← pass .documentEnd then passEnds limit

def readEnd (limit : Nat) : Reading Unit := do
  passEnds limit
  if (← peek).isSome then
    readOpening limit
    throw .malformed

/-- Reads the only document of a text: the number of its node, or nothing for a text without
any. -/
def readDocument (limit : Nat) : Reading (Option Nat) := do
  match ← peek with
  | none => return none
  | some token =>
      let number ←
        if opensDocument token then do
          readOpening limit
          readContent limit
        else do
          modify fun source => { source with handles := usualHandles }
          readNode limit deepestNode true false
      readEnd limit
      return some number

def graphOf (text : Text) : Except Fault (Option Nat × Graph) := do
  let rest := tokens text
  let (number, source) ← (readDocument (4 * rest.tokens.length + 4)).run { rest }
  return (number, source.graph)

end CodeProse.Yaml
