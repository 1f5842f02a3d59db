import CodeProse.Json.Reader
import CodeProse.Yaml.Cursor

/-!
# Scalars in a YAML text

The four ways to write a text: plain, between single or double quotes, or as an indented
block. Lines of one scalar are folded: a single line end becomes a space, and of several the
first is dropped; a literal block keeps them all.
-/

set_option autoImplicit false

namespace CodeProse.Yaml

/-- The text of a folded line end with the line ends that follow it. -/
def foldBreaks (first further : Text) : Text :=
  if first ≠ [.scalar '\n'] then first ++ further
  else if further.isEmpty then [' ']
  else further

/-! ## Plain scalars -/

/-- The characters that end a plain scalar inside brackets. -/
def flowMarks : Text := ",?[]\x7b\x7d"

/-- The characters behind which a colon ends a plain scalar inside brackets. -/
def flowClosers : Text := ",[]\x7b\x7d"

/-- How many characters stand in front of the end of a plain word. -/
def plainLength (inFlow : Bool) : Text → Nat
  | [] => 0
  | char :: rest =>
      let next := rest.headD nul
      let isColon := char == ':' && (isEndOrBlank next || (inFlow && flowClosers.elem next))
      if isEndOrBlank char || isColon || (inFlow && flowMarks.elem char) then 0
      else 1 + plainLength inFlow rest

/-- The line ends between the lines of a plain scalar; nothing when a document starts or ends
there. -/
def plainBreaks : Nat → Cursor → Option Text × Cursor
  | 0, cursor => (some [], cursor)
  | limit + 1, cursor =>
      if cursor.char == ' ' then plainBreaks limit cursor.step
      else if isBreak cursor.char then
        let (first, cursor) := cursor.lineBreak
        if cursor.atDocumentMark then (none, cursor)
        else
          let (further, cursor) := plainBreaks limit cursor
          (further.map (first ++ ·), cursor)
      else (some [], cursor)

/-- What stands between two words of a plain scalar, the cursor behind it, and whether a line
ended. An empty text ends the scalar. -/
def plainSpaces (cursor : Cursor) : Text × Cursor × Bool :=
  let (spaces, cursor) := cursor.takeWhile (· == .scalar ' ')
  if isBreak cursor.char then
    let (first, cursor) := cursor.lineBreak
    if cursor.atDocumentMark then ([], cursor, true)
    else
      match plainBreaks (cursor.rest.length + 1) cursor with
      | (some further, cursor) => (foldBreaks first further, cursor, true)
      | (none, cursor) => ([], cursor, true)
  else (spaces, cursor, false)

/-- A plain scalar, the cursor behind it and the spaces that follow, and whether a line ended
there. Its lines are indented to a column at least. `spaces` stands between the words read and
those to come. -/
def plainFrom (inFlow : Bool) (indent : Int) : Nat → Text → Bool → Cursor → Text × Cursor × Bool
  | 0, _, broken, cursor => ([], cursor, broken)
  | limit + 1, spaces, broken, cursor =>
      if cursor.char == '#' then ([], cursor, broken)
      else
        let length := plainLength inFlow cursor.rest
        if length = 0 then ([], cursor, broken)
        else
          let word := cursor.rest.take length
          let (between, cursor, broken) := plainSpaces (cursor.forward length)
          if between.isEmpty || cursor.char == '#' || (!inFlow && cursor.column < indent) then
            (spaces ++ word, cursor, broken)
          else
            let (more, cursor, broken) := plainFrom inFlow indent limit between broken cursor
            (spaces ++ word ++ more, cursor, broken)

def plainScalar (inFlow : Bool) (indent : Int) (cursor : Cursor) : Text × Cursor × Bool :=
  plainFrom inFlow indent (cursor.rest.length + 1) [] false cursor

/-! ## Quoted scalars -/

/-- The characters that an escape of one letter stands for, by their codes. -/
def escapes : List (CodePoint × Nat) :=
  [('0', 0), ('a', 7), ('b', 8), ('t', 9), ('\t', 9), ('n', 10), ('v', 11), ('f', 12),
    ('r', 13), ('e', 27), (' ', 32), ('"', 34), ('\\', 92), ('/', 47), ('N', 0x85), ('_', 0xA0),
    ('L', 0x2028), ('P', 0x2029)]

def escapeWidth? : CodePoint → Option Nat
  | 'x' => some 2
  | 'u' => some 4
  | 'U' => some 8
  | _ => none

def hexNumber? (digits : Text) : Option Nat :=
  digits.foldlM (fun value char => (Json.hexValue? char).map fun digit => value * 16 + digit) 0

/-- The code point with a number. The halves of a surrogate pair are not put together. -/
def charOfCode (code : Nat) : Except Fault CodePoint :=
  if 0x10FFFF < code then .error (.characterOutOfRange code) else .ok (.ofNat code)

/-- The line ends between the lines of a quoted scalar. No document may start or end there. -/
def quotedBreaks : Nat → Cursor → Except Fault (Text × Cursor)
  | 0, _ => .error .malformed
  | limit + 1, cursor =>
      if cursor.atDocumentMark then .error .malformed
      else
        let cursor := cursor.skipWhile fun char => char == .scalar ' ' || char == '\t'
        if isBreak cursor.char then do
          let (first, cursor) := cursor.lineBreak
          let (further, cursor) ← quotedBreaks limit cursor
          return (first ++ further, cursor)
        else .ok ([], cursor)

def quotedSpaces (cursor : Cursor) : Except Fault (Text × Cursor) :=
  let (spaces, cursor) := cursor.takeWhile fun char => char == .scalar ' ' || char == '\t'
  if cursor.isDone then .error .malformed
  else if isBreak cursor.char then do
    let (first, cursor) := cursor.lineBreak
    let (further, cursor) ← quotedBreaks (cursor.rest.length + 1) cursor
    return (foldBreaks first further, cursor)
  else .ok (spaces, cursor)

def escape (cursor : Cursor) : Except Fault (Text × Cursor) :=
  match escapes.lookup cursor.char, escapeWidth? cursor.char with
  | some code, _ => .ok ([CodePoint.ofNat code], cursor.step)
  | none, some width => do
      let cursor := cursor.step
      let digits := cursor.rest.take width
      if digits.length < width then throw .malformed
      let code ← orMalformed (hexNumber? digits)
      return ([← charOfCode code], cursor.forward width)
  | none, none =>
      if isBreak cursor.char then
        let cursor := cursor.lineBreak.2
        quotedBreaks (cursor.rest.length + 1) cursor
      else .error .malformed

/-- The rest of a quoted scalar, behind its opening quote. -/
def quotedFrom (quote : CodePoint) : Nat → Cursor → Except Fault (Text × Cursor)
  | 0, _ => .error .malformed
  | limit + 1, cursor =>
      let isDouble := quote == '"'
      let char := cursor.char
      let continued (piece : Except Fault (Text × Cursor)) : Except Fault (Text × Cursor) := do
        let (text, cursor) ← piece
        let (more, cursor) ← quotedFrom quote limit cursor
        return (text ++ more, cursor)
      if !isDouble && char == quote && cursor.peek 1 == quote then
        continued (.ok ([quote], cursor.forward 2))
      else if char == quote then .ok ([], cursor.step)
      else if isDouble && char == '\\' then continued (escape cursor.step)
      else if isEndOrBlank char then continued (quotedSpaces cursor)
      else continued (.ok ([char], cursor.step))

def quotedScalar (cursor : Cursor) : Except Fault (Text × Cursor) :=
  quotedFrom cursor.char (cursor.rest.length + 1) cursor.step

/-! ## Block scalars -/

/-- What happens to the line ends behind a block: all go, one stays, or all stay. -/
inductive Chomping where
  | strip
  | clip
  | keep
deriving DecidableEq

/-- The mark of a chomping. -/
def chomping? : CodePoint → Option Chomping
  | '+' => some .keep
  | '-' => some .strip
  | _ => none

/-- The indentation that a digit announces; zero is refused. -/
def increment? (char : CodePoint) : Option Nat :=
  if char.isDigit && char != '0' then some (char.toNat - 48) else none

/-- The marks behind the sign of a block, in either order. -/
def blockMarks (cursor : Cursor) : Except Fault (Chomping × Option Nat × Cursor) :=
  let finish (chomping : Chomping) (increment : Option Nat) (cursor : Cursor) :
      Except Fault (Chomping × Option Nat × Cursor) :=
    if isEndOrSpace cursor.char then .ok (chomping, increment, cursor) else .error .malformed
  match chomping? cursor.char with
  | some chomping =>
      let cursor := cursor.step
      match increment? cursor.char with
      | some increment => finish chomping (some increment) cursor.step
      | none => finish chomping none cursor
  | none =>
      match increment? cursor.char with
      | some increment =>
          let cursor := cursor.step
          match chomping? cursor.char with
          | some chomping => finish chomping (some increment) cursor.step
          | none => finish .clip (some increment) cursor
      | none => finish .clip none cursor

/-- The empty lines in front of a block whose indentation is not announced, and the furthest
column that spaces reach in them or in the first line. -/
def blockIndentation : Nat → Nat → Cursor → Text × Nat × Cursor
  | 0, furthest, cursor => ([], furthest, cursor)
  | limit + 1, furthest, cursor =>
      if cursor.char == ' ' then
        let cursor := cursor.step
        blockIndentation limit (max furthest cursor.column) cursor
      else if isBreak cursor.char then
        let (first, cursor) := cursor.lineBreak
        let (further, furthest, cursor) := blockIndentation limit furthest cursor
        (first ++ further, furthest, cursor)
      else ([], furthest, cursor)

/-- The empty lines of a block, and the cursor at the next line's text. -/
def blockBreaks (indent : Nat) : Nat → Cursor → Text × Cursor
  | 0, cursor => ([], cursor)
  | limit + 1, cursor =>
      let cursor := cursor.skipSpacesTo indent
      if isBreak cursor.char then
        let (first, cursor) := cursor.lineBreak
        let (further, cursor) := blockBreaks indent limit cursor
        (first ++ further, cursor)
      else ([], cursor)

/-- What the line ends behind the last line of a block leave. -/
def chomp (chomping : Chomping) (last further : Text) : Text :=
  match chomping with
  | .strip => []
  | .clip => last
  | .keep => last ++ further

/-- The lines of a block from the cursor on. `breaks` are the empty lines in front. -/
def blockLines (isFolded : Bool) (indent : Nat) (chomping : Chomping) :
    Nat → Text → Cursor → Text × Cursor
  | 0, _, cursor => ([], cursor)
  | limit + 1, breaks, cursor =>
      let startsText := !(cursor.char == ' ' || cursor.char == '\t')
      let (line, cursor) := cursor.takeWhile fun char => !isEnd char
      let (last, cursor) := cursor.lineBreak
      let (further, cursor) := blockBreaks indent (cursor.rest.length + 1) cursor
      if cursor.column = indent && !cursor.isDone then
        let joins := isFolded && last = [.scalar '\n'] && startsText &&
          !(cursor.char == ' ' || cursor.char == '\t')
        let between := if !joins then last else if further.isEmpty then [' '] else []
        let (more, cursor) := blockLines isFolded indent chomping limit further cursor
        (breaks ++ line ++ between ++ more, cursor)
      else (breaks ++ line ++ chomp chomping last further, cursor)

/-- The block scalar at a cursor, inside lines that are indented by `outer`. -/
def blockScalar (outer : Int) (cursor : Cursor) : Except Fault (Text × Cursor) := do
  let isFolded := cursor.char == '>'
  let (chomping, increment?, cursor) ← blockMarks cursor.step
  let cursor ← orMalformed cursor.endLine?
  let least := (max 1 (outer + 1)).toNat
  let limit := cursor.rest.length + 1
  let (breaks, indent, cursor) :=
    match increment? with
    | none =>
        let (breaks, furthest, cursor) := blockIndentation limit 0 cursor
        (breaks, max least furthest, cursor)
    | some increment =>
        let indent := least + increment - 1
        let (breaks, cursor) := blockBreaks indent limit cursor
        (breaks, indent, cursor)
  if cursor.column = indent && !cursor.isDone then
    return blockLines isFolded indent chomping limit breaks cursor
  else return (if chomping = .keep then breaks else [], cursor)

end CodeProse.Yaml
