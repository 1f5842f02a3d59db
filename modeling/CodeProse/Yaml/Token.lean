import CodeProse.Text.Encoding
import CodeProse.Yaml.Scalar

/-!
# Tokens of a YAML text

The pieces of a YAML text, with the structure that indentation expresses made explicit: blocks
open and close, and every key of a mapping is announced. A key that is only recognised by the
colon behind it is announced in front of the place where it started; such a key stands on one
line and is not too long.
-/

set_option autoImplicit false

namespace CodeProse.Yaml

/-- A tag as it is written: a handle and what follows it, or the whole tag. -/
structure WrittenTag where
  handle : Option Text
  suffix : Text
deriving DecidableEq

/-- A piece of a YAML text. -/
inductive Token where
  | version (major : Nat)
  | handle (name target : Text)
  | directive
  | documentStart
  | documentEnd
  | blockSequenceStart
  | blockMappingStart
  | blockEnd
  | flowSequenceStart
  | flowSequenceEnd
  | flowMappingStart
  | flowMappingEnd
  | flowEntry
  | blockEntry
  | key
  | value
  | alias (name : Text)
  | anchor (name : Text)
  | tag (tag : WrittenTag)
  | scalar (text : Text) (isPlain : Bool)
deriving DecidableEq

/-- The tokens of a text up to its end, or up to the first fault in it. Whoever needs no token
behind a fault never meets it. -/
structure TokenSequence where
  tokens : List Token
  fault : Option Fault := none
deriving DecidableEq

/-! ## Tags and directives -/

def isTagChar (char : CodePoint) : Bool :=
  isNameChar char || (";/?:@&=+$,.!~*'()[]".toText).elem char

/-- The bytes that escapes of two hexadecimal digits stand for. -/
def tagEscapes : Nat → Cursor → Except Fault (List UInt8 × Cursor)
  | 0, _ => .error .malformed
  | limit + 1, cursor =>
      if cursor.char == '%' then do
        let digits := (cursor.rest.drop 1).take 2
        if digits.length < 2 then throw .malformed
        let byte ← orMalformed (hexNumber? digits)
        let (bytes, cursor) ← tagEscapes limit (cursor.forward 3)
        return (UInt8.ofNat byte :: bytes, cursor)
      else .ok ([], cursor)

def tagPieces : Nat → Cursor → Except Fault (Text × Cursor)
  | 0, _ => .error .malformed
  | limit + 1, cursor =>
      if cursor.char == '%' then do
        let (bytes, cursor) ← tagEscapes (cursor.rest.length + 1) cursor
        let text ← orMalformed (Text.ofUtf8 bytes).toOption
        let (more, cursor) ← tagPieces limit cursor
        return (text ++ more, cursor)
      else if isTagChar cursor.char then do
        let (more, next) ← tagPieces limit cursor.step
        return (cursor.char :: more, next)
      else .ok ([], cursor)

def tagText (cursor : Cursor) : Except Fault (Text × Cursor) := do
  let (text, after) ← tagPieces (cursor.rest.length + 1) cursor
  if after.index = cursor.index then throw .malformed
  return (text, after)

/-- A handle: one exclamation mark, or a name between two. -/
def tagHandle (cursor : Cursor) : Except Fault (Text × Cursor) :=
  if cursor.char != '!' then .error .malformed
  else if cursor.peek 1 == ' ' then .ok (['!'], cursor.step)
  else
    let (name, after) := cursor.step.takeWhile isNameChar
    if after.char == '!' then .ok (.scalar '!' :: name ++ "!".toText, after.step) else .error .malformed

def hasHandle (cursor : Cursor) : Bool :=
  ((cursor.rest.drop 1).takeWhile fun char => !isEndOrSpace char).elem (.scalar '!')

def tagToken (cursor : Cursor) : Except Fault (Token × Cursor) := do
  let (tag, after) ←
    if cursor.peek 1 == '<' then do
      let (suffix, after) ← tagText (cursor.forward 2)
      if after.char != '>' then throw .malformed
      pure (WrittenTag.mk none suffix, after.step)
    else if isEndOrBlank (cursor.peek 1) then pure (WrittenTag.mk none ['!'], cursor.step)
    else if hasHandle cursor then do
      let (handle, after) ← tagHandle cursor
      let (suffix, after) ← tagText after
      pure (WrittenTag.mk (some handle) suffix, after)
    else do
      let (suffix, after) ← tagText cursor.step
      pure (WrittenTag.mk (some ['!']) suffix, after)
  if isEndOrSpace after.char then return (.tag tag, after) else throw .malformed

/-- A number of a version, of `integerDigitLimit` digits at most. -/
def versionNumber (cursor : Cursor) : Except Fault (Nat × Cursor) :=
  match cursor.takeWhile CodePoint.isDigit with
  | ([], _) => .error .malformed
  | (digits, after) =>
      if integerDigitLimit < digits.length then .error .unreadableNumber
      else .ok (digitsValue (splitDigits digits).1, after)

def versionToken (cursor : Cursor) : Except Fault (Token × Cursor) := do
  let (major, after) ← versionNumber cursor.skipSpaces
  if after.char != '.' then throw .malformed
  let (_, after) ← versionNumber after.step
  if isEndOrSpace after.char then return (.version major, after) else throw .malformed

/-- A handle with the text that it stands for. -/
def handleToken (cursor : Cursor) : Except Fault (Token × Cursor) := do
  let (handle, after) ← tagHandle cursor.skipSpaces
  if after.char != ' ' then throw .malformed
  let (target, after) ← tagText after.skipSpaces
  if isEndOrSpace after.char then return (.handle handle target, after) else throw .malformed

def directiveToken (cursor : Cursor) : Except Fault (Token × Cursor) := do
  let (name, after) := cursor.step.takeWhile isNameChar
  if name.isEmpty || !isEndOrSpace after.char then throw .malformed
  let (token, after) ←
    if name = "YAML" then versionToken after
    else if name = "TAG" then handleToken after
    else pure (.directive, after.skipWhile fun char => !isEnd char)
  return (token, ← orMalformed after.endLine?)

/-- The name of an anchor or an alias, behind its mark. -/
def anchorName (cursor : Cursor) : Except Fault (Text × Cursor) :=
  let (name, after) := cursor.step.takeWhile isNameChar
  let ends := isEndOrBlank after.char || ("?:,]\x7d%@\x60".toText).elem after.char
  if name.isEmpty || !ends then .error .malformed else .ok (name, after)

/-! ## Layout -/

/-- A place where a key may have started. A required one has to turn out to be a key. -/
structure PossibleKey where
  level : Nat
  token : Nat
  index : Nat
  line : Nat
  column : Nat
  isRequired : Bool
deriving DecidableEq

/-- The tokens read so far and what decides about those to come: the depth of brackets, the
indentation of the open blocks, and where keys may start or may have started. -/
structure Layout where
  cursor : Cursor
  tokens : List Token := []
  depth : Nat := 0
  indent : Int := -1
  outer : List Int := []
  mayStartKey : Bool := true
  keys : List PossibleKey := []
deriving DecidableEq

/-- How far a key may reach. -/
def longestKey : Nat := 1024

namespace Layout

def inBlock (layout : Layout) : Bool :=
  layout.depth = 0

def push (layout : Layout) (token : Token) : Layout :=
  { layout with tokens := layout.tokens ++ [token] }

/-- Adds a token of so many characters at the cursor. -/
def pushAt (layout : Layout) (token : Token) (width : Nat) : Layout :=
  { layout.push token with cursor := layout.cursor.forward width }

/-- Sets whether a key may start next. -/
def allowKey (layout : Layout) (allowed : Bool) : Layout :=
  { layout with mayStartKey := allowed }

/-- The place where a key of the current brackets may have started. -/
def currentKey? (layout : Layout) : Option PossibleKey :=
  layout.keys.find? fun key => key.level = layout.depth

/-- Drops the place where a key of the current brackets may have started; it must not have
been required. -/
def dropKey (layout : Layout) : Except Fault Layout :=
  if layout.currentKey?.any PossibleKey.isRequired then .error .malformed
  else .ok { layout with keys := layout.keys.filter fun key => key.level ≠ layout.depth }

/-- Drops the places that are too far back for a key. -/
def dropFarKeys (layout : Layout) : Except Fault Layout :=
  let isFar (key : PossibleKey) : Bool :=
    key.line ≠ layout.cursor.line || longestKey < layout.cursor.index - key.index
  if layout.keys.any fun key => isFar key && key.isRequired then .error .malformed
  else .ok { layout with keys := layout.keys.filter fun key => !isFar key }

def saveKey (layout : Layout) : Except Fault Layout := do
  if !layout.mayStartKey then return layout
  let cursor := layout.cursor
  let key : PossibleKey :=
    { level := layout.depth, token := layout.tokens.length, index := cursor.index
      line := cursor.line, column := cursor.column
      isRequired := layout.inBlock && layout.indent = cursor.column }
  let layout ← layout.dropKey
  return { layout with keys := key :: layout.keys }

/-- Closes the blocks that are indented further than a column. -/
def closeBlocks (column : Int) : List Int → Layout → Layout
  | [], layout => layout
  | above :: outer, layout =>
      if layout.inBlock && column < layout.indent then
        closeBlocks column outer { layout.push .blockEnd with indent := above, outer }
      else layout

def unwind (layout : Layout) (column : Int) : Layout :=
  closeBlocks column layout.outer layout

/-- Opens a block at a column, if it is further in than the current one. -/
def openBlock? (layout : Layout) (column : Int) : Option Layout :=
  if layout.indent < column then
    some { layout with indent := column, outer := layout.indent :: layout.outer }
  else none

/-- Opens a block at the cursor, if it is further in than the current one. -/
def openBlock (layout : Layout) (start : Token) : Layout :=
  match layout.openBlock? layout.cursor.column with
  | some opened => opened.push start
  | none => layout

/-- Goes on to the next token: passes blanks, comments and line ends. Outside brackets, a key
may start on every new line. -/
def skipBlanks : Nat → Layout → Layout
  | 0, layout => layout
  | limit + 1, layout =>
      let cursor := layout.cursor.skipSpaces.skipComment
      if isBreak cursor.char then
        skipBlanks limit
          { layout with
            cursor := cursor.lineBreak.2, mayStartKey := layout.mayStartKey || layout.inBlock }
      else { layout with cursor }

/-- The tokens with some put in front of the one with a number. -/
def insertAt (tokens : List Token) (number : Nat) (inserted : List Token) : List Token :=
  tokens.take number ++ inserted ++ tokens.drop number

/-- Reads a mark that separates documents, or ends a block at the end of the text. -/
def endBlocks (layout : Layout) : Except Fault Layout := do
  let layout ← (layout.unwind (-1)).dropKey
  return layout.allowKey false

def openFlow (layout : Layout) (token : Token) : Except Fault Layout := do
  let layout ← layout.saveKey
  return { (layout.pushAt token 1).allowKey true with depth := layout.depth + 1 }

/-- Closes a bracket; one has to be open. -/
def closeFlow (layout : Layout) (token : Token) : Except Fault Layout := do
  if layout.inBlock then throw .malformed
  let layout ← layout.dropKey
  return { (layout.pushAt token 1).allowKey false with depth := layout.depth - 1 }

def blockEntry (layout : Layout) : Except Fault Layout := do
  if layout.inBlock && !layout.mayStartKey then throw .malformed
  let layout := if layout.inBlock then layout.openBlock .blockSequenceStart else layout
  let layout ← (layout.allowKey true).dropKey
  return layout.pushAt .blockEntry 1

/-- Starts a key with a question mark. -/
def markedKey (layout : Layout) : Except Fault Layout := do
  if layout.inBlock && !layout.mayStartKey then throw .malformed
  let layout := if layout.inBlock then layout.openBlock .blockMappingStart else layout
  let layout ← (layout.allowKey layout.inBlock).dropKey
  return layout.pushAt .key 1

/-- Announces the key that started at a place. -/
def announceKey (layout : Layout) (key : PossibleKey) : Layout :=
  let opened? := if layout.inBlock then layout.openBlock? key.column else none
  let inserted := if opened?.isSome then [.blockMappingStart, .key] else [.key]
  let layout := opened?.getD layout
  { layout with
    tokens := insertAt layout.tokens key.token inserted
    keys := layout.keys.filter fun other => other.level ≠ layout.depth
    mayStartKey := false }

def value (layout : Layout) : Except Fault Layout := do
  match layout.currentKey? with
  | some key => return (layout.announceKey key).pushAt .value 1
  | none =>
      if layout.inBlock && !layout.mayStartKey then throw .malformed
      let layout := if layout.inBlock then layout.openBlock .blockMappingStart else layout
      let layout ← (layout.allowKey layout.inBlock).dropKey
      return layout.pushAt .value 1

/-- Reads a token with which a key may start. -/
def startingKey (layout : Layout) (read : Cursor → Except Fault (Token × Cursor)) :
    Except Fault Layout := do
  let layout ← layout.saveKey
  let (token, cursor) ← read layout.cursor
  return { (layout.push token).allowKey false with cursor }

def block (layout : Layout) : Except Fault Layout := do
  let layout ← (layout.allowKey true).dropKey
  let (text, cursor) ← blockScalar layout.indent layout.cursor
  return { layout.push (.scalar text false) with cursor }

/-- Reads a plain scalar. Behind one that ends with its line, a key may start. -/
def plain (layout : Layout) : Except Fault Layout := do
  let layout ← layout.saveKey
  let (text, cursor, broken) :=
    plainScalar (!layout.inBlock) (layout.indent + 1) layout.cursor
  return { (layout.push (.scalar text true)).allowKey broken with cursor }

def startsPlain (layout : Layout) : Bool :=
  let char := layout.cursor.char
  let special := ("-?:,[]\x7b\x7d#&*!|>'\"%@\x60".toText).elem char
  (!isEndOrBlank char && !special) ||
    (!isEndOrBlank (layout.cursor.peek 1) &&
      (char == '-' || (layout.inBlock && (char == '?' || char == ':'))))

def readToken (layout : Layout) : Except Fault Layout :=
  let cursor := layout.cursor
  let char := cursor.char
  let atLineStart := cursor.column = 0
  let endsWord := isEndOrBlank (cursor.peek 1)
  if atLineStart && char == '%' then do
    let layout ← layout.endBlocks
    let (token, cursor) ← directiveToken layout.cursor
    return { layout.push token with cursor }
  else if atLineStart && cursor.hasMark '-' then do
    return (← layout.endBlocks).pushAt .documentStart 3
  else if atLineStart && cursor.hasMark '.' then do
    return (← layout.endBlocks).pushAt .documentEnd 3
  else if char == '[' then layout.openFlow .flowSequenceStart
  else if char == '\x7b' then layout.openFlow .flowMappingStart
  else if char == ']' then layout.closeFlow .flowSequenceEnd
  else if char == '\x7d' then layout.closeFlow .flowMappingEnd
  else if char == ',' then do
    return (← (layout.allowKey true).dropKey).pushAt .flowEntry 1
  else if char == '-' && endsWord then layout.blockEntry
  else if char == '?' && (!layout.inBlock || endsWord) then layout.markedKey
  else if char == ':' && (!layout.inBlock || endsWord) then layout.value
  else if char == '*' then
    layout.startingKey fun cursor => (anchorName cursor).map fun (name, after) =>
      (.alias name, after)
  else if char == '&' then
    layout.startingKey fun cursor => (anchorName cursor).map fun (name, after) =>
      (.anchor name, after)
  else if char == '!' then layout.startingKey tagToken
  else if layout.inBlock && (char == '|' || char == '>') then layout.block
  else if char == '\'' || char == '"' then
    layout.startingKey fun cursor => (quotedScalar cursor).map fun (text, after) =>
      (.scalar text false, after)
  else if layout.startsPlain then layout.plain
  else .error .malformed

/-- Goes on behind the next token; the flag tells whether the text is over. -/
def advance (layout : Layout) : Except Fault (Layout × Bool) := do
  let layout := layout.skipBlanks (layout.cursor.rest.length + 1)
  let layout ← layout.dropFarKeys
  let layout := layout.unwind layout.cursor.column
  if layout.cursor.isDone then return (← layout.endBlocks, true)
  else return (← (← layout.readToken).dropFarKeys, false)

/-- The tokens in front of which nothing can be put any more. -/
def settled (layout : Layout) : List Token :=
  layout.tokens.take
    (layout.keys.foldl (fun first key => min first key.token) layout.tokens.length)

/-- Reads token after token up to the end of the text or the first fault. -/
def readTokens : Nat → Layout → TokenSequence
  | 0, layout => ⟨layout.settled, some .malformed⟩
  | limit + 1, layout =>
      match layout.advance with
      | .error fault => ⟨layout.settled, some fault⟩
      | .ok (layout, true) => ⟨layout.tokens, none⟩
      | .ok (layout, false) => readTokens limit layout

end Layout

/-- The tokens of a text. A byte order mark in front is passed over. -/
def tokens (text : Text) : TokenSequence :=
  if !text.all isAllowed then ⟨[], some .malformed⟩
  else
    let start : Cursor := { rest := text }
    let start := if start.char == byteOrderMark then start.step else start
    Layout.readTokens (text.length + 1) { cursor := start }

end CodeProse.Yaml
