import CodeProse.Text.Basic

/-!
# Places in a YAML text

A cursor is the rest of a text with the place where it starts. Behind the last character a
cursor sees NUL, which no YAML text holds. Five characters end a line.
-/

set_option autoImplicit false

namespace CodeProse.Yaml

/-- The character behind the last one. -/
def nul : CodePoint := CodePoint.ofNat 0

/-- The mark that may stand in front of a text and takes no column. -/
def byteOrderMark : CodePoint := CodePoint.ofNat 0xFEFF

def isBreak (char : CodePoint) : Bool :=
  char == '\n' || char == '\r' || char.toNat == 0x85 || char.toNat == 0x2028 ||
    char.toNat == 0x2029

/-- Whether a line is over at a character. -/
def isEnd (char : CodePoint) : Bool :=
  char == nul || isBreak char

/-- Whether a line or a word is over at a character, where tabs do not count. -/
def isEndOrSpace (char : CodePoint) : Bool :=
  char == ' ' || isEnd char

/-- Whether a line or a word is over at a character. -/
def isEndOrBlank (char : CodePoint) : Bool :=
  char == '\t' || isEndOrSpace char

def isAllowed (char : CodePoint) : Bool :=
  let code := char.toNat
  code == 0x09 || code == 0x0A || code == 0x0D || (0x20 ≤ code && code ≤ 0x7E) ||
    code == 0x85 || (0xA0 ≤ code && code ≤ 0xD7FF) || (0xE000 ≤ code && code ≤ 0xFFFD) ||
    0x10000 ≤ code

def isNameChar (char : CodePoint) : Bool :=
  char.isAlphanum || char == '-' || char == '_'

/-- A place in a text, with the text from there on. -/
structure Cursor where
  rest : Text
  index : Nat := 0
  line : Nat := 0
  column : Nat := 0
deriving DecidableEq

namespace Cursor

/-- The character so many places ahead. -/
def peek (cursor : Cursor) (ahead : Nat) : CodePoint :=
  cursor.rest.getD ahead nul

def char (cursor : Cursor) : CodePoint :=
  cursor.peek 0

def isDone (cursor : Cursor) : Bool :=
  cursor.rest.isEmpty

def step (cursor : Cursor) : Cursor :=
  match cursor.rest with
  | [] => cursor
  | char :: rest =>
      let next := { cursor with rest, index := cursor.index + 1 }
      if isBreak char && !(char == '\r' && rest.head? = some (.scalar '\n')) then
        { next with line := cursor.line + 1, column := 0 }
      else if char == byteOrderMark then next
      else { next with column := cursor.column + 1 }

def forward : Nat → Cursor → Cursor
  | 0, cursor => cursor
  | count + 1, cursor => forward count cursor.step

/-- The characters in front of which `holds` first fails, and the cursor there. -/
def takeWhile (cursor : Cursor) (holds : CodePoint → Bool) : Text × Cursor :=
  let taken := cursor.rest.takeWhile holds
  (taken, cursor.forward taken.length)

/-- The cursor at the first character for which `holds` fails. -/
def skipWhile (cursor : Cursor) (holds : CodePoint → Bool) : Cursor :=
  (cursor.takeWhile holds).2

def skipSpaces (cursor : Cursor) : Cursor :=
  cursor.skipWhile (· == .scalar ' ')

/-- The cursor behind the spaces at it, but not beyond a column. -/
def skipSpacesTo (column : Nat) (cursor : Cursor) : Cursor :=
  cursor.forward
    (min (column - cursor.column) (cursor.rest.takeWhile (· == .scalar ' ')).length)

/-- Reads a line end: the text that it stands for, and the cursor behind it. -/
def lineBreak (cursor : Cursor) : Text × Cursor :=
  match cursor.rest with
  | '\r' :: '\n' :: _ => (['\n'], cursor.forward 2)
  | char :: _ =>
      if !isBreak char then ([], cursor)
      else if char.toNat == 0x2028 || char.toNat == 0x2029 then ([char], cursor.step)
      else (['\n'], cursor.step)
  | [] => ([], cursor)

def skipComment (cursor : Cursor) : Cursor :=
  if cursor.char == '#' then cursor.skipWhile fun char => !isEnd char else cursor

/-- Whether three equal marks and the end of a word stand at the cursor. -/
def hasMark (cursor : Cursor) (mark : CodePoint) : Bool :=
  cursor.char == mark && cursor.peek 1 == mark && cursor.peek 2 == mark &&
    isEndOrBlank (cursor.peek 3)

/-- Whether a document starts or ends at the cursor, were it at the start of a line. -/
def atDocumentMark (cursor : Cursor) : Bool :=
  cursor.hasMark '-' || cursor.hasMark '.'

/-- The cursor behind the rest of a line that may hold nothing but a comment. -/
def endLine? (cursor : Cursor) : Option Cursor :=
  let cursor := cursor.skipSpaces.skipComment
  if isEnd cursor.char then some cursor.lineBreak.2 else none

end Cursor

/-- Why a text is not read as YAML: it is malformed, or it holds something that cannot be
computed with. -/
inductive Fault where
  | malformed
  | characterOutOfRange (code : Nat)
  | unreadableNumber
  | emptyNumber
  | numberTooLarge
  | unknownTruthValue
  | impossibleTime
  | unreadableTime
  | timeOfMapping
  | tooDeep
deriving DecidableEq

def orMalformed {α : Type} : Option α → Except Fault α
  | some value => .ok value
  | none => .error .malformed

end CodeProse.Yaml
