import CodeProse.Json.Basic
import CodeProse.Numeric.Decimal

/-!
# Writing JSON

Writes a JSON value on one line, with a space behind every comma and colon. Strings are
written either in ASCII alone, with `\u` escapes for everything else, or with every character
kept that JSON admits.
-/

set_option autoImplicit false

namespace CodeProse.Json

/-- Which characters a string keeps as they are. -/
inductive Charset where
  | ascii
  | unicode
deriving DecidableEq

/-- A `\u` escape of a number below 65536. -/
def unitEscape (unit : Nat) : Text :=
  "\\u".toText ++ Text.hexDigits 4 unit

/-- The escape of a character that is not kept: a surrogate pair above U+FFFF. -/
def unicodeEscape (char : CodePoint) : Text :=
  let code := char.toNat
  if code < 0x10000 then unitEscape code
  else unitEscape (0xD800 + (code - 0x10000) / 1024) ++ unitEscape (0xDC00 + (code - 0x10000) % 1024)

def escapeChar (charset : Charset) (char : CodePoint) : Text :=
  if char == '"' || char == '\\' then ['\\', char]
  else if char == '\n' then ['\\', 'n']
  else if char == '\r' then ['\\', 'r']
  else if char == '\t' then ['\\', 't']
  else if char.toNat == 8 then ['\\', 'b']
  else if char.toNat == 12 then ['\\', 'f']
  else if char.toNat < 0x20 then unicodeEscape char
  else if charset = .ascii && 0x7E < char.toNat then unicodeEscape char
  else [char]

def writeString (charset : Charset) (text : Text) : Text :=
  .scalar '"' :: text.flatMap (escapeChar charset) ++ [.scalar '"']

/-- A fraction; the three values that are not finite have names. -/
def writeFloat : Binary64 → Text
  | .nan => "NaN"
  | .infinite false => "Infinity"
  | .infinite true => "-Infinity"
  | value => value.shortest

mutual

def write (charset : Charset) : Json → Text
  | null => "null"
  | bool true => "true"
  | bool false => "false"
  | int value => Text.ofInt value
  | float value => writeFloat value
  | string text => writeString charset text
  | array [] => ['[', ']']
  | array (item :: items) => .scalar '[' :: write charset item ++ writeItems charset items
  | object [] => ['\x7b', '\x7d']
  | object ((name, value) :: members) =>
      .scalar '\x7b' :: writeString charset name ++ ": ".toText ++ write charset value ++
        writeMembers charset members

/-- The further items of an array, and its closing bracket. -/
def writeItems (charset : Charset) : List Json → Text
  | [] => [']']
  | item :: items => ", ".toText ++ write charset item ++ writeItems charset items

def writeMembers (charset : Charset) : List (Text × Json) → Text
  | [] => ['\x7d']
  | (name, value) :: members =>
      ", ".toText ++ writeString charset name ++ ": ".toText ++ write charset value ++
        writeMembers charset members

end

end CodeProse.Json
