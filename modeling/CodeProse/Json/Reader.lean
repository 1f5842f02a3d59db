import CodeProse.Json.Basic
import CodeProse.Numeric.Reading

/-!
# Reading JSON

Reads one JSON value from a whole text. Beyond the standard it accepts `NaN`, `Infinity` and
`-Infinity`; like the standard it refuses control characters in strings, a byte order mark in
front and anything behind the value. An integer of more than `integerDigitLimit` digits and a
value nested deeper than a limit are refused with errors of their own. The `\u` escapes of the two
halves of a surrogate pair stand for one character; a half that is escaped alone is kept.
-/

set_option autoImplicit false

namespace CodeProse.Json

/-- How deep collections may be nested where nothing else is said. -/
def usualNesting : Nat := 970

/-- Why a text is not read. The name of the collection that lies too deep is given. -/
inductive ReadError where
  | malformed
  | integerTooLong (digits : Nat)
  | nestedTooDeep (collection : Text)
deriving DecidableEq

def isSpace (char : CodePoint) : Bool :=
  char == ' ' || char == '\t' || char == '\n' || char == '\r'

def skipSpace (text : Text) : Text :=
  text.dropWhile isSpace

def hexValue? (char : CodePoint) : Option Nat :=
  if char.isDigit then some (char.toNat - 48)
  else if 'a' ≤ char && char ≤ 'f' then some (char.toNat - 87)
  else if 'A' ≤ char && char ≤ 'F' then some (char.toNat - 55)
  else none

/-- The number that four hexadecimal digits at the front of a text stand for, and the rest. -/
def readUnit? : Text → Option (Nat × Text)
  | a :: b :: c :: d :: rest => do
      let a ← hexValue? a
      let b ← hexValue? b
      let c ← hexValue? c
      let d ← hexValue? d
      some (((a * 16 + b) * 16 + c) * 16 + d, rest)
  | _ => none

/-- The second half of a surrogate pair, written as an escape at the front of a text. -/
def readLowSurrogate? : Text → Option (Nat × Text)
  | '\\' :: 'u' :: rest =>
      match readUnit? rest with
      | some (unit, rest) =>
          if 0xDC00 ≤ unit && unit ≤ 0xDFFF then some (unit, rest) else none
      | none => none
  | _ => none

/-- The code point of a `\u` escape, read behind the letter. -/
def readUnicode? (text : Text) : Option (CodePoint × Text) := do
  let (unit, rest) ← readUnit? text
  if 0xD800 ≤ unit && unit ≤ 0xDBFF then
    match readLowSurrogate? rest with
    | some (low, rest) => some (.ofNat (0x10000 + (unit - 0xD800) * 1024 + (low - 0xDC00)), rest)
    | none => some (.ofNat unit, rest)
  else some (.ofNat unit, rest)

def simpleEscape? (char : CodePoint) : Option CodePoint :=
  if char == '"' || char == '\\' || char == '/' then some char
  else if char == 'b' then some (CodePoint.ofNat 8)
  else if char == 'f' then some (CodePoint.ofNat 12)
  else if char == 'n' then some (.scalar '\n')
  else if char == 'r' then some (.scalar '\r')
  else if char == 't' then some (.scalar '\t')
  else none

/-- The rest of a string, behind its opening quote. The first argument bounds the number of
characters. -/
def readString : Nat → Text → Except ReadError (Text × Text)
  | 0, _ => .error .malformed
  | _ + 1, [] => .error .malformed
  | limit + 1, char :: rest =>
      if char == '"' then .ok ([], rest)
      else if char == '\\' then
        match rest with
        | [] => .error .malformed
        | letter :: rest =>
            let escaped :=
              if letter == 'u' then readUnicode? rest
              else (simpleEscape? letter).map fun char => (char, rest)
            match escaped with
            | none => .error .malformed
            | some (char, rest) => do
                let (text, rest) ← readString limit rest
                .ok (char :: text, rest)
      else if char.toNat < 0x20 then .error .malformed
      else do
        let (text, rest) ← readString limit rest
        .ok (char :: text, rest)

/-- The digits before the point of a number: a single zero, or digits that start with another
one. -/
def splitWhole : Text → List Nat × Text
  | '0' :: rest => ([0], rest)
  | text => splitDigits text

/-- The fraction of a number, if a point with a digit behind it follows. -/
def splitPoint? : Text → Option (List Nat × Text)
  | '.' :: rest =>
      match splitDigits rest with
      | ([], _) => none
      | found => some found
  | _ => none

/-- The exponent of a number, if a mark with a digit behind it follows. -/
def splitExponent? : Text → Option (Int × Text)
  | mark :: rest =>
      if mark == 'e' || mark == 'E' then
        let (negative, magnitude) := splitSign rest
        match splitDigits magnitude with
        | ([], _) => none
        | (digits, rest) =>
            some (if negative then -digitsValue digits else digitsValue digits, rest)
      else none
  | [] => none

/-- A number, read behind its sign. -/
def readNumber (negative : Bool) (text : Text) : Except ReadError (Json × Text) :=
  match splitWhole text with
  | ([], _) => .error .malformed
  | (whole, afterWhole) =>
      let (fraction, afterFraction) := (splitPoint? afterWhole).getD ([], afterWhole)
      let exponent? := splitExponent? afterFraction
      let (exponent, rest) := exponent?.getD (0, afterFraction)
      if fraction.isEmpty && exponent?.isNone then
        if integerDigitLimit < whole.length then .error (.integerTooLong whole.length)
        else
          .ok (int (if negative then -digitsValue whole else digitsValue whole), rest)
      else
        .ok (float (binary64OfDigits negative (whole ++ fraction) (exponent - fraction.length)),
          rest)

def literals : List (Text × Json) :=
  [("null", null), ("true", bool true), ("false", bool false), ("NaN", float .nan),
    ("Infinity", float (.infinite false)), ("-Infinity", float (.infinite true))]

def readLiteral? (text : Text) : Option (Json × Text) :=
  (literals.find? fun literal => literal.1.isPrefixOf text).map fun literal =>
    (literal.2, text.drop literal.1.length)

mutual

/-- The value at the front of a text, in which collections may be nested `depth` levels deep.
The first argument bounds the number of parts. -/
def readValue : Nat → Nat → Text → Except ReadError (Json × Text)
  | 0, _, _ => .error .malformed
  | limit + 1, depth, text =>
      match readLiteral? text with
      | some found => .ok found
      | none =>
          match text, depth with
          | '"' :: rest, _ => do
              let (value, rest) ← readString (rest.length + 1) rest
              .ok (string value, rest)
          | '[' :: _, 0 => .error (.nestedTooDeep "array")
          | '[' :: rest, depth + 1 =>
              match skipSpace rest with
              | ']' :: rest => .ok (array [], rest)
              | rest => do
                  let (items, rest) ← readItems limit depth rest
                  .ok (array items, rest)
          | '\x7b' :: _, 0 => .error (.nestedTooDeep "object")
          | '\x7b' :: rest, depth + 1 =>
              match skipSpace rest with
              | '\x7d' :: rest => .ok (object [], rest)
              | rest => do
                  let (members, rest) ← readMembers limit depth [] rest
                  .ok (object members, rest)
          | '-' :: rest, _ => readNumber true rest
          | _, _ => readNumber false text

def readItems : Nat → Nat → Text → Except ReadError (List Json × Text)
  | 0, _, _ => .error .malformed
  | limit + 1, depth, text => do
      let (item, rest) ← readValue limit depth text
      match skipSpace rest with
      | ']' :: rest => .ok ([item], rest)
      | ',' :: rest => do
          let (items, rest) ← readItems limit depth (skipSpace rest)
          .ok (item :: items, rest)
      | _ => .error .malformed

/-- The members of an object, up to its closing brace, behind those already read. -/
def readMembers : Nat → Nat → List (Text × Json) → Text →
    Except ReadError (List (Text × Json) × Text)
  | 0, _, _, _ => .error .malformed
  | limit + 1, depth, members, text =>
      match text with
      | '"' :: rest => do
          let (name, rest) ← readString (rest.length + 1) rest
          match skipSpace rest with
          | ':' :: rest => do
              let (value, rest) ← readValue limit depth (skipSpace rest)
              let members := setMember name value members
              match skipSpace rest with
              | '\x7d' :: rest => .ok (members, rest)
              | ',' :: rest => readMembers limit depth members (skipSpace rest)
              | _ => .error .malformed
          | _ => .error .malformed
      | _ => .error .malformed

end

/-- Reads a text in which collections may be nested `depth` levels deep. -/
def read (depth : Nat) (text : Text) : Except ReadError Json := do
  let (value, rest) ← readValue (2 * text.length + 2) depth (skipSpace text)
  if (skipSpace rest).isEmpty then .ok value else .error .malformed

end CodeProse.Json
