import CodeProse.Numeric.Reading
import CodeProse.Yaml.Cursor

/-!
# Kinds of scalars

What a scalar without a tag of its own stands for is seen from its text alone: a truth value, a
number, a point in time, nothing, or else a text. A line end behind the text does not count. The
kind is named by a tag.
-/

set_option autoImplicit false

namespace CodeProse.Yaml

/-- The part that the tags of the YAML types have in common. -/
def tagBase : Text := "tag:yaml.org,2002:"

def typeTag (name : Text) : Text :=
  tagBase ++ name

def truthWords : List Text :=
  ["yes", "Yes", "YES", "true", "True", "TRUE", "on", "On", "ON"]

def falsehoodWords : List Text :=
  ["no", "No", "NO", "false", "False", "FALSE", "off", "Off", "OFF"]

def nothingWords : List Text := ["~", "null", "Null", "NULL", ""]

def isDigitOrLine (char : CodePoint) : Bool :=
  char.isDigit || char == '_'

/-- Whether a text is not empty and all its characters satisfy `holds`. -/
def isSomeOf (holds : CodePoint → Bool) (text : Text) : Bool :=
  !text.isEmpty && text.all holds

/-- Whether a text is a sexagesimal digit. -/
def isSixtieth : Text → Bool
  | [units] => units.isDigit
  | [tens, units] => '0' ≤ tens && tens ≤ '5' && units.isDigit
  | _ => false

/-- Whether a text has sexagesimal digits behind a whole number that starts with one of some
digits. -/
def isSexagesimal (starts : CodePoint → Bool) (text : Text) : Bool :=
  match text.splitOn (.scalar ':') with
  | (first :: rest) :: digits =>
      starts first && rest.all isDigitOrLine && !digits.isEmpty && digits.all isSixtieth
  | _ => false

def isPositiveDigit (char : CodePoint) : Bool :=
  char.isDigit && char != '0'

def isIntegerText (text : Text) : Bool :=
  match text with
  | ['0'] => true
  | '0' :: 'b' :: rest => isSomeOf (fun char => char == .scalar '0' || char == '1' || char == '_') rest
  | '0' :: 'x' :: rest => isSomeOf (fun char => isHexDigit char || char == '_') rest
  | '0' :: rest => isSomeOf (fun char => ('0' ≤ char && char ≤ '7') || char == '_') rest
  | first :: rest =>
      isPositiveDigit first && rest.all isDigitOrLine || isSexagesimal isPositiveDigit text
  | [] => false
where
  /-- Whether a character is a hexadecimal digit. -/
  isHexDigit (char : CodePoint) : Bool :=
    char.isDigit || ('a' ≤ char && char ≤ 'f') || ('A' ≤ char && char ≤ 'F')

/-- Whether a text is empty or an exponent with a sign. -/
def isExponent : Text → Bool
  | [] => true
  | mark :: sign :: digits =>
      (mark == 'e' || mark == 'E') && (sign == '+' || sign == '-') && isSomeOf CodePoint.isDigit digits
  | _ => false

/-- Whether a text is the part of a fraction behind the point. -/
def isFractionTail (text : Text) : Bool :=
  isExponent (text.dropWhile isDigitOrLine)

/-- Whether an unsigned text is a fraction that starts with a digit. -/
def isWholeFraction (text : Text) : Bool :=
  let (whole, rest) := text.span fun char => char != .scalar '.'
  match whole, rest with
  | first :: digits, '.' :: tail =>
      first.isDigit && digits.all isDigitOrLine && isFractionTail tail ||
        isSexagesimal CodePoint.isDigit whole && tail.all isDigitOrLine
  | _, _ => false

def isRealText (text : Text) : Bool :=
  let (_, unsigned) := splitSign text
  let isPointed :=
    match text with
    | '.' :: first :: tail => first.isDigit && isFractionTail (first :: tail)
    | _ => false
  isWholeFraction unsigned || isPointed ||
    [".inf".toText, ".Inf", ".INF"].contains unsigned ||
    [".nan".toText, ".NaN", ".NAN"].contains text

/-- Digits at the front of a text, as many as there are from `least` to `most`, and the rest. -/
def takeDigits? (least most : Nat) (text : Text) : Option (Nat × Text) :=
  let digits := (text.take most).takeWhile CodePoint.isDigit
  if digits.length < least then none
  else some (digitsValue (splitDigits digits).1, text.drop digits.length)

/-- The text behind a character, if it starts with that. -/
def after? (char : CodePoint) : Text → Option Text
  | first :: rest => if first = char then some rest else none
  | [] => none

/-- A point in time as it is written. -/
structure Moment where
  year : Nat
  month : Nat
  day : Nat
  clock : Option (Nat × Nat × Nat) := none
  zoneMinutes : Nat := 0
deriving DecidableEq

def isTimeBlank (char : CodePoint) : Bool :=
  char == ' ' || char == '\t'

/-- The minutes of a time zone; nothing may follow it. -/
def zone? (text : Text) : Option Nat :=
  if text.isEmpty then some 0
  else
    match text.dropWhile isTimeBlank with
    | ['Z'] => some 0
    | sign :: rest => do
        if sign != '+' && sign != '-' then none
        let (hours, rest) ← takeDigits? 1 2 rest
        if rest.isEmpty then return hours * 60
        let (minutes, rest) ← takeDigits? 2 2 (← after? ':' rest)
        if rest.isEmpty then some (hours * 60 + minutes) else none
    | [] => none

/-- The time of day and the zone behind a date. -/
def clock? (text : Text) : Option ((Nat × Nat × Nat) × Nat) := do
  let rest ←
    match text with
    | 'T' :: rest | 't' :: rest => some rest
    | first :: _ => if isTimeBlank first then some (text.dropWhile isTimeBlank) else none
    | [] => none
  let (hour, rest) ← takeDigits? 1 2 rest
  let (minute, rest) ← takeDigits? 2 2 (← after? ':' rest)
  let (second, rest) ← takeDigits? 2 2 (← after? ':' rest)
  let rest := ((after? '.' rest).map fun tail => tail.dropWhile CodePoint.isDigit).getD rest
  let zone ← zone? rest
  return ((hour, minute, second), zone)

def lineMoment? (line : Text) : Option Moment := do
  let (year, rest) ← takeDigits? 4 4 line
  let (month, rest) ← takeDigits? 1 2 (← after? '-' rest)
  let (day, rest) ← takeDigits? 1 2 (← after? '-' rest)
  if rest.isEmpty then return { year, month, day }
  let (clock, zoneMinutes) ← clock? rest
  return { year, month, day, clock := some clock, zoneMinutes }

def moment? (text : Text) : Option Moment :=
  lineMoment? text.dropFinalLineFeed

/-- Whether a line is a point in time. A date alone has all its digits. -/
def isMomentLine (line : Text) : Bool :=
  (lineMoment? line).any fun moment => moment.clock.isSome || line.length = 10

def lineKind (line : Text) : Text :=
  if truthWords.contains line || falsehoodWords.contains line then "bool"
  else if isRealText line then "float"
  else if isIntegerText (splitSign line).2 then "int"
  else if line = "<<" then "merge"
  else if nothingWords.contains line then "null"
  else if isMomentLine line then "timestamp"
  else if line = "=" then "value"
  else if line = "!" || line = "&" || line = "*" then "yaml"
  else "str"

/-- The tag of a scalar without a tag of its own. A line end alone is a text. -/
def plainTag (text : Text) : Text :=
  typeTag (if text = [.scalar '\n'] then "str" else lineKind text.dropFinalLineFeed)

end CodeProse.Yaml
