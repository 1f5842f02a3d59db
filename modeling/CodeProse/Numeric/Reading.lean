import CodeProse.Numeric.Binary64
import CodeProse.Text.Blank
import CodeProse.Text.CharacterClass

/-!
# Numbers written in texts

Reading an integer or a binary64 number from a whole text. Blanks may stand around the
number, digits of every script count, and single low lines may stand between digits.
-/

set_option autoImplicit false

namespace CodeProse

/-- The most decimal digits that an integer may be read from or written with. -/
def integerDigitLimit : Nat := 4300

def isUnwritable (value : Int) : Bool :=
  Nat.pow 10 integerDigitLimit ≤ value.natAbs

/-- The value of a sequence of decimal digits, behind the digits already read. -/
def digitsValue (digits : List Nat) : Nat :=
  digits.foldl (fun value digit => value * 10 + digit) 0

/-- Whether a character may stand around a number: every blank but the information
separators. -/
def isNumberMargin (char : CodePoint) : Bool :=
  isBlank char && !(0x1C ≤ char.toNat && char.toNat ≤ 0x1F)

def trimNumber (text : Text) : Text :=
  Text.dropEndWhile isNumberMargin (text.dropWhile isNumberMargin)

/-- A text with the digits of every script written in ASCII. -/
def asciiDigits (text : Text) : Text :=
  text.map fun char =>
    match digitValue? char with
    | some digit => CodePoint.ofNat (48 + digit)
    | none => char

/-- A text without its low lines, if each of them stands between two ASCII digits. The first
argument is the character in front. -/
def dropSeparators? : CodePoint → Text → Option Text
  | previous, [] => if previous == '_' then none else some []
  | previous, char :: rest =>
      if char == '_' then
        if previous.isDigit then dropSeparators? '_' rest else none
      else if previous == '_' && !char.isDigit then none
      else (dropSeparators? char rest).map (char :: ·)

/-- Splits a sign off the front of a number; without one the number is not negative. -/
def splitSign : Text → Bool × Text
  | '-' :: rest => (true, rest)
  | '+' :: rest => (false, rest)
  | text => (false, text)

def splitDigits (text : Text) : List Nat × Text :=
  ((text.takeWhile CodePoint.isDigit).map fun char => char.toNat - 48, text.dropWhile CodePoint.isDigit)

/-- The integer that a text stands for, if it has at most `integerDigitLimit` digits. -/
def readInt? (text : Text) : Option Int := do
  let plain ← dropSeparators? ' ' (asciiDigits (trimNumber text))
  let (negative, magnitude) := splitSign plain
  match splitDigits magnitude with
  | ([], _) => none
  | (digits, []) =>
      if integerDigitLimit < digits.length then none
      else some (if negative then -digitsValue digits else digitsValue digits)
  | _ => none

/-- The exponent at the end of a decimal number; zero when there is none. -/
def readExponent? : Text → Option Int
  | [] => some 0
  | mark :: rest =>
      if mark == 'e' || mark == 'E' then
        let (negative, magnitude) := splitSign rest
        match splitDigits magnitude with
        | ([], _) => none
        | (digits, []) => some (if negative then -digitsValue digits else digitsValue digits)
        | _ => none
      else none

/-- The fraction of a decimal number and what follows it. -/
def splitFraction : Text → List Nat × Text
  | '.' :: rest => splitDigits rest
  | text => ([], text)

/-- The number nearest to `digits · 10^exponent`, the digits given one by one. -/
def binary64OfDigits (negative : Bool) (digits : List Nat) (exponent : Int) : Binary64 :=
  let significant := digits.dropWhile (· == 0)
  Binary64.ofDecimal negative (digitsValue significant) significant.length exponent

/-- The number that an unsigned decimal stands for: digits with or without a point, and an
optional exponent. -/
def readDecimal? (negative : Bool) (text : Text) : Option Binary64 := do
  let (whole, afterWhole) := splitDigits text
  let (fraction, afterFraction) := splitFraction afterWhole
  let exponent ← readExponent? afterFraction
  let digits := whole ++ fraction
  if digits.isEmpty then none
  else some (binary64OfDigits negative digits (exponent - fraction.length))

def readBinary64? (text : Text) : Option Binary64 := do
  let plain ← dropSeparators? ' ' (asciiDigits (trimNumber text))
  let (negative, magnitude) := splitSign plain
  let name := Text.asciiLower magnitude
  if name = "inf" || name = "infinity" then some (.infinite negative)
  else if name = "nan" then some .nan
  else readDecimal? negative magnitude

end CodeProse
