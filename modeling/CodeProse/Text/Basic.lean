import CodeProse.Text.CodePoint

/-!
# Text

A text is the list of its code points, so every offset, column and length of the library
counts code points. This module holds what the rest of the library needs of plain texts:
searching, counting and replacing fixed pieces, and splitting at line ends.
-/

set_option autoImplicit false

/-- A text without surrogates, from a string. -/
@[simp]
def String.toText (string : String) : List CodeProse.CodePoint :=
  string.toList.map CodeProse.CodePoint.scalar

namespace CodeProse

/-- A text, as the list of its code points. -/
abbrev Text := List CodePoint

instance : Coe String Text := ⟨String.toText⟩

namespace Text

/-- The offset of the first place where `needle` stands. The empty text stands everywhere. -/
def indexOf? (needle : Text) : Text → Option Nat
  | [] => if needle = [] then some 0 else none
  | char :: rest =>
      if needle.isPrefixOf (char :: rest) then some 0
      else (indexOf? needle rest).map (· + 1)

/-- The offset of the last place where `needle` stands. -/
def lastIndexOf? (needle : Text) : Text → Option Nat
  | [] => if needle = [] then some 0 else none
  | char :: rest =>
      match lastIndexOf? needle rest with
      | some index => some (index + 1)
      | none => if needle.isPrefixOf (char :: rest) then some 0 else none

def contains (needle text : Text) : Bool :=
  (indexOf? needle text).isSome

/-- Occurrences of `needle` from the front, none sharing a character with the one before.
The first `skip` characters belong to an occurrence already counted. -/
def countFrom (needle : Text) : Nat → Text → Nat
  | _, [] => 0
  | skip + 1, _ :: rest => countFrom needle skip rest
  | 0, char :: rest =>
      if needle.isPrefixOf (char :: rest) then 1 + countFrom needle (needle.length - 1) rest
      else countFrom needle 0 rest

/-- How many occurrences of a non-empty `needle` a text holds, counted without overlap. -/
def count (needle text : Text) : Nat :=
  countFrom needle 0 text

/-- Replaces the first occurrence of `old`; a text without one is left as it is. -/
def replaceFirst (old new text : Text) : Text :=
  match indexOf? old text with
  | some index => text.take index ++ new ++ text.drop (index + old.length)
  | none => text

/-- Replaces occurrences of a non-empty `old` from the front, without overlap.
The first `skip` characters belong to an occurrence already replaced. -/
def replaceFrom (old new : Text) : Nat → Text → Text
  | _, [] => []
  | skip + 1, _ :: rest => replaceFrom old new skip rest
  | 0, char :: rest =>
      if old.isPrefixOf (char :: rest) then new ++ replaceFrom old new (old.length - 1) rest
      else char :: replaceFrom old new 0 rest

/-- Replaces every occurrence of `old`. An empty `old` occurs before every character and at
the end. -/
def replaceAll (old new text : Text) : Text :=
  if old = [] then new ++ text.flatMap fun char => char :: new
  else replaceFrom old new 0 text

/-- The lines of a text: what stands between its line feeds. There is always one. -/
def lines (text : Text) : List Text :=
  text.splitOn (.scalar '\n')

def unlines (lines : List Text) : Text :=
  List.intercalate [.scalar '\n'] lines

/-- The text without one line feed at its end. -/
def dropFinalLineFeed (text : Text) : Text :=
  if text.getLast? = some (.scalar '\n') then text.dropLast else text

/-- ASCII letters in lower case; every other character is kept. -/
def asciiLower (text : Text) : Text :=
  text.map CodePoint.asciiLower

/-- The digits of a number in a base. -/
def digits (base number : Nat) : Text :=
  (Nat.toDigits base number).map CodePoint.scalar

def ofNat (number : Nat) : Text :=
  digits 10 number

def ofInt : Int → Text
  | .ofNat number => ofNat number
  | .negSucc number => .scalar '-' :: ofNat (number + 1)

/-- Four lower-case hexadecimal digits or more. -/
def hexDigits (width number : Nat) : Text :=
  let digits := digits 16 number
  List.replicate (width - digits.length) ('0' : CodePoint) ++ digits

end Text

end CodeProse
