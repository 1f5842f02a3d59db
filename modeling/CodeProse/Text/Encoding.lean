import CodeProse.Sequence
import CodeProse.Text.Basic

/-!
# UTF-8

Texts as bytes. A text with half of a surrogate pair has no form in UTF-8. Reading UTF-8 names the
first fault of a byte sequence, or passes over every fault; each fault covers the longest start of
a character that cannot be completed.
-/

set_option autoImplicit false

namespace CodeProse

def utf8Size (char : Char) : Nat :=
  let code := char.toNat
  if code < 0x80 then 1 else if code < 0x800 then 2 else if code < 0x10000 then 3 else 4

def utf8Bytes (char : Char) : List UInt8 :=
  let code := char.toNat
  let tail (shift : Nat) : UInt8 := UInt8.ofNat (0x80 + code / Nat.pow 2 shift % 64)
  if code < 0x80 then [UInt8.ofNat code]
  else if code < 0x800 then [UInt8.ofNat (0xC0 + code / 64), tail 0]
  else if code < 0x10000 then [UInt8.ofNat (0xE0 + code / 4096), tail 6, tail 0]
  else [UInt8.ofNat (0xF0 + code / 262144), tail 12, tail 6, tail 0]

/-- What is wrong with a byte sequence that should be UTF-8. -/
inductive Utf8Defect where
  | invalidStart
  | invalidContinuation
  | unexpectedEnd
deriving DecidableEq

/-- The first bytes that cannot be read as UTF-8: where they start, how many they are, the
first of them, and why. -/
structure Utf8Fault where
  offset : Nat
  width : Nat
  byte : UInt8
  defect : Utf8Defect
deriving DecidableEq

/-- How a character that starts with this byte goes on: the number of bytes that follow, the
bounds of the second byte, and the bits that the first byte contributes. -/
def utf8Lead? (byte : UInt8) : Option (Nat × Nat × Nat × Nat) :=
  let code := byte.toNat
  if code < 0x80 then some (0, 0, 0, code)
  else if 0xC2 ≤ code && code ≤ 0xDF then some (1, 0x80, 0xBF, code - 0xC0)
  else if code == 0xE0 then some (2, 0xA0, 0xBF, 0)
  else if code == 0xED then some (2, 0x80, 0x9F, 0xD)
  else if 0xE1 ≤ code && code ≤ 0xEF then some (2, 0x80, 0xBF, code - 0xE0)
  else if code == 0xF0 then some (3, 0x90, 0xBF, 0)
  else if 0xF1 ≤ code && code ≤ 0xF3 then some (3, 0x80, 0xBF, code - 0xF0)
  else if code == 0xF4 then some (3, 0x80, 0x8F, 4)
  else none

/-- Reads the `missing` bytes that complete a character of which `taken` bytes and the bits
`code` are known. The result is the character or the defect, and the bytes used up. -/
def utf8Tail : Nat → Nat → Nat → Nat → Nat → List UInt8 → Except Utf8Defect Char × Nat
  | 0, _, _, code, taken, _ => (.ok (Char.ofNat code), taken)
  | _ + 1, _, _, _, taken, [] => (.error .unexpectedEnd, taken)
  | missing + 1, low, high, code, taken, byte :: rest =>
      if low ≤ byte.toNat && byte.toNat ≤ high then
        utf8Tail missing 0x80 0xBF (code * 64 + byte.toNat % 64) (taken + 1) rest
      else (.error .invalidContinuation, taken)

/-- Reads one character, or the bytes of one defect; at least one byte is used up. -/
def utf8Piece (byte : UInt8) (rest : List UInt8) : Except Utf8Defect Char × Nat :=
  match utf8Lead? byte with
  | none => (.error .invalidStart, 1)
  | some (missing, low, high, code) => utf8Tail missing low high code 1 rest

/-- The characters and the faults of a byte sequence that starts at `offset`, in order. The
first argument bounds the number of pieces. -/
def utf8Pieces : Nat → Nat → List UInt8 → List (Except Utf8Fault Char)
  | 0, _, _ => []
  | _ + 1, _, [] => []
  | limit + 1, offset, byte :: rest =>
      let (piece, width) := utf8Piece byte rest
      let found :=
        match piece with
        | .ok char => .ok char
        | .error defect => .error ⟨offset, width, byte, defect⟩
      found :: utf8Pieces limit (offset + width) (rest.drop (width - 1))

namespace Text

def ofChars (chars : List Char) : Text :=
  chars.map CodePoint.scalar

/-- The characters of a text in which no half of a surrogate pair stands. -/
def chars? (text : Text) : Option (List Char) :=
  text.mapM CodePoint.char?

/-- How many bytes a text takes in UTF-8, if it has a form there. -/
def utf8Size? (text : Text) : Option Nat :=
  text.chars?.map fun chars => total (chars.map utf8Size)

def toUtf8? (text : Text) : Option (List UInt8) :=
  text.chars?.map fun chars => chars.flatMap utf8Bytes

/-- The text of a byte sequence in UTF-8, or its first fault. -/
def ofUtf8 (bytes : List UInt8) : Except Utf8Fault Text :=
  ((utf8Pieces bytes.length 0 bytes).mapM id).map ofChars

/-- The characters of a byte sequence in UTF-8; what cannot be read is passed over. -/
def ofUtf8Lenient (bytes : List UInt8) : Text :=
  ofChars ((utf8Pieces bytes.length 0 bytes).filterMap Except.toOption)

/-- Line ends made uniform: a carriage return, alone or before a line feed, becomes one line
feed. -/
def uniformLineEnds : Text → Text
  | '\r' :: '\n' :: rest => .scalar '\n' :: uniformLineEnds rest
  | '\r' :: rest => .scalar '\n' :: uniformLineEnds rest
  | char :: rest => char :: uniformLineEnds rest
  | [] => []

end Text

end CodeProse
