import CodeProse.Proofs.Text.Encoding

/-!
# Encodings of files

An encoding turns texts into bytes and back. What it has written it reads back as it was, and it
refuses a text only for a character that it has no bytes for.
-/

set_option autoImplicit false

namespace CodeProse

/-- The first bytes that an encoding cannot read: where they start, how many they are, the first of
them, and why. -/
structure DecodeFault where
  encoding : Text
  offset : Nat
  width : Nat
  byte : UInt8
  reason : Text
deriving DecidableEq

structure Encoding where
  encode? : Text → Option (List UInt8)
  decode : List UInt8 → Except DecodeFault Text
  decode_of_encode? : ∀ {text : Text} {bytes : List UInt8},
    encode? text = some bytes → decode bytes = .ok text
  encode?_eq_none_iff : ∀ {text : Text},
    encode? text = none ↔ ∃ char ∈ text, encode? [char] = none

def Utf8Fault.toDecodeFault (fault : Utf8Fault) : DecodeFault where
  encoding := "utf-8"
  offset := fault.offset
  width := fault.width
  byte := fault.byte
  reason :=
    match fault.defect with
    | .invalidStart => "invalid start byte"
    | .invalidContinuation => "invalid continuation byte"
    | .unexpectedEnd => "unexpected end of data"

namespace Encoding

theorem toUtf8?_eq_none_iff {text : Text} :
    text.toUtf8? = none ↔ ∃ char ∈ text, Text.toUtf8? [char] = none := by
  simp only [Text.toUtf8?, Text.chars?, Option.map_eq_none_iff, mapM_singleton_eq_none_iff]
  exact mapM_eq_none_iff

def utf8 : Encoding where
  encode? := Text.toUtf8?
  decode bytes := (Text.ofUtf8 bytes).mapError Utf8Fault.toDecodeFault
  decode_of_encode? encoded := by rw [Text.ofUtf8_of_toUtf8? encoded]; rfl
  encode?_eq_none_iff := toUtf8?_eq_none_iff

/-- The byte of a character of Latin-1. -/
def latin1Byte? (char : CodePoint) : Option UInt8 :=
  if char.toNat < 256 then some (UInt8.ofNat char.toNat) else none

def ofLatin1Byte (byte : UInt8) : CodePoint :=
  .ofNat byte.toNat

theorem ofLatin1Byte_of_latin1Byte? {char : CodePoint} {byte : UInt8}
    (encoded : latin1Byte? char = some byte) : ofLatin1Byte byte = char := by
  simp only [latin1Byte?, Option.ite_none_right_eq_some, Option.some.injEq] at encoded
  obtain ⟨small, rfl⟩ := encoded
  rw [ofLatin1Byte, toNat_uint8OfNat small, CodePoint.ofNat_toNat]

def latin1 : Encoding where
  encode? text := text.mapM latin1Byte?
  decode bytes := .ok (bytes.map ofLatin1Byte)
  decode_of_encode? encoded :=
    congrArg Except.ok (map_eq_of_mapM_eq_some ofLatin1Byte_of_latin1Byte? encoded)
  encode?_eq_none_iff := by
    simp only [mapM_singleton_eq_none_iff]
    exact mapM_eq_none_iff

end Encoding

end CodeProse
