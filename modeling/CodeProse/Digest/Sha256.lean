import CodeProse.Text.Encoding

/-!
# SHA-256 digests

The digest of FIPS 180-4, as a function on byte lists: padding to blocks of 64 bytes, a
message schedule of 64 words for each block, and 64 rounds on eight chaining words.
-/

set_option autoImplicit false

namespace CodeProse.Sha256

def roundConstants : List UInt32 :=
  [0x428a2f98, 0x71374491, 0xb5c0fbcf, 0xe9b5dba5, 0x3956c25b, 0x59f111f1,
    0x923f82a4, 0xab1c5ed5, 0xd807aa98, 0x12835b01, 0x243185be, 0x550c7dc3,
    0x72be5d74, 0x80deb1fe, 0x9bdc06a7, 0xc19bf174, 0xe49b69c1, 0xefbe4786,
    0x0fc19dc6, 0x240ca1cc, 0x2de92c6f, 0x4a7484aa, 0x5cb0a9dc, 0x76f988da,
    0x983e5152, 0xa831c66d, 0xb00327c8, 0xbf597fc7, 0xc6e00bf3, 0xd5a79147,
    0x06ca6351, 0x14292967, 0x27b70a85, 0x2e1b2138, 0x4d2c6dfc, 0x53380d13,
    0x650a7354, 0x766a0abb, 0x81c2c92e, 0x92722c85, 0xa2bfe8a1, 0xa81a664b,
    0xc24b8b70, 0xc76c51a3, 0xd192e819, 0xd6990624, 0xf40e3585, 0x106aa070,
    0x19a4c116, 0x1e376c08, 0x2748774c, 0x34b0bcb5, 0x391c0cb3, 0x4ed8aa4a,
    0x5b9cca4f, 0x682e6ff3, 0x748f82ee, 0x78a5636f, 0x84c87814, 0x8cc70208,
    0x90befffa, 0xa4506ceb, 0xbef9a3f7, 0xc67178f2]

/-- The eight chaining words before the first block. -/
structure State where
  a : UInt32
  b : UInt32
  c : UInt32
  d : UInt32
  e : UInt32
  f : UInt32
  g : UInt32
  h : UInt32
deriving DecidableEq

def initial : State :=
  ⟨0x6a09e667, 0xbb67ae85, 0x3c6ef372, 0xa54ff53a,
    0x510e527f, 0x9b05688c, 0x1f83d9ab, 0x5be0cd19⟩

def rotate (word : UInt32) (amount : UInt32) : UInt32 :=
  (word >>> amount) ||| (word <<< (32 - amount))

/-- The schedule function on words 15 places back. -/
def smallSigma0 (word : UInt32) : UInt32 :=
  rotate word 7 ^^^ rotate word 18 ^^^ (word >>> 3)

/-- The schedule function on words two places back. -/
def smallSigma1 (word : UInt32) : UInt32 :=
  rotate word 17 ^^^ rotate word 19 ^^^ (word >>> 10)

/-- The next word of the schedule, from the sixteen words before it, the latest first. -/
def nextWord (latest : List UInt32) : UInt32 :=
  let word (back : Nat) : UInt32 := latest.getD (back - 1) 0
  smallSigma1 (word 2) + word 7 + smallSigma0 (word 15) + word 16

def round (state : State) (constant word : UInt32) : State :=
  let sigma1 := rotate state.e 6 ^^^ rotate state.e 11 ^^^ rotate state.e 25
  let choice := (state.e &&& state.f) ^^^ (~~~state.e &&& state.g)
  let first := state.h + sigma1 + choice + constant + word
  let sigma0 := rotate state.a 2 ^^^ rotate state.a 13 ^^^ rotate state.a 22
  let majority := (state.a &&& state.b) ^^^ (state.a &&& state.c) ^^^ (state.b &&& state.c)
  ⟨first + (sigma0 + majority), state.a, state.b, state.c, state.d + first, state.e, state.f,
    state.g⟩

/-- The rounds of one block. `pending` holds the block's words not yet used, `latest` the words
already used, the latest first. -/
def rounds : List UInt32 → List UInt32 → List UInt32 → State → State
  | [], _, _, state => state
  | constant :: constants, pending, latest, state =>
      let word := pending.headD (nextWord latest)
      rounds constants (pending.drop 1) (word :: latest.take 15) (round state constant word)

def compress (state : State) (block : List UInt32) : State :=
  let next := rounds roundConstants block [] state
  ⟨state.a + next.a, state.b + next.b, state.c + next.c, state.d + next.d, state.e + next.e,
    state.f + next.f, state.g + next.g, state.h + next.h⟩

/-- A number as `count` bytes, the most significant first. -/
def bigEndian (count number : Nat) : List UInt8 :=
  (List.range count).map fun place => UInt8.ofNat (number / Nat.pow 256 (count - 1 - place))

/-- The message, a marking bit, zeros, and the length in bits: whole blocks of 64 bytes. -/
def pad (message : List UInt8) : List UInt8 :=
  let zeros := (119 - message.length % 64) % 64
  message ++ 0x80 :: List.replicate zeros 0 ++ bigEndian 8 (8 * message.length)

/-- The words of a byte sequence, four bytes each, the most significant first. -/
def wordsOf : List UInt8 → List UInt32
  | a :: b :: c :: d :: rest =>
      UInt32.ofNat (((a.toNat * 256 + b.toNat) * 256 + c.toNat) * 256 + d.toNat) :: wordsOf rest
  | _ => []

/-- Absorbs the words block by block; the first argument bounds the number of blocks. -/
def absorb : Nat → List UInt32 → State → State
  | 0, _, state => state
  | limit + 1, words, state =>
      if words.isEmpty then state else absorb limit (words.drop 16) (compress state (words.take 16))

def finalState (message : List UInt8) : State :=
  let words := wordsOf (pad message)
  absorb words.length words initial

/-- The digest of a byte sequence, in 64 lower-case hexadecimal digits. -/
def hex (message : List UInt8) : Text :=
  let state := finalState message
  [state.a, state.b, state.c, state.d, state.e, state.f, state.g, state.h].flatMap fun word =>
    Text.hexDigits 8 word.toNat

/-- The digest of a text in UTF-8, if it has a form there. -/
def ofText? (text : Text) : Option Text :=
  text.toUtf8?.map hex

end CodeProse.Sha256
