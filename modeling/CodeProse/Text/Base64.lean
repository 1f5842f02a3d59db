import CodeProse.Text.Basic

/-!
# Base64

Reads bytes written in Base64. Characters outside the alphabet are passed over, and so is
everything behind complete padding; data that ends inside a group is refused.
-/

set_option autoImplicit false

namespace CodeProse.Base64

def digit? (char : CodePoint) : Option Nat :=
  if 'A' ≤ char && char ≤ 'Z' then some (char.toNat - 65)
  else if 'a' ≤ char && char ≤ 'z' then some (char.toNat - 71)
  else if char.isDigit then some (char.toNat + 4)
  else if char == '+' then some 62
  else if char == '/' then some 63
  else none

/-- The place in a group of four characters, and the bits of it that make no byte yet. -/
structure Group where
  place : Nat := 0
  bits : Nat := 0
deriving DecidableEq

/-- The group behind one more digit, and the byte that it completes. -/
def Group.add (group : Group) (digit : Nat) : Option UInt8 × Group :=
  match group.place with
  | 0 => (none, ⟨1, digit⟩)
  | 1 => (some (UInt8.ofNat (group.bits * 4 + digit / 16)), ⟨2, digit % 16⟩)
  | 2 => (some (UInt8.ofNat (group.bits * 16 + digit / 4)), ⟨3, digit % 4⟩)
  | _ => (some (UInt8.ofNat (group.bits * 64 + digit)), ⟨0, 0⟩)

/-- The bytes of the text behind a part of a group and so many padding characters. -/
def decodeFrom : Group → Nat → Text → Option (List UInt8)
  | group, _, [] => if group.place = 0 then some [] else none
  | group, padding, char :: rest =>
      if char == '=' then
        if group.place < 2 then decodeFrom group padding rest
        else if 4 ≤ group.place + padding + 1 then some []
        else decodeFrom group (padding + 1) rest
      else
        match digit? char with
        | none => decodeFrom group padding rest
        | some digit =>
            let (byte, group) := group.add digit
            (decodeFrom group 0 rest).map (byte.toList ++ ·)

def decode? (text : Text) : Option (List UInt8) :=
  decodeFrom {} 0 text

end CodeProse.Base64
