import CodeProse.Json.Basic
import CodeProse.Text.Base64
import CodeProse.Yaml.Resolution

/-!
# YAML values

What nodes stand for. Only the types of the YAML repository are known. A mapping keeps the
entries that stand under texts, in the order in which later ones win.
-/

set_option autoImplicit false

namespace CodeProse.Yaml

/-- The value of a node. -/
inductive Value where
  | null
  | bool (value : Bool)
  | int (value : Int)
  | real (value : Binary64)
  | text (value : Text)
  | time (moment : Moment)
  | bytes (data : List UInt8)
  | list (items : List Value)
  | set
  | mapping (entries : List (Text × Value))

namespace Value

instance : Inhabited Value := ⟨null⟩

/-- The entry of a mapping that was written last under a name. -/
def entry? (name : Text) (entries : List (Text × Value)) : Option Value :=
  entries.reverse.lookup name

mutual

/-- The value that a JSON value stands for. -/
def ofJson : Json → Value
  | .null => null
  | .bool value => bool value
  | .int value => int value
  | .float value => real value
  | .string value => text value
  | .array items => list (ofJsonItems items)
  | .object members => mapping (ofJsonMembers members)

/-- The values that the items of a JSON array stand for. -/
def ofJsonItems : List Json → List Value
  | [] => []
  | item :: rest => ofJson item :: ofJsonItems rest

/-- The entries that the members of a JSON object stand for. -/
def ofJsonMembers : List (Text × Json) → List (Text × Value)
  | [] => []
  | (name, value) :: rest => (name, ofJson value) :: ofJsonMembers rest

end

end Value

/-! ## Numbers -/

/-- The value of a digit up to `z`. -/
def radixDigit? (radix : Nat) (char : CodePoint) : Option Nat :=
  let value? :=
    if 'a' ≤ char && char ≤ 'z' then some (char.toNat - 87)
    else if 'A' ≤ char && char ≤ 'Z' then some (char.toNat - 55)
    else digitValue? char
  value?.filter (· < radix)

/-- The text behind the mark of a radix, which may be missing. -/
def dropRadixMark (mark : CodePoint) (text : Text) : Text :=
  match text with
  | '0' :: letter :: rest => if letter.asciiLower = mark then rest else text
  | _ => text

/-- The integer that a text stands for in a radix. -/
def radixInt? (radix : Nat) (mark : CodePoint) (text : Text) : Option Int :=
  let (negative, magnitude) := splitSign (trimNumber text)
  let digits := dropRadixMark mark magnitude
  if digits.isEmpty then none
  else
    (digits.foldlM
      (fun value char => (radixDigit? radix char).map fun digit => value * radix + digit)
      0).map fun value : Nat => if negative then -(value : Int) else value

/-- The integer of an unsigned text: binary, hexadecimal, octal, sexagesimal or decimal. -/
def unsignedInt? (text : Text) : Option Int :=
  match text with
  | ['0'] => some 0
  | '0' :: 'b' :: rest => radixInt? 2 'b' rest
  | '0' :: 'x' :: rest => radixInt? 16 'x' rest
  | '0' :: _ => radixInt? 8 'o' text
  | _ =>
      if text.elem (.scalar ':') then do
        let digits ← (text.splitOn (.scalar ':')).mapM readInt?
        return digits.foldl (fun value digit => value * 60 + digit) 0
      else readInt? text

/-- The integer that a scalar stands for. Low lines are passed over. -/
def intOf (text : Text) : Except Fault Int :=
  let plain := text.filter (· != .scalar '_')
  let (negative, magnitude) := splitSign plain
  if magnitude.isEmpty then .error .emptyNumber
  else
    match unsignedInt? magnitude with
    | some value => .ok (if negative then -value else value)
    | none => .error .unreadableNumber

/-- The sum of sexagesimal digits, the last of them the units. No place may be worth more than
the numbers of the format. -/
def sexagesimalSum (digits : List Binary64) : Except Fault Binary64 :=
  digits.reverse.zipIdx.foldlM
    (fun sum (digit, place) =>
      match Binary64.ofInt? (Nat.pow 60 place) with
      | some worth => .ok (sum + digit * worth)
      | none => .error .numberTooLarge)
    0

/-- The number that a scalar stands for. Low lines are passed over. -/
def realOf (text : Text) : Except Fault Binary64 :=
  let plain := Text.asciiLower (text.filter (· != .scalar '_'))
  let (negative, magnitude) := splitSign plain
  let signed (value : Binary64) : Binary64 := if negative then -value else value
  if plain.isEmpty then .error .emptyNumber
  else if magnitude = ".inf" then .ok (.infinite negative)
  else if magnitude = ".nan" then .ok .nan
  else if magnitude.elem (.scalar ':') then
    match (magnitude.splitOn (.scalar ':')).mapM readBinary64? with
    | some digits => (sexagesimalSum digits).map signed
    | none => .error .unreadableNumber
  else
    match readBinary64? magnitude with
    | some value => .ok (signed value)
    | none => .error .unreadableNumber

/-! ## Times and other scalars -/

/-- How many days a month has. -/
def daysIn (year month : Nat) : Nat :=
  if month = 2 then
    if year % 4 = 0 && (year % 100 ≠ 0 || year % 400 = 0) then 29 else 28
  else if [4, 6, 9, 11].contains month then 30
  else 31

/-- Whether a point in time exists. -/
def Moment.exists? (moment : Moment) : Bool :=
  let (hour, minute, second) := moment.clock.getD (0, 0, 0)
  1 ≤ moment.year && 1 ≤ moment.month && moment.month ≤ 12 && 1 ≤ moment.day &&
    moment.day ≤ daysIn moment.year moment.month && hour < 24 && minute < 60 && second < 60 &&
    moment.zoneMinutes < 24 * 60

/-- The point in time that a scalar stands for. -/
def timeOf (text : Text) : Except Fault Value :=
  match moment? text with
  | none => .error .unreadableTime
  | some moment => if moment.exists? then .ok (.time moment) else .error .impossibleTime

/-- The truth value that a scalar stands for, whatever the case of its letters. -/
def truthOf (text : Text) : Except Fault Value :=
  let lower := Text.asciiLower text
  if truthWords.contains lower then .ok (.bool true)
  else if falsehoodWords.contains lower then .ok (.bool false)
  else .error .unknownTruthValue

/-- The bytes that a scalar in ASCII stands for. -/
def bytesOf (text : Text) : Except Fault Value := do
  if text.any fun char => 128 ≤ char.toNat then throw .malformed
  return .bytes (← orMalformed (Base64.decode? text))

/-- How the text of a scalar is read under the tag of a type; nothing for a tag that is not
known. -/
def scalarReader? (tag : Text) : Option (Text → Except Fault Value) :=
  if tag = typeTag "str" then some fun text => .ok (.text text)
  else if tag = typeTag "null" then some fun _ => .ok .null
  else if tag = typeTag "bool" then some truthOf
  else if tag = typeTag "int" then some fun text => (intOf text).map Value.int
  else if tag = typeTag "float" then some fun text => (realOf text).map Value.real
  else if tag = typeTag "timestamp" then some timeOf
  else if tag = typeTag "binary" then some bytesOf
  else none

end CodeProse.Yaml
