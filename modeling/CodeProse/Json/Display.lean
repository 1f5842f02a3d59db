import CodeProse.Json.Basic
import CodeProse.Numeric.Decimal
import CodeProse.Text.Quoted

/-!
# JSON values inside texts

How a JSON value is shown where a text is wanted: a string as it stands, anything else in a
notation of its own, with `None`, `True` and `False`, and quoted strings inside lists and
objects.
-/

set_option autoImplicit false

namespace CodeProse.Json

/-- Whether a value is empty: nothing, false, zero, or without parts. -/
def isEmpty : Json → Bool
  | null => true
  | bool value => !value
  | int value => value = 0
  | float value => value.isZero
  | string text => text.isEmpty
  | array items => items.isEmpty
  | object members => members.isEmpty

mutual

/-- A value in the notation used inside lists and objects. -/
def shown : Json → Text
  | null => "None"
  | bool true => "True"
  | bool false => "False"
  | int value => Text.ofInt value
  | float value => value.shortest
  | string text => text.quoted
  | array items => .scalar '[' :: ", ".toText.intercalate (shownItems items) ++ "]".toText
  | object members => .scalar '\x7b' :: ", ".toText.intercalate (shownMembers members) ++ "\x7d".toText

def shownItems : List Json → List Text
  | [] => []
  | item :: rest => shown item :: shownItems rest

def shownMembers : List (Text × Json) → List Text
  | [] => []
  | (name, value) :: rest => (name.quoted ++ ": ".toText ++ shown value) :: shownMembers rest

end

def display : Json → Text
  | string text => text
  | value => shown value

end CodeProse.Json
