import CodeProse.Numeric.Binary64
import CodeProse.Text.Basic

/-!
# JSON values

A JSON value keeps the order of its members and tells whole numbers from fractions. A member
that is written again keeps its first place and takes the new value.
-/

set_option autoImplicit false

namespace CodeProse

inductive Json where
  | null
  | bool (value : Bool)
  | int (value : Int)
  | float (value : Binary64)
  | string (value : Text)
  | array (items : List Json)
  | object (members : List (Text × Json))

namespace Json

instance : Inhabited Json := ⟨null⟩

/-- Sets the member `name`, in its place if there is one and at the end otherwise. -/
def setMember (name : Text) (value : Json) : List (Text × Json) → List (Text × Json)
  | [] => [(name, value)]
  | (other, old) :: rest =>
      if other = name then (name, value) :: rest else (other, old) :: setMember name value rest

def member? (name : Text) (members : List (Text × Json)) : Option Json :=
  members.lookup name

/-- The value of a member of an object; `null` for a missing one and for other values. -/
def field (name : Text) : Json → Json
  | object members => (member? name members).getD null
  | _ => null

mutual

/-- The value with `change` applied to every part that has no parts of its own. -/
def mapLeaves (change : Json → Json) : Json → Json
  | array items => array (mapItems change items)
  | object members => object (mapMembers change members)
  | leaf => change leaf

def mapItems (change : Json → Json) : List Json → List Json
  | [] => []
  | item :: rest => mapLeaves change item :: mapItems change rest

def mapMembers (change : Json → Json) : List (Text × Json) → List (Text × Json)
  | [] => []
  | (name, value) :: rest => (name, mapLeaves change value) :: mapMembers change rest

end

def strings (texts : List Text) : Json :=
  array (texts.map string)

/-- A text, or `null` where there is none. -/
def ofText? : Option Text → Json
  | some text => string text
  | none => null

def ofNat (value : Nat) : Json :=
  int value

end Json

end CodeProse
