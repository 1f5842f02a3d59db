/-!
# Positions and ranges

A position is a line and a column, both counted from zero. Positions are ordered by line and
then by column. A range reaches from its start up to its stop, and need not be well formed:
both ends may lie outside every text, or be out of order.
-/

set_option autoImplicit false

namespace CodeProse

/-- A place in a text, by line and column. -/
structure Position where
  line : Int
  column : Int
deriving DecidableEq

namespace Position

def zero : Position := ⟨0, 0⟩

instance : LT Position :=
  ⟨fun left right => left.line < right.line ∨ left.line = right.line ∧ left.column < right.column⟩

instance : LE Position :=
  ⟨fun left right => left.line < right.line ∨ left.line = right.line ∧ left.column ≤ right.column⟩

instance (left right : Position) : Decidable (left < right) :=
  inferInstanceAs (Decidable (_ ∨ _))

instance (left right : Position) : Decidable (left ≤ right) :=
  inferInstanceAs (Decidable (_ ∨ _))

def shifted (position : Position) (lines columns : Int) : Position :=
  ⟨position.line + lines, position.column + columns⟩

/-- The position of a place in a text that itself starts at `origin`. Only the places on its
first line share that line's columns. -/
def within (origin : Position) (line column : Nat) : Position :=
  if line = 0 then ⟨origin.line, origin.column + column⟩ else ⟨origin.line + line, column⟩

end Position

/-- The stretch of a text between two positions. -/
structure Range where
  start : Position
  stop : Position
deriving DecidableEq

namespace Range

def isEmpty (range : Range) : Bool :=
  range.start = range.stop

/-- Whether two ranges have a position in common; touching ends count. -/
def intersects (left right : Range) : Bool :=
  left.start ≤ right.stop && right.start ≤ left.stop

/-- Whether one range stands before another or in the same place: by start, then by stop. -/
def notAfter (left right : Range) : Bool :=
  left.start < right.start || (left.start = right.start && left.stop ≤ right.stop)

end Range

end CodeProse
