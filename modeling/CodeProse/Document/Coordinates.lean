import CodeProse.Document.Position
import CodeProse.Sequence
import CodeProse.Text.Basic

/-!
# Offsets and positions

Two ways to name a place in a text: the number of characters before it, or its line and
column. Both directions move what lies outside the text to the nearest place inside; the
checked direction refuses it instead.
-/

set_option autoImplicit false

namespace CodeProse

/-- A whole number moved to the nearest one from zero to `limit`. -/
def clampTo (limit : Nat) (value : Int) : Nat :=
  min value.toNat limit

def positionAt (text : Text) (offset : Int) : Position :=
  let before := text.take (clampTo text.length offset)
  ⟨before.count (.scalar '\n'), (before.reverse.takeWhile (· ≠ .scalar '\n')).length⟩

/-- The offset at which a line starts, given the lines of the text. -/
def lineStart (lines : List Text) (line : Nat) : Nat :=
  total ((lines.take line).map fun text => text.length + 1)

def lineLength (lines : List Text) (line : Nat) : Nat :=
  (lines.getD line []).length

/-- The offset of a position. A line outside the text is moved to the first or the last one,
then a column outside the line to the nearer end of it. -/
def offsetAt (text : Text) (position : Position) : Nat :=
  let lines := text.lines
  let line := clampTo (lines.length - 1) position.line
  lineStart lines line + clampTo (lineLength lines line) position.column

/-- The offset of a position that lies in the text. -/
def checkedOffset? (text : Text) (position : Position) : Option Nat :=
  let lines := text.lines
  if position.line < 0 ∨ position.column < 0 ∨ (lines.length : Int) ≤ position.line then none
  else
    let line := position.line.toNat
    if (lineLength lines line : Int) < position.column then none
    else some (lineStart lines line + position.column.toNat)

end CodeProse
