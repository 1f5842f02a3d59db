import CodeProse.Document.Coordinates
import CodeProse.Sequence

/-!
# Edits

An edit replaces a stretch of a text. Edits by offset are applied from the back to the front,
so that an edit does not move the offsets of those still to come; of edits with one start the
first in the list is applied first.
-/

set_option autoImplicit false

namespace CodeProse

/-- New text for the stretch between two bounds. -/
structure OffsetEdit where
  start : Int
  stop : Int
  replacement : Text
deriving DecidableEq

/-- New text for a range. -/
structure Edit where
  range : Range
  replacement : Text
deriving DecidableEq

/-- The text with one stretch replaced. What stands before the start and what stands from the
stop on are kept, also when the two overlap. -/
def OffsetEdit.apply (text : Text) (edit : OffsetEdit) : Text :=
  upTo text edit.start ++ edit.replacement ++ since text edit.stop

/-- Edits with the last start first. -/
def backToFront (edits : List OffsetEdit) : List OffsetEdit :=
  stableSort (fun left right => right.start ≤ left.start) edits

/-- The text with every edit applied, from the back to the front. -/
def applyEdits (text : Text) (edits : List OffsetEdit) : Text :=
  (backToFront edits).foldl OffsetEdit.apply text

/-- The edit with offsets in place of positions; refused when an end lies outside the text or
the ends are out of order. -/
def Edit.resolve? (text : Text) (edit : Edit) : Option OffsetEdit := do
  let start ← checkedOffset? text edit.range.start
  let stop ← checkedOffset? text edit.range.stop
  if stop < start then none else some ⟨start, stop, edit.replacement⟩

/-- Edits by start, and by stop where they start together. -/
def inDocumentOrder (edits : List OffsetEdit) : List OffsetEdit :=
  stableSort
    (fun left right =>
      left.start < right.start || (left.start == right.start && left.stop ≤ right.stop))
    edits

def areSeparate : List OffsetEdit → Bool
  | first :: second :: rest => first.stop ≤ second.start && areSeparate (second :: rest)
  | _ => true

/-- The text with every range replaced, or nothing when an edit is refused or two overlap. -/
def replaceRanges? (text : Text) (edits : List Edit) : Option Text := do
  let resolved ← edits.mapM (Edit.resolve? text)
  let ordered := inDocumentOrder resolved
  if areSeparate ordered then some (applyEdits text ordered) else none

end CodeProse
