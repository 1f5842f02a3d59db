import CodeProse.Document.Position
import CodeProse.Numeric.Binary64
import CodeProse.Text.Basic

/-!
# Corrections

A correction sets the prose of a span, its draft, beside the prose that should stand in its
place.
-/

set_option autoImplicit false

namespace CodeProse

structure Change where
  kind : Text
  draft : Text
  corrected : Text
  explanation : Option Text
deriving DecidableEq

/-- The new text for the prose of a range. -/
structure Correction where
  text : Text
  draft : Text
  range : Range
  confidence : Binary64
  changes : List Change := []
deriving DecidableEq

def Correction.changed (correction : Correction) : Bool :=
  correction.text != correction.draft

end CodeProse
