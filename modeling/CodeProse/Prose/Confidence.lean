import CodeProse.Language.Classification
import CodeProse.Numeric.Binary64
import CodeProse.Text.CharacterClass

/-!
# Confidence

How likely a piece of text is prose, from zero to one. Short texts and texts with many symbols
lose, a sentence mark at the end and a documentation string gain. The sums are those of
binary64 numbers, each rounded, in this order.
-/

set_option autoImplicit false

namespace CodeProse

/-- Whether a text ends in a sentence mark, before a line feed at its end. -/
def endsSentence (text : Text) : Bool :=
  let marks : Text := ".!?"
  match text.reverse with
  | '\n' :: char :: _ => marks.elem char
  | char :: _ => marks.elem char
  | [] => false

def symbolCount (text : Text) : Nat :=
  text.countP fun char => !isAlphanumeric char && !isBlank char

/-- The share of symbols in a text, zero in the empty one. -/
def symbolRatio (text : Text) : Binary64 :=
  if text.isEmpty then 0 else Binary64.ofNat (symbolCount text) / Binary64.ofNat text.length

/-- The confidence in a text of a kind; a kind that is not known counts like a comment. -/
def confidence (kind? : Option ProseKind) (text : Text) : Binary64 :=
  let tenth := Binary64.ofFraction 1 1
  let byLength : Binary64 := if text.length < 10 then 1 - Binary64.ofFraction 2 1 else 1
  let bySentence := if endsSentence text then byLength + tenth else byLength
  let ratio := symbolRatio text
  let bySymbols :=
    if Binary64.less (Binary64.ofFraction 3 1) ratio then
      bySentence - ratio * Binary64.ofFraction 5 1
    else bySentence
  let byKind := if kind? = some .docstring then bySymbols + tenth else bySymbols
  byKind.clampUnit

/-- Spans below or at this confidence are not prose. -/
def confidenceThreshold : Binary64 := Binary64.ofFraction 3 1

end CodeProse
