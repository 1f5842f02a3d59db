import CodeProse.Document.Position
import CodeProse.Language.Classification
import CodeProse.Numeric.Binary64
import CodeProse.Sequence

/-!
# Spans

A span is a piece of prose with the place it was found in. Spans are listed by falling
confidence, equals in the order in which they were found; a summary counts them by kind.
-/

set_option autoImplicit false

namespace CodeProse

structure Span where
  text : Text
  kind : ProseKind
  range : Range
  confidence : Binary64
  context : Option Text := none
deriving DecidableEq

namespace Span

def byConfidence (spans : List Span) : List Span :=
  stableSort (fun left right => Binary64.lessEq right.confidence left.confidence) spans

def inDocumentOrder (spans : List Span) : List Span :=
  stableSort (fun left right => left.range.notAfter right.range) spans

end Span

structure SpanSummary where
  segments : Nat
  totalCharacters : Nat
  averageConfidence : Binary64
  byKind : List (ProseKind × Nat)
deriving DecidableEq

/-- Summarises spans. The confidences are added in the order of the list. -/
def SpanSummary.ofSpans (spans : List Span) : SpanSummary where
  segments := spans.length
  totalCharacters := total (spans.map fun span => span.text.length)
  averageConfidence :=
    if spans.isEmpty then 0
    else
      spans.foldl (fun sum span => sum + span.confidence) 0 / Binary64.ofNat spans.length
  byKind :=
    ([ProseKind.comment, .docstring, .string].map fun kind =>
        (kind, spans.countP fun span => span.kind = kind)).filter
      fun entry => entry.2 != 0

end CodeProse
