import CodeProse.Language.Quotation
import CodeProse.Text.Blank

/-!
# Line patterns

What a language looks for in a line of code to recognise prose: a marker at the front or the
end, a documentation block that opens and closes, or a string literal anywhere.
-/

set_option autoImplicit false

namespace CodeProse

/-- A shape that a line of code may have. -/
inductive LinePattern where
  /-- Blanks and then the marker, at the front. -/
  | opensWith (marker : Text)
  /-- The marker and then blanks, at the end. -/
  | closesWith (marker : Text)
  /-- Blanks and then a block with two stars, at the front, which closes later. -/
  | opensDocumentationBlock
  /-- Blanks, the lead and then three equal quotes, at the front. -/
  | opensTripleQuote (lead : Text)
  /-- The lead directly before a quotation, anywhere. -/
  | holdsQuotation (lead : Text) (quotes : List CodePoint) (overLines : Bool)
  /-- The lead and a later occurrence of the quote, anywhere. -/
  | holdsVerbatim (lead : Text) (quote : CodePoint)
  /-- The lead, number signs, a quote and a later quote, anywhere. -/
  | holdsHashed (lead : CodePoint) (quote : CodePoint)
deriving DecidableEq

/-- Whether some end part of a text, the empty one included, satisfies a test. -/
def someTail (test : Text → Bool) : Text → Bool
  | [] => test []
  | char :: rest => test (char :: rest) || someTail test rest

def tripleQuotes : List Text :=
  [['"', '"', '"'], ['\'', '\'', '\'']]

/-- What follows a fixed piece at the front of a text. -/
def after? (lead text : Text) : Option Text :=
  if lead.isPrefixOf text then some (text.drop lead.length) else none

namespace LinePattern

def fits : LinePattern → Text → Bool
  | opensWith marker, line => marker.isPrefixOf line.trimStart
  | closesWith marker, line => marker.isSuffixOf line.trimEnd
  | opensDocumentationBlock, line =>
      match after? "/**" line.trimStart with
      | some rest => Text.contains "*/" rest
      | none => false
  | opensTripleQuote lead, line =>
      tripleQuotes.any fun delimiter => (lead ++ delimiter).isPrefixOf line.trimStart
  | holdsQuotation lead quotes overLines, line =>
      someTail
        (fun tail =>
          match after? lead tail with
          | some rest => startsQuotation quotes overLines rest
          | none => false)
        line
  | holdsVerbatim lead quote, line =>
      someTail
        (fun tail =>
          match after? lead tail with
          | some rest => rest.elem quote
          | none => false)
        line
  | holdsHashed lead quote, line =>
      someTail
        (fun tail =>
          match after? [lead] tail with
          | some rest =>
              match rest.dropWhile (· == .scalar '#') with
              | char :: inside => char == quote && inside.elem quote
              | [] => false
          | none => false)
        line

/-- Whether the shape is a block comment that a slash and a star open. -/
def opensStarBlock : LinePattern → Bool
  | opensWith marker => Text.contains "/*" marker
  | _ => false

/-- Whether the shape is a documentation text between triple quotes. -/
def isTripleQuote : LinePattern → Bool
  | opensTripleQuote _ => true
  | _ => false

end LinePattern

end CodeProse
