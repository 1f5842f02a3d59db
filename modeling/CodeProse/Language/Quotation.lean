import CodeProse.Text.Basic

/-!
# Quotations

A quotation is a stretch of text between two equal quotes. Inside it a backslash takes the
character behind it along, so an escaped quote does not end the quotation; the escaped
character is never a line feed. A quotation either stays on one line or may run over line
feeds.
-/

set_option autoImplicit false

namespace CodeProse

/-- How many characters stand before the quote that ends a quotation, read behind its opening
quote. -/
def closingQuote? (quote : CodePoint) (overLines : Bool) : Text → Option Nat
  | [] => none
  | [char] => if char = quote then some 0 else none
  | char :: next :: rest =>
      if char = quote then some 0
      else if char = '\\' then
        if next = '\n' then none else (closingQuote? quote overLines rest).map (· + 2)
      else if char = '\n' && !overLines then none
      else (closingQuote? quote overLines (next :: rest)).map (· + 1)

/-- Whether a quotation with one of the given quotes starts at the front of a text. -/
def startsQuotation (quotes : List CodePoint) (overLines : Bool) : Text → Bool
  | [] => false
  | char :: rest => quotes.contains char && (closingQuote? char overLines rest).isSome

/-- A quotation inside a line: the offset of its opening quote, the quote, and what stands
between the quotes. -/
structure Quotation where
  offset : Nat
  quote : CodePoint
  content : Text
deriving DecidableEq

/-- The quotes that may open a quotation in any language. -/
def quoteChars : List CodePoint := [.scalar '\'', .scalar '"', .scalar '\x60']

/-- The quotations of a text that starts at `offset`, from the front and without overlap. The
first `skip` characters belong to a quotation already found. -/
def quotationsFrom : Nat → Nat → Text → List Quotation
  | _, _, [] => []
  | offset, skip + 1, _ :: rest => quotationsFrom (offset + 1) skip rest
  | offset, 0, char :: rest =>
      if quoteChars.contains char then
        match closingQuote? char false rest with
        | some length =>
            ⟨offset, char, rest.take length⟩ :: quotationsFrom (offset + 1) (length + 1) rest
        | none => quotationsFrom (offset + 1) 0 rest
      else quotationsFrom (offset + 1) 0 rest

def quotations (line : Text) : List Quotation :=
  quotationsFrom 0 0 line

end CodeProse
