import CodeProse.Language.Classification

/-!
# Cleaning

Takes the marks of the code off a piece of prose: comment openers and closers, the quotes
around literals and documentation strings, the stars in front of the lines of a block, and the
blanks around every line. Each mark is taken off once, at its own place.
-/

set_option autoImplicit false

namespace CodeProse

/-- The text behind two slashes or more and the blanks after them. -/
def dropSlashes (text : Text) : Text :=
  if "//".toText.isPrefixOf text then Text.trimStart (text.dropWhile (· == .scalar '/')) else text

/-- The text behind a slash, its stars and the blanks after them. -/
def dropBlockOpener (text : Text) : Text :=
  if "/*".toText.isPrefixOf text then Text.trimStart ((text.drop 1).dropWhile (· == .scalar '*'))
  else text

/-- The text before the stars and the slash at its end, and before the blanks in front of
them. -/
def dropBlockCloser (text : Text) : Text :=
  match text.reverse with
  | '/' :: '*' :: rest => ((rest.dropWhile (· == .scalar '*')).dropWhile isBlank).reverse
  | _ => text

/-- The text behind a number sign and the blanks after it. -/
def dropNumberSign : Text → Text
  | '#' :: rest => Text.trimStart rest
  | text => text

/-- A line without the stars in front of it and one blank after them. A star directly before a
slash is kept. -/
def dropStars (line : Text) : Text :=
  if "*".toText.isPrefixOf line then
    match line.dropWhile (· == .scalar '*') with
    | [] => []
    | char :: rest =>
        if char == '/' then .scalar '*' :: char :: rest
        else if isBlank char then rest
        else char :: rest
  else line

/-- Every line without the stars in front of it and the blanks around it. -/
def cleanLines (text : Text) : Text :=
  Text.unlines (text.lines.map fun line => Text.trim (dropStars (Text.trim line)))

/-- A letter that may stand before a triple quote. -/
def isQuoteLead (char : CodePoint) : Bool :=
  char == 'r' || char == 'R' || char == 'u' || char == 'U'

def tripleQuoteAt? (text : Text) : Option Text :=
  tripleQuotes.find? fun delimiter => delimiter.isPrefixOf text

/-- The triple quote at the front of a text, or behind one lead letter there. -/
def leadingTripleQuote? (text : Text) : Option Text :=
  match text with
  | char :: rest => if isQuoteLead char then tripleQuoteAt? rest else tripleQuoteAt? text
  | [] => none

/-- The text behind a triple quote with its lead letter. -/
def dropTripleOpener (text : Text) : Text :=
  match leadingTripleQuote? text with
  | some delimiter =>
      if text.head?.any isQuoteLead then text.drop (1 + delimiter.length)
      else text.drop delimiter.length
  | none => text

def dropTripleCloser (text : Text) : Text :=
  if tripleQuotes.any fun delimiter => delimiter.isSuffixOf text then
    text.take (text.length - 3)
  else text

/-- The text behind a slash with two stars, or behind three slashes, and the blanks after
them. -/
def dropDocumentationOpener (text : Text) : Text :=
  if "/**".toText.isPrefixOf text || "///".toText.isPrefixOf text then
    Text.trimStart (text.drop 3)
  else text

/-- The text without the star and the slash at its end, or before a line feed at its end, and
without the blanks in front of them. -/
def dropDocumentationCloser (text : Text) : Text :=
  match text.reverse with
  | '/' :: '*' :: rest => (rest.dropWhile isBlank).reverse
  | '\n' :: '/' :: '*' :: rest => (.scalar '\n' :: rest.dropWhile isBlank).reverse
  | _ => text

def dropOpeningQuote : Text → Text
  | [] => []
  | char :: rest => if quoteChars.contains char then rest else char :: rest

def dropClosingQuote (text : Text) : Text :=
  (dropOpeningQuote text.reverse).reverse

namespace ProseKind

def unmark : ProseKind → Text → Text
  | comment, text =>
      cleanLines (dropNumberSign (dropBlockCloser (dropBlockOpener (dropSlashes text))))
  | docstring, text =>
      cleanLines
        (dropDocumentationCloser
          (dropDocumentationOpener (dropTripleCloser (dropTripleOpener text))))
  | string, text => dropClosingQuote (dropOpeningQuote text)

/-- The prose of a piece of code. Of a piece of no known kind only the blanks around it are
taken off. -/
def clean (kind? : Option ProseKind) (text : Text) : Text :=
  match kind? with
  | some kind => Text.trim (kind.unmark (Text.trim text))
  | none => Text.trim text

end ProseKind

end CodeProse
