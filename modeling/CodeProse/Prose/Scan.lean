import CodeProse.Prose.Fragment

/-!
# Scanning code

A scan goes through the lines of a code once. It is in plain code, inside a block comment or
inside a documentation string; every line moves it from one of these modes to the next and
gives some fragments. A block that is still open at the end gives none.
-/

set_option autoImplicit false

namespace CodeProse

/-- Where a scan is when it comes to a line. Inside a block it remembers the number of the
first line, that line, and the lines since. -/
inductive ScanMode where
  | code
  | blockComment (startLine : Nat) (first : Text) (inner : List Text)
  | docstring (delimiter : Text) (startLine : Nat) (first : Text) (inner : List Text)
deriving DecidableEq

/-- What a scan asks of a language: what a line carries, and which blocks may open. -/
structure ScanRules where
  classify? : Text → Option ProseKind
  starBlocks : Bool
  tripleQuotes : Bool

def Registry.scanRules (registry : Registry) (language : Text) : ScanRules where
  classify? := registry.classify? language
  starBlocks :=
    (registry.candidates language).any fun definition =>
      definition.comments.blockStarts.any LinePattern.opensStarBlock
  tripleQuotes :=
    (registry.candidates language).any fun definition =>
      definition.docstrings.any LinePattern.isTripleQuote

/-- Whether a line opens a block comment that it does not close. -/
def opensBlock (line : Text) : Bool :=
  !Text.contains "*/" line && (LinePattern.opensWith "/*").fits line

/-- The triple quote with which a line opens a documentation string that it does not close. -/
def opensDocstring? (line : Text) : Option Text :=
  match leadingTripleQuote? (Text.trimStart line) with
  | some delimiter => if Text.count delimiter line = 1 then some delimiter else none
  | none => none

def scanLine (rules : ScanRules) (mode : ScanMode) (index : Nat) (line : Text) :
    ScanMode × List Fragment :=
  match mode with
  | .docstring delimiter startLine first inner =>
      if Text.contains delimiter line then
        (.code,
          [Fragment.ofBlock .docstring delimiter delimiter startLine index first inner line])
      else (.docstring delimiter startLine first (inner ++ [line]), [])
  | .blockComment startLine first inner =>
      if Text.contains "*/" line then
        (.code, [Fragment.ofBlock .comment "/*" "*/" startLine index first inner line])
      else (.blockComment startLine first (inner ++ [line]), [])
  | .code =>
      if rules.starBlocks && opensBlock line then (.blockComment index line [], [])
      else
        match if rules.tripleQuotes then opensDocstring? line else none with
        | some delimiter => (.docstring delimiter index line [], [])
        | none => (.code, Fragment.ofLine index line (rules.classify? line))

/-- Scans lines that are numbered from `index` on. The result is the mode behind the last line
and all fragments in order. -/
def scanFrom (rules : ScanRules) : ScanMode → Nat → List Text → ScanMode × List Fragment
  | mode, _, [] => (mode, [])
  | mode, index, line :: rest =>
      let (next, fragments) := scanLine rules mode index line
      let (last, more) := scanFrom rules next (index + 1) rest
      (last, fragments ++ more)

def dropCarriageReturn (line : Text) : Text :=
  if line.getLast? = some (.scalar '\r') then line.dropLast else line

/-- The lines of a code, which a line feed ends, alone or behind a carriage return. -/
def codeLines (code : Text) : List Text :=
  let lines := code.lines
  lines.dropLast.map dropCarriageReturn ++ lines.getLast?.toList

end CodeProse
