import CodeProse.Prose.Cleaning

/-!
# Replacements

The source of a span holds its prose between markers of the code. A replacement puts corrected
prose in the place of the draft and keeps the markers: by replacing the draft where it stands
as a whole, line by line where every line of it stands in a line of the source, and
otherwise by writing the lines anew between the opener and the closer of the source.
-/

set_option autoImplicit false

namespace CodeProse

/-- Blanks that may stand around the markers of a line. -/
def isMargin (char : CodePoint) : Bool :=
  char == ' ' || char == '\t'

def runLength (test : CodePoint → Bool) (text : Text) : Nat :=
  (text.takeWhile test).length

/-- The length of the stars at the front of a text; a star directly before a slash does not
count. -/
def starsLength (text : Text) : Nat :=
  let stars := runLength (· == .scalar '*') text
  if (text.drop stars).head? = some (.scalar '/') then stars - 1 else stars

/-- The length of the marker that opens prose at the front of a text. -/
def openerMarker (text : Text) : Nat :=
  if "/*".toText.isPrefixOf text then 1 + runLength (· == .scalar '*') (text.drop 1)
  else if (leadingTripleQuote? text).isSome then
    if text.head?.any isQuoteLead then 4 else 3
  else if "//".toText.isPrefixOf text then runLength (· == .scalar '/') text
  else if "#".toText.isPrefixOf text then 1
  else starsLength text

def continuationMarker (text : Text) : Nat :=
  if "//".toText.isPrefixOf text then runLength (· == .scalar '/') text
  else if "#".toText.isPrefixOf text then 1
  else starsLength text

/-- The length of the margin, the marker and the margin behind it at the front of a line. -/
def frontLength (marker : Text → Nat) (line : Text) : Nat :=
  let margin := runLength isMargin line
  let behind := margin + marker (line.drop margin)
  behind + runLength isMargin (line.drop behind)

/-- Where the margin, the closer and the margin at the end of a line start. -/
def backStart (line : Text) : Nat :=
  let body := Text.dropEndWhile isMargin line
  let inner :=
    match body.reverse with
    | '/' :: '*' :: rest => (rest.dropWhile (· == .scalar '*')).reverse
    | _ =>
        if tripleQuotes.any fun delimiter => delimiter.isSuffixOf body then
          body.take (body.length - 3)
        else body
  (Text.dropEndWhile isMargin inner).length

def isCloserLine (line : Text) : Bool :=
  backStart line == 0

/-- What stands in front of the prose of a further line: the front of the first such line in
the source that holds prose, or the indentation of the source's first line. -/
def continuationFront (first : Text) (further : List Text) : Text :=
  let fronts :=
    further.filterMap fun line =>
      let length := frontLength continuationMarker line
      if Text.isBlank (line.drop length) || isCloserLine line then none
      else some (line.take length)
  fronts.headD (first.takeWhile isBlank)

/-- A line of prose behind what stands in front of it. A blank line keeps no blanks at its
end. -/
def frontedLine (front line : Text) : Text :=
  if Text.isBlank line then Text.trimEnd (front ++ line) else front ++ line

def appendToLast (suffix : Text) : List Text → List Text
  | [] => []
  | [line] => [line ++ suffix]
  | line :: rest => line :: appendToLast suffix rest

def rebuildLine (source : Text) (corrected : List Text) : List Text :=
  let length := frontLength openerMarker source
  let closing := source.drop length
  let front := source.takeWhile isBlank
  let body :=
    match corrected with
    | [] => []
    | line :: rest => frontedLine (source.take length) line :: rest.map (frontedLine front)
  appendToLast (closing.drop (backStart closing)) body

/-- The corrected lines between the opener and the closer of a source on several lines. A first
or last line of the source without prose is kept whole. -/
def rebuildLines (first : Text) (inner : List Text) (last : Text) (corrected : List Text) :
    List Text :=
  let length := frontLength openerMarker first
  let bareOpener := Text.isBlank (first.drop length)
  let closerStart := backStart last
  let bareCloser := Text.isBlank (last.take closerStart)
  let front := continuationFront first (inner ++ [last])
  let body :=
    match corrected with
    | [] => []
    | line :: rest =>
        frontedLine (if bareOpener then front else first.take length) line ::
          rest.map (frontedLine front)
  (if bareOpener then [first] else []) ++
    appendToLast (if bareCloser then [] else last.drop closerStart) body ++
    (if bareCloser then [last] else [])

def rebuild (source corrected : List Text) : List Text :=
  match source with
  | [] => corrected
  | [line] => rebuildLine line corrected
  | first :: second :: rest =>
      rebuildLines first ((second :: rest).dropLast) ((second :: rest).getLastD []) corrected

/-- The source with each line of the draft replaced, in order, in the first line that holds it.
Blank lines of the draft are passed over, and must be blank in the correction. -/
def spliceLines? : List (Text × Text) → List Text → Option (List Text)
  | [], source => some source
  | (draft, corrected) :: pairs, source =>
      if Text.isBlank draft then
        if Text.isBlank corrected then spliceLines? pairs source else none
      else
        match source.findIdx? (Text.contains draft) with
        | none => none
        | some index =>
            (spliceLines? pairs (source.drop (index + 1))).map fun rest =>
              source.take index ++
                Text.replaceFirst draft corrected (source.getD index []) :: rest

/-- The source of a span with its prose replaced. -/
def buildReplacement (source draft corrected : Text) : Text :=
  if draft = corrected then source
  else if !draft.isEmpty && Text.contains draft source then
    Text.replaceFirst draft corrected source
  else
    let spliced :=
      if draft.lines.length = corrected.lines.length then
        spliceLines? (draft.lines.zip corrected.lines) source.lines
      else none
    Text.unlines (spliced.getD (rebuild source.lines corrected.lines))

end CodeProse
