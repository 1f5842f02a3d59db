import CodeProse.Document.Stored
import CodeProse.Language.Classification
import CodeProse.Numeric.Decimal
import CodeProse.Run.Apply

/-!
# Reports

The lines that the commands print: the spans of a file, a summary of them, and the corrections
that a run proposes. Lines and columns count from one, and files are named by the way from the
working directory where they lie below it.
-/

set_option autoImplicit false

namespace CodeProse

/-- How many characters of a text a report shows. -/
def shownLength : Int := 80

/-- The name of a file in a report. -/
def FileTree.shownPath (tree : FileTree) (path : Path) : Text :=
  ((path.relativeTo? tree.currentPath).getD path).toText

def placeText (file : Text) (position : Position) : Text :=
  file ++ .scalar ':' :: Text.ofInt (position.line + 1) ++
    .scalar ':' :: Text.ofInt (position.column + 1)

def Span.reportLine (file : Text) (span : Span) : Text :=
  placeText file span.range.start ++ " [".toText ++ span.kind.name ++
    .scalar ' ' :: span.confidence.fixed 2 ++ "] ".toText ++ span.text.excerpt shownLength

def spanLines (file : Text) (spans : List Span) : List Text :=
  if spans.isEmpty then ["No text found"]
  else (Span.inDocumentOrder spans).map (Span.reportLine file)

def summaryLines (registry : Registry) (document : Document) (spans : List Span) : List Text :=
  let summary := SpanSummary.ofSpans spans
  let language :=
    if registry.knows document.languageId then document.languageId else autoLanguage
  let counts := registry.countLines language document.text
  let kinds := summary.byKind.map fun entry =>
    "  ".toText ++ entry.1.name ++ ": ".toText ++ Text.ofNat entry.2
  ["Language: ".toText ++ document.languageId,
    "Lines: ".toText ++ Text.ofNat counts.lines,
    "Comment lines: ".toText ++ Text.ofNat counts.comments ++ ", string lines: ".toText ++
      Text.ofNat counts.strings ++ ", docstring lines: ".toText ++ Text.ofNat counts.docstrings,
    "Segments: ".toText ++ Text.ofNat summary.segments ++ " (".toText ++
      Text.ofNat summary.totalCharacters ++ " characters)".toText] ++
    kinds ++
    ["Average confidence: ".toText ++ summary.averageConfidence.fixed 2]

def Correction.reportLine (file : Text) (correction : Correction) : Text :=
  placeText file correction.range.start ++ .scalar ' ' :: correction.draft.excerpt shownLength ++
    " -> ".toText ++ correction.text.excerpt shownLength

/-- The line for the counts of a run. The time that it took is not measured. -/
def RunStats.reportLine (stats : RunStats) : Text :=
  Text.ofNat stats.totalTexts ++ " texts, ".toText ++ Text.ofNat stats.corrected ++
    " corrected, ".toText ++ Text.ofNat stats.cached ++ " cached, ".toText ++
    Text.ofNat stats.failed ++ " failed in 0.00s".toText

def runLines (file : Text) (run : Run) : List Text :=
  (if run.corrections.isEmpty then ["No corrections for ".toText ++ file]
    else run.corrections.map (Correction.reportLine file)) ++
    [run.stats.reportLine]

end CodeProse
