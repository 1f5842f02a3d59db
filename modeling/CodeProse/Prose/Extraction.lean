import CodeProse.Document.Basic
import CodeProse.Log
import CodeProse.Prose.Confidence
import CodeProse.Prose.Filter
import CodeProse.Prose.Scan
import CodeProse.Prose.Span

/-!
# Extraction

Finds the prose of a code: scans it, keeps the fragments that pass the filter, and places and
weighs them as spans. The code may be a part of a document; positions then start at the
place where the part starts.
-/

set_option autoImplicit false

namespace CodeProse

/-- How many lines around a span its context takes in, on either side. -/
def contextLines : Nat := 2

def contextOf (lines : List Text) (startLine stopLine : Nat) : Text :=
  Text.unlines
    ((lines.take (stopLine + contextLines + 1)).drop (startLine - contextLines))

/-- The span of a fragment that passes the filter. -/
def Fragment.toSpan? (options : ExtractionOptions) (origin : Position) (lines : List Text)
    (fragment : Fragment) : Option Span :=
  if options.includes fragment.text then
    some
      { text := fragment.text
        kind := fragment.kind
        range :=
          ⟨origin.within fragment.startLine fragment.startColumn,
            origin.within fragment.stopLine fragment.stopColumn⟩
        confidence := confidence (some fragment.kind) fragment.text
        context :=
          if options.includeContext then
            some (contextOf lines fragment.startLine fragment.stopLine)
          else none }
  else none

/-- The spans of a code that starts at `origin`, in the order in which the scan finds them. -/
def foundSpans (registry : Registry) (language : Text) (options : ExtractionOptions)
    (origin : Position) (code : Text) : List Span :=
  let lines := codeLines code
  let fragments := (scanFrom (registry.scanRules language) .code 0 lines).2
  let spans := fragments.filterMap (Fragment.toSpan? options origin lines)
  spans.filter fun span => Binary64.less confidenceThreshold span.confidence

/-- The spans of a code that starts at `origin`, by falling confidence. -/
def extract (registry : Registry) (language : Text) (options : ExtractionOptions)
    (origin : Position) (code : Text) : List Span :=
  Span.byConfidence (foundSpans registry language options origin code)

/-- The name of the block that is still open behind the last line of a code, and the line it
starts on. -/
def unterminatedBlock? (registry : Registry) (language : Text) (origin : Position)
    (code : Text) : Option (Text × Int) :=
  match (scanFrom (registry.scanRules language) .code 0 (codeLines code)).1 with
  | .code => none
  | .blockComment startLine _ _ => some ("block_comment", origin.line + startLine)
  | .docstring _ startLine _ _ => some ("docstring", origin.line + startLine)

def extractionRecords (registry : Registry) (language : Text) (origin : Position)
    (code : Text) : List LogRecord :=
  (unterminatedBlock? registry language origin code).toList.map fun (name, line) =>
    ⟨"extractor", .debug,
      "Unterminated ".toText ++ name ++ " starting at line ".toText ++ Text.ofInt line ++
        " ignored".toText⟩

namespace Document

/-- The language by which a document is scanned: the one asked for, the document's own where
that is known, or every language. -/
def scanLanguage (document : Document) (registry : Registry) (options : ExtractionOptions) :
    Text :=
  if options.language ≠ autoLanguage then options.language
  else if registry.knows document.languageId then document.languageId
  else autoLanguage

def spans (document : Document) (registry : Registry) (options : ExtractionOptions) :
    List Span :=
  extract registry (document.scanLanguage registry options) options .zero document.text

/-- The spans of a selected part of a document, at their places in the document. -/
def spansIn (document : Document) (registry : Registry) (options : ExtractionOptions)
    (selection : Range) : List Span :=
  extract registry (document.scanLanguage registry options) options selection.start
    (document.textIn selection)

def records (document : Document) (registry : Registry) (options : ExtractionOptions) :
    List LogRecord :=
  extractionRecords registry (document.scanLanguage registry options) .zero document.text

def recordsIn (document : Document) (registry : Registry) (options : ExtractionOptions)
    (selection : Range) : List LogRecord :=
  extractionRecords registry (document.scanLanguage registry options) selection.start
    (document.textIn selection)

end Document

end CodeProse
