import CodeProse.Proofs.Numeric.Binary64
import CodeProse.Proofs.Prose.Sources
import CodeProse.Proofs.Prose.Stretch

/-!
# Spans of a selection

Where whole lines of a document are selected and its scan is in plain code at the first of them, the
spans of the selection are those of the document that lie in these lines, listed in the same order.
-/

set_option autoImplicit false

namespace CodeProse

section Ranking

theorem Span.filter_byConfidence (keep : Span → Bool) {spans : List Span}
    (numbers : ∀ span ∈ spans, span.confidence ≠ .nan) :
    (Span.byConfidence spans).filter keep = Span.byConfidence (spans.filter keep) := by
  refine filter_stableSort ?_ keep ?_
  · intro left middle right first second
    exact Binary64.lessEq_trans _ _ _ second first
  · intro left leftMember right rightMember
    exact Binary64.lessEq_total (numbers right rightMember) (numbers left leftMember)

theorem confidence_ne_nan_of_mem_foundSpans {registry : Registry} {language : Text}
    {options : ExtractionOptions} {origin : Position} {code : Text} {span : Span}
    (member : span ∈ foundSpans registry language options origin code) :
    span.confidence ≠ .nan :=
  Binary64.ne_nan_of_less (List.mem_filter.mp member).2

end Ranking

section Stretch

variable {registry : Registry} {language : Text} {options : ExtractionOptions} {first last : Nat}

theorem Position.lineBegin_within (first line column : Nat) :
    (⟨first, 0⟩ : Position).within line column = ⟨(line + first : Nat), column⟩ := by
  unfold Position.within
  split
  · next start => simp [start]
  · simp [Int.add_comm]

/-- Without a context, a span tells nothing of the lines around it. -/
theorem Fragment.toSpan?_lowered (plain : options.includeContext = false) (first : Nat)
    (rows others : List Text) (fragment : Fragment) :
    fragment.toSpan? options ⟨first, 0⟩ rows =
      (fragment.lowered first).toSpan? options .zero others := by
  simp only [Fragment.toSpan?, Fragment.lowered, plain, Position.lineBegin_within,
    Document.zero_within]
  rfl

/-- Whether a span stands between the start of one line and the start of another. -/
def Span.isWithinLines (first last : Nat) (span : Span) : Bool :=
  decide ((first : Int) ≤ span.range.start.line ∧ span.range.stop.line < last)

theorem filter_isWithinLines_filterMap (fragments : List Fragment) (rows : List Text) :
    (fragments.filterMap (Fragment.toSpan? options .zero rows)).filter
        (Span.isWithinLines first last) =
      (fragments.filter fun fragment =>
        decide (first ≤ fragment.startLine ∧ fragment.stopLine < last)).filterMap
          (Fragment.toSpan? options .zero rows) := by
  refine filter_filterMap_eq fun fragment _ span placed => ?_
  obtain ⟨-, -, range⟩ := Fragment.toSpan?_eq_some placed
  simp [Span.isWithinLines, range, Document.rangeFrom_zero, Fragment.start, Fragment.stop]

variable {code part : Text}

/-- The spans of a part of a code that has the fragments of a stretch of its lines. -/
theorem extract_stretch (plain : options.includeContext = false) (ordered : first ≤ last)
    (known : last ≤ (codeLines code).length)
    (normal : (scanFrom (registry.scanRules language) .code 0 ((codeLines code).take first)).1 =
      .code)
    (same : (scanFrom (registry.scanRules language) .code 0 (codeLines part)).2 =
      (scanFrom (registry.scanRules language) .code 0 (slice (codeLines code) first last)).2) :
    extract registry language options ⟨first, 0⟩ part =
      (extract registry language options .zero code).filter (Span.isWithinLines first last) := by
  have stretch := scan_stretch (registry.scanRules language) ordered known normal
    (lineFeed_not_mem_codeLines code)
  have found : foundSpans registry language options ⟨first, 0⟩ part =
      (foundSpans registry language options .zero code).filter (Span.isWithinLines first last) := by
    simp only [foundSpans]
    rw [List.filter_comm, filter_isWithinLines_filterMap, stretch, same, List.filterMap_map]
    refine congrArg (List.filter _) (List.filterMap_congr fun fragment _ => ?_)
    exact Fragment.toSpan?_lowered plain first _ _ fragment
  rw [extract, extract, found, Span.filter_byConfidence]
  exact fun span member => confidence_ne_nan_of_mem_foundSpans member

end Stretch

section Lines

variable {text : Text} {first last : Nat}

theorem Position.lineBegin_liesIn (known : first < text.lines.length) :
    (⟨first, 0⟩ : Position).LiesIn text :=
  ⟨Int.natCast_nonneg _, Int.ofNat_lt.mpr known, Int.le_refl 0, Int.natCast_nonneg _⟩

theorem offsetAt_lineBegin (known : first < text.lines.length) :
    offsetAt text ⟨first, 0⟩ = lineStart text.lines first := by
  rw [(Position.lineBegin_liesIn known).offsetAt_eq]
  simp

theorem lines_slice_lineStart (ordered : first ≤ last) (known : last < text.lines.length) :
    Text.lines (slice text (lineStart text.lines first) (lineStart text.lines last)) =
      slice text.lines first last ++ [[]] := by
  have cut := slice_lineStart ordered known (Nat.zero_le _)
  rw [Text.unlines_lines, Nat.add_zero, List.take_zero] at cut
  rw [cut, Text.lines_unlines ?_ (by simp)]
  intro row member
  rcases List.mem_append.mp member with inside | final
  · exact Text.lineFeed_not_mem_of_mem_lines (Fragment.mem_of_mem_slice inside)
  · simp [List.mem_singleton.mp final]

theorem lines_drop_lineStart (known : first < text.lines.length) :
    Text.lines (text.drop (lineStart text.lines first)) = text.lines.drop first := by
  have cut := drop_lineStart known
  rw [Text.unlines_lines] at cut
  rw [cut, Text.lines_unlines ?_ (by simpa using known)]
  exact fun row member => Text.lineFeed_not_mem_of_mem_lines (List.mem_of_mem_drop member)

theorem codeLines_slice_lineStart (ordered : first ≤ last) (known : last < text.lines.length) :
    codeLines (slice text (lineStart text.lines first) (lineStart text.lines last)) =
      slice (codeLines text) first last ++ [[]] := by
  obtain ⟨init, final, split⟩ := exists_lines_eq_concat text
  have reached : last ≤ init.length := by
    rw [split, List.length_append, List.length_singleton] at known
    omega
  rw [codeLines_of_lines (lines_slice_lineStart ordered known), codeLines_of_lines split, split,
    slice, slice, List.take_append_of_le_length reached,
    List.take_append_of_le_length (by rwa [List.length_map]), List.map_drop, List.map_take]

theorem codeLines_drop_lineStart (known : first < text.lines.length) :
    codeLines (text.drop (lineStart text.lines first)) = (codeLines text).drop first := by
  obtain ⟨init, final, split⟩ := exists_lines_eq_concat text
  have reached : first ≤ init.length := by
    rw [split, List.length_append, List.length_singleton] at known
    omega
  have rest : Text.lines (text.drop (lineStart text.lines first)) = init.drop first ++ [final] := by
    rw [lines_drop_lineStart known, split, List.drop_append_of_le_length reached]
  rw [codeLines_of_lines rest, codeLines_of_lines split,
    List.drop_append_of_le_length (by rwa [List.length_map]), List.map_drop]

end Lines

namespace Document

/-- Whether the scan of a document is in plain code when it comes to a line. -/
def IsCodeAt (document : Document) (registry : Registry) (options : ExtractionOptions)
    (line : Nat) : Prop :=
  (scanFrom (registry.scanRules (document.scanLanguage registry options)) .code 0
    ((codeLines document.text).take line)).1 = .code

/-- Where the scan of a document is in plain code at a line, the spans of a selection of whole lines
from there on are the spans of the document in these lines, in the same order; up to the end of the
document, all spans from that line on. -/
theorem spansIn_lines (document : Document) (registry : Registry) (options : ExtractionOptions)
    (plain : options.includeContext = false) (first : Nat)
    (known : first < document.text.lines.length)
    (normal : document.IsCodeAt registry options first) :
    (∀ last : Nat, first ≤ last → last < document.text.lines.length →
      document.spansIn registry options ⟨⟨first, 0⟩, ⟨last, 0⟩⟩ =
        (document.spans registry options).filter fun span =>
          decide ((first : Int) ≤ span.range.start.line ∧ span.range.stop.line < (last : Int))) ∧
      ∀ stop : Position, offsetAt document.text stop = document.text.length →
        document.spansIn registry options ⟨⟨first, 0⟩, stop⟩ =
          (document.spans registry options).filter fun span =>
            decide ((first : Int) ≤ span.range.start.line) := by
  have lineCount := length_codeLines document.text
  constructor
  · intro last ordered within
    have selected : document.textIn ⟨⟨first, 0⟩, ⟨last, 0⟩⟩ =
        slice document.text (lineStart document.text.lines first)
          (lineStart document.text.lines last) := by
      rw [textIn, offsetAt_lineBegin known, offsetAt_lineBegin within]
    rw [spansIn, selected]
    refine extract_stretch plain ordered (by omega) normal ?_
    rw [codeLines_slice_lineStart ordered within]
    exact scanFrom_concat_nil _ rfl _
  · intro stop atEnd
    have selected : document.textIn ⟨⟨first, 0⟩, stop⟩ =
        document.text.drop (lineStart document.text.lines first) := by
      rw [textIn, offsetAt_lineBegin known, atEnd, slice, List.take_length]
    have found : document.spansIn registry options ⟨⟨first, 0⟩, stop⟩ =
        (document.spans registry options).filter
          (Span.isWithinLines first (codeLines document.text).length) := by
      rw [spansIn, selected]
      refine extract_stretch plain (by omega) (Nat.le_refl _) normal ?_
      rw [codeLines_drop_lineStart known, slice, List.take_length]
    rw [found]
    refine List.filter_congr fun span member => ?_
    obtain ⟨-, inside⟩ := liesIn_of_mem_spans member
    have below : span.range.stop.line < ((codeLines document.text).length : Int) :=
      lineCount ▸ inside.line_lt
    simp [Span.isWithinLines, below]

def stretchedNote : Document where
  identity := "note"
  languageId := "java"
  text := "/* Teh cat\n * sleeps. */\nint x;\r\n// Teh dog runs.\n/* Teh bird\n * sings. */\n// Teh end."

/-- A selection that cuts the second block off gives the comment in front of that alone; up to the
end of the document it gives three spans. -/
theorem spansIn_lines_stretchedNote :
    let options : ExtractionOptions := { includeContext := false }
    let stop := positionAt stretchedNote.text stretchedNote.text.length
    stretchedNote.IsCodeAt .builtin options 2 ∧
      (stretchedNote.spansIn .builtin options ⟨⟨2, 0⟩, ⟨5, 0⟩⟩).map Span.text =
        ["Teh dog runs.".toText] ∧
      (stretchedNote.spansIn .builtin options ⟨⟨2, 0⟩, stop⟩).length = 3 := by
  intro options stop
  have normal : stretchedNote.IsCodeAt .builtin options 2 := by
    unfold IsCodeAt
    decide +kernel
  obtain ⟨stretch, rest⟩ :=
    spansIn_lines stretchedNote .builtin options rfl 2 (by decide +kernel) normal
  have selected := stretch 5 (by decide) (by decide +kernel)
  have onwards := rest stop (offsetAt_positionAt (Nat.le_refl _))
  refine ⟨normal, ?_, ?_⟩
  · refine (congrArg (List.map Span.text) selected).trans ?_
    decide +kernel
  · refine (congrArg List.length onwards).trans ?_
    decide +kernel

end Document

end CodeProse
