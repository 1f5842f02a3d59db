import CodeProse.Proofs.Correction.Replacement
import CodeProse.Proofs.Document.Edit
import CodeProse.Proofs.Prose.Sources

/-!
# Replacements that keep the lines

The lines of a span stand, in order, in consecutive lines of its source, so that each of them is found
no later than in the line it was cut from. A correction with as many lines is put in line by line, and
what stands behind the block stays on the lines where it was.
-/

set_option autoImplicit false

namespace CodeProse

open Text (RowsWithin)

section Splicing

variable {pairs : List (Text × Text)} {rows result : List Text}

/-- Lines that stand in consecutive rows are all found, where none of the blank ones gets a text. The
induction is on the lines: the search never goes further than to the row a line was cut from, so that
the others still stand in the rows that are left. -/
theorem exists_splices (within : RowsWithin (pairs.map Prod.fst) rows)
    (blank : ∀ pair ∈ pairs, Text.isBlank pair.1 = true → Text.isBlank pair.2 = true) :
    ∃ result, Splices pairs rows result := by
  induction pairs generalizing rows with
  | nil => exact ⟨rows, .done⟩
  | cons pair pairs ih =>
      obtain ⟨draft, corrected⟩ := pair
      obtain ⟨here, further⟩ := List.forall_mem_cons.mp blank
      obtain ⟨place, known, stands, later⟩ := within.exists_row
      cases empty : Text.isBlank draft with
      | true =>
          have all : RowsWithin (pairs.map Prod.fst) rows :=
            (later 0 (Nat.zero_le place)).trans (.of_isInfix (List.drop_suffix _ _).isInfix)
          obtain ⟨result, splices⟩ := ih all further
          exact ⟨result, .blank empty (here empty) splices⟩
      | false =>
          obtain ⟨index, early, found⟩ := exists_findIdx?_le known stands
          obtain ⟨rest, splices⟩ := ih (later index early) further
          exact ⟨_, .line empty found splices⟩

theorem Splices.length (splices : Splices pairs rows result) : result.length = rows.length := by
  induction splices with
  | done => rfl
  | blank empty none further ih => exact ih
  | line solid found further ih =>
      obtain ⟨known, -⟩ := List.findIdx?_eq_some_iff_getElem.mp found
      rw [List.length_drop] at ih
      rw [List.length_append, List.length_take, List.length_cons, ih]
      omega

theorem lineFeed_not_mem_replaceFirst {draft corrected row : Text} (plain : .scalar '\n' ∉ row)
    (plainCorrected : .scalar '\n' ∉ corrected) :
    .scalar '\n' ∉ Text.replaceFirst draft corrected row := by
  rw [Text.replaceFirst]
  split
  · next place _ =>
      intro feed
      rcases List.mem_append.mp feed with front | back
      · rcases List.mem_append.mp front with before | new
        · exact plain (List.mem_of_mem_take before)
        · exact plainCorrected new
      · exact plain (List.mem_of_mem_drop back)
  · exact plain

theorem Splices.lineFeed_not_mem (splices : Splices pairs rows result)
    (plain : ∀ row ∈ rows, .scalar '\n' ∉ row)
    (plainCorrected : ∀ pair ∈ pairs, .scalar '\n' ∉ pair.2) :
    ∀ row ∈ result, .scalar '\n' ∉ row := by
  induction splices with
  | done => exact plain
  | blank empty none further ih => exact ih plain (List.forall_mem_cons.mp plainCorrected).2
  | @line draft corrected pairs rows rest index solid found further ih =>
      obtain ⟨here, later⟩ := List.forall_mem_cons.mp plainCorrected
      have plainBehind : ∀ row ∈ rows.drop (index + 1), .scalar '\n' ∉ row :=
        fun row member => plain row (List.mem_of_mem_drop member)
      intro row member
      rcases List.mem_append.mp member with front | back
      · exact plain row (List.mem_of_mem_take front)
      · rcases List.mem_cons.mp back with rfl | behind
        · exact lineFeed_not_mem_replaceFirst (Text.lineFeed_not_mem_getD plain index) here
        · exact ih plainBehind later row behind

end Splicing

section Replacements

variable {source draft corrected : Text}

theorem isRebuilt_eq_false (within : RowsWithin draft.lines source.lines)
    (aligned : corrected.lines.length = draft.lines.length)
    (blank : ∀ pair ∈ draft.lines.zip corrected.lines,
      Text.isBlank pair.1 = true → Text.isBlank pair.2 = true) :
    isRebuilt source draft corrected = false := by
  have drafts : (draft.lines.zip corrected.lines).map Prod.fst = draft.lines :=
    List.map_fst_zip aligned.ge
  obtain ⟨rows, splices⟩ := exists_splices (drafts.symm ▸ within) blank
  simp [isRebuilt, aligned, spliceLines?_eq_some_iff.mpr splices]

/-- A replacement that is not written anew has the lines of the source, if the correction has as many as
the draft. -/
theorem length_lines_buildReplacement (kept : isRebuilt source draft corrected = false)
    (aligned : corrected.lines.length = draft.lines.length) :
    (buildReplacement source draft corrected).lines.length = source.lines.length := by
  have replaces := buildReplacement_replaces source draft corrected
  generalize buildReplacement source draft corrected = replacement at replaces
  cases replaces with
  | unchanged same => rfl
  | @verbatim place found some =>
      obtain ⟨here, -⟩ := Text.indexOf?_eq_some found
      obtain ⟨rest, joined⟩ := here
      have behind : source.drop (place + draft.length) = rest := by
        rw [← List.drop_drop, ← joined, List.drop_left]
      have whole : source.take place ++ (draft ++ rest) = source := by
        rw [joined, List.take_append_drop]
      rw [behind]
      conv => rhs; rw [← whole]
      rw [Text.length_lines, Text.length_lines] at aligned ⊢
      simp only [List.count_append]
      omega
  | @spliced rows _ found =>
      have splices := spliceLines?_eq_some_iff.mp found
      have plain : ∀ row ∈ rows, .scalar '\n' ∉ row := by
        refine splices.lineFeed_not_mem
          (fun row member => Text.lineFeed_not_mem_of_mem_lines member) ?_
        intro pair member
        exact Text.lineFeed_not_mem_of_mem_lines (List.of_mem_zip member).2
      have count := splices.length
      have some : rows ≠ [] := by
        rw [← List.length_pos_iff, count]
        exact Text.length_lines_pos source
      rw [Text.lines_unlines plain some, count]
  | rebuilt anew =>
      rw [kept] at anew
      cases anew

end Replacements

section Lines

variable {text replacement : Text} {range : Range}

/-- A text with as many lines in the place of a range is taken, and leaves the lines behind the range
where they are. -/
theorem exists_replaceRanges?_of_lines (start : range.start.LiesIn text)
    (stop : range.stop.LiesIn text) (ordered : range.start ≤ range.stop)
    (aligned : replacement.lines.length =
      (Text.lines (slice text (offsetAt text range.start) (offsetAt text range.stop))).length) :
    ∃ after, replaceRanges? text [⟨range, replacement⟩] = some after ∧
      after.lines.length = text.lines.length ∧
      after.lines.drop (range.stop.line.toNat + 1) = text.lines.drop (range.stop.line.toNat + 1) := by
  have before := start.offsetAt_le stop ordered
  have fit : ∀ edit ∈ [(⟨range, replacement⟩ : Edit)], edit.Fits text := by
    intro edit member
    rw [List.mem_singleton.mp member]
    exact ⟨start, stop, before⟩
  have front := stop.length_lines_take
  refine ⟨_, replaceRanges?_of_apart (List.pairwise_singleton _ _) fit, ?_⟩
  simp only [List.map_singleton, Edit.clamp, replacedFrom, Int.toNat_natCast]
  rw [slice_eq_take_drop, Nat.sub_zero, List.drop_zero]
  generalize offsetAt text range.start = first at *
  generalize offsetAt text range.stop = last at *
  have room : (Text.lines (text.take first ++ replacement)).length =
      (Text.lines (text.take last)).length := by
    have replaced := Text.length_lines_append (text.take first) replacement
    have original := Text.length_lines_append (text.take first) (slice text first last)
    rw [take_append_slice text before] at original
    omega
  have whole : text.take last ++ text.drop last = text := List.take_append_drop last text
  constructor
  · have replaced := Text.length_lines_append (text.take first ++ replacement) (text.drop last)
    have original := Text.length_lines_append (text.take last) (text.drop last)
    rw [whole] at original
    omega
  · have replaced := Text.drop_lines_append (text.take first ++ replacement) (text.drop last)
    have original := Text.drop_lines_append (text.take last) (text.drop last)
    rw [whole] at original
    rw [← front, original, ← replaced, room]

end Lines

namespace Document

variable {document : Document} {registry : Registry} {options : ExtractionOptions} {span : Span}

/-- For every document, every span over several lines that is extracted from it, and every correction
with as many lines as the span that is blank wherever the span is: the source of the span is not written
anew but keeps the number of its lines, and the document takes the replacement with every line behind
the block where it was. -/
theorem buildReplacement_keepsLines (extracts : document.Extracts registry options span)
    (several : span.range.start.line ≠ span.range.stop.line) {corrected : Text}
    (aligned : corrected.lines.length = span.text.lines.length)
    (blank : ∀ pair ∈ span.text.lines.zip corrected.lines,
      Text.isBlank pair.1 = true → Text.isBlank pair.2 = true) :
    let source := document.textIn span.range
    let replacement := buildReplacement source span.text corrected
    isRebuilt source span.text corrected = false ∧
      replacement.lines.length = source.lines.length ∧
      ∃ after, CodeProse.replaceRanges? document.text [⟨span.range, replacement⟩] = some after ∧
        after.lines.length = document.text.lines.length ∧
        after.lines.drop (span.range.stop.line.toNat + 1) =
          document.text.lines.drop (span.range.stop.line.toNat + 1) := by
  intro source replacement
  have kept : isRebuilt source span.text corrected = false :=
    isRebuilt_eq_false (extracts.rowsWithin several) aligned blank
  have lines : replacement.lines.length = source.lines.length :=
    length_lines_buildReplacement kept aligned
  obtain ⟨start, stop⟩ := extracts.liesIn
  exact ⟨kept, lines,
    exists_replaceRanges?_of_lines start stop extracts.start_lt_stop.le lines⟩

def gappedNote : Document where
  identity := "note"
  languageId := "java"
  text := "int y;\r\n/* Teh cat\r\n *\r\n * sleeps. */\r\nint x;"

theorem buildReplacement_keepsLines_gappedNote :
    ∃ span ∈ gappedNote.spans .builtin {}, span.text = "Teh cat\n\nsleeps.".toText ∧
      buildReplacement (gappedNote.textIn span.range) span.text "The cat\n \nsleeps well." =
        "/* The cat\r\n *\r\n * sleeps well. */".toText ∧
      ∃ after, CodeProse.replaceRanges? gappedNote.text [⟨span.range,
          buildReplacement (gappedNote.textIn span.range) span.text "The cat\n \nsleeps well."⟩] =
            some after ∧ after.lines.drop 4 = ["int x;".toText] := by
  have found : ∃ span ∈ gappedNote.spans .builtin {},
      span.range = ⟨⟨1, 0⟩, ⟨3, 13⟩⟩ ∧ span.text = "Teh cat\n\nsleeps.".toText ∧
        buildReplacement (gappedNote.textIn span.range) span.text "The cat\n \nsleeps well." =
          "/* The cat\r\n *\r\n * sleeps well. */".toText := by
    decide +kernel
  obtain ⟨span, member, range, draft, built⟩ := found
  have several : span.range.start.line ≠ span.range.stop.line := by
    rw [range]
    decide
  have aligned : (Text.lines "The cat\n \nsleeps well.").length = span.text.lines.length := by
    rw [draft]
    decide
  have blank : ∀ pair ∈ span.text.lines.zip (Text.lines "The cat\n \nsleeps well."),
      Text.isBlank pair.1 = true → Text.isBlank pair.2 = true := by
    rw [draft]
    decide
  obtain ⟨-, -, after, taken, -, behind⟩ :=
    buildReplacement_keepsLines (.whole member) several aligned blank
  refine ⟨span, member, draft, built, after, taken, ?_⟩
  rw [range] at behind
  calc after.lines.drop 4
      = gappedNote.text.lines.drop 4 := behind
    _ = ["int x;".toText] := by decide +kernel

end Document

end CodeProse
