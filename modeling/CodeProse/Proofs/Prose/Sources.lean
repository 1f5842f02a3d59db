import CodeProse.Proofs.Prose.Blocks
import CodeProse.Proofs.Prose.Extraction

/-!
# Prose and its source

What stands in a document at the range of a span is where the prose was cut from, also when only a
part of the document was searched. On a single line it is the prose itself; over several lines the
prose is, line by line, a part of it.
-/

set_option autoImplicit false

namespace CodeProse

open Text (RowsWithin)

namespace Fragment

/-- A fragment that is cut from a block over several lines, which the marks open and close. -/
structure IsBlock (rows : List Text) (opener closer : Text) (fragment : Fragment) : Prop where
  before : fragment.startLine < fragment.stopLine
  known : fragment.stopLine < rows.length
  opens : BlockOpens fragment.kind opener closer (rows.getD fragment.startLine [])
  inside : ∀ row ∈ slice rows (fragment.startLine + 1) fragment.stopLine,
    Text.contains closer row = false
  closed : Text.contains closer (rows.getD fragment.stopLine []) = true
  startColumn : fragment.startColumn = 0
  stopColumn : fragment.stopColumn = (rows.getD fragment.stopLine []).length
  text : fragment.text = ProseKind.clean (some fragment.kind)
    (blockBody opener closer (rows.getD fragment.startLine [])
      (slice rows (fragment.startLine + 1) fragment.stopLine) (rows.getD fragment.stopLine []))

section Rows

variable {rows : List Text} {fragment : Fragment} {opener closer : Text}

/-- A fragment stands on a single line, or it is a block. -/
theorem ComesOf.isBlock {rules : ScanRules} (comes : fragment.ComesOf rules rows)
    (plain : ∀ row ∈ rows, .scalar '\n' ∉ row) (several : fragment.startLine ≠ fragment.stopLine) :
    ∃ opener closer, fragment.IsBlock rows opener closer := by
  cases comes with
  | @line index fragment member =>
      have feedless := Text.lineFeed_not_mem_getD plain index
      have onLine := (ofLine_onLine index feedless _).1 fragment member
      exact absurd (onLine.startLine.trans onLine.stopLine.symm) several
  | @block kind opener closer first inner start stop since known closed =>
      obtain ⟨before, rfl, opens, inside, rfl⟩ := since
      exact ⟨opener, closer, before, known, opens, inside, closed, rfl, rfl, rfl⟩

theorem mem_of_mem_slice {items : List Text} {item : Text} {start stop : Nat}
    (member : item ∈ slice items start stop) : item ∈ items :=
  List.mem_of_mem_take (List.mem_of_mem_drop member)

/-- The lines of the prose in a block stand within those of the block, of which the last one is cut
before its last closer. -/
theorem IsBlock.rowsWithin (block : fragment.IsBlock rows opener closer)
    (plain : ∀ row ∈ rows, .scalar '\n' ∉ row) {index : Nat}
    (closed : Text.lastIndexOf? closer (rows.getD fragment.stopLine []) = some index) :
    RowsWithin fragment.text.lines (slice rows fragment.startLine fragment.stopLine ++
      [(rows.getD fragment.stopLine []).take index]) := by
  have known : fragment.startLine < rows.length := Nat.lt_trans block.before block.known
  rw [block.text, slice_eq_cons block.before known]
  refine block.opens.rowsWithin_clean closed fun row member => ?_
  rcases List.mem_append.mp member with inside | last
  · rw [← slice_eq_cons block.before known] at inside
    exact plain row (mem_of_mem_slice inside)
  · rw [List.mem_singleton.mp last]
    exact Text.lineFeed_not_mem_getD plain _

end Rows

section Code

variable {code : Text} {fragment : Fragment} {opener closer : Text}

/-- What stands in a code where a block does: its first lines, and the last one without a carriage
return at its end. -/
theorem IsBlock.lines_sourceIn (block : fragment.IsBlock (codeLines code) opener closer)
    (stands : fragment.StandsIn (codeLines code)) :
    (fragment.sourceIn code).lines = slice code.lines fragment.startLine fragment.stopLine ++
      [(codeLines code).getD fragment.stopLine []] := by
  have known : fragment.stopLine < code.lines.length := length_codeLines code ▸ block.known
  have fronts := prefix_codeLines_getD code fragment.stopLine
  have within : fragment.stopColumn ≤ lineLength code.lines fragment.stopLine := by
    rw [block.stopColumn]
    exact fronts.length_le
  have cut := slice_lineStart (Nat.le_of_lt block.before) known within
  rw [Text.unlines_lines, block.stopColumn, ← List.prefix_iff_eq_take.mp fronts] at cut
  rw [sourceIn, stands.start_liesIn.offsetAt_eq, stands.stop_liesIn.offsetAt_eq, start, stop]
  simp only [Int.toNat_natCast]
  rw [block.startColumn, block.stopColumn, Nat.add_zero, cut, Text.lines_unlines ?_ (by simp)]
  intro row member
  rcases List.mem_append.mp member with inside | last
  · exact Text.lineFeed_not_mem_of_mem_lines (mem_of_mem_slice inside)
  · rw [List.mem_singleton.mp last]
    exact Text.lineFeed_not_mem_getD (lineFeed_not_mem_codeLines code) _

/-- The lines of the prose in a block stand within those of its source before the last closer. -/
theorem IsBlock.rowsWithin_code (block : fragment.IsBlock (codeLines code) opener closer)
    {index : Nat} (closed : Text.lastIndexOf? closer
      ((codeLines code).getD fragment.stopLine []) = some index) :
    RowsWithin fragment.text.lines (slice code.lines fragment.startLine fragment.stopLine ++
      [((codeLines code).getD fragment.stopLine []).take index]) := by
  refine (block.rowsWithin (lineFeed_not_mem_codeLines code) closed).trans ?_
  refine .of_forall₂ (List.rel_append ?_ (.cons (List.infix_refl _) .nil))
  exact Text.forall₂_infix_of_fronts
    (List.forall₂_drop _ (List.forall₂_take _ (prefix_codeLines code)))

theorem IsBlock.rowsWithin_sourceIn (block : fragment.IsBlock (codeLines code) opener closer)
    (stands : fragment.StandsIn (codeLines code)) :
    RowsWithin fragment.text.lines (fragment.sourceIn code).lines := by
  obtain ⟨index, closed⟩ := Text.exists_lastIndexOf? block.closed
  refine (block.rowsWithin_code closed).trans ?_
  rw [block.lines_sourceIn stands]
  refine .of_forall₂ (List.rel_append ?_ (.cons (List.take_prefix index _).isInfix .nil))
  exact List.forall₂_same.mpr fun row _ => List.infix_refl row

end Code

end Fragment

namespace Document

variable {document : Document} {registry : Registry} {options : ExtractionOptions} {span : Span}

/-- A span that an extraction from a document gives, from all of it or from a selection of it whose
ends lie in it. -/
inductive Extracts (document : Document) (registry : Registry) (options : ExtractionOptions)
    (span : Span) : Prop where
  | whole (member : span ∈ document.spans registry options)
  | selected {selection : Range} (start : selection.start.LiesIn document.text)
      (stop : selection.stop.LiesIn document.text)
      (member : span ∈ document.spansIn registry options selection)

theorem textIn_rangeFrom {origin : Position} {code : Text} {fragment : Fragment}
    (start : origin.LiesIn document.text)
    (front : code <+: document.text.drop (offsetAt document.text origin))
    (stands : fragment.StandsIn (codeLines code)) :
    document.textIn (fragment.rangeFrom origin) = fragment.sourceIn code := by
  obtain ⟨-, startAt⟩ := start.within front stands.start_liesIn
  obtain ⟨-, stopAt⟩ := start.within front stands.stop_liesIn
  have reached := stands.stop_liesIn.offsetAt_le_length
  simp only [Fragment.start, Fragment.stop, Int.toNat_natCast] at startAt stopAt reached
  obtain ⟨rest, joined⟩ := front
  rw [textIn, Fragment.rangeFrom, startAt, stopAt, slice_eq_take_drop, Nat.add_sub_add_left,
    ← List.drop_drop, ← joined, Fragment.sourceIn, slice, Fragment.start, Fragment.stop,
    ← List.drop_take, List.take_append_of_le_length reached]

theorem zero_liesIn (text : Text) : Position.zero.LiesIn text :=
  ⟨Int.le_refl 0, Int.ofNat_lt.mpr (Text.length_lines_pos text), Int.le_refl 0,
    Int.natCast_nonneg _⟩

theorem prefix_textIn (document : Document) (range : Range) :
    document.textIn range <+: document.text.drop (offsetAt document.text range.start) := by
  rw [textIn, slice_eq_take_drop]
  exact List.take_prefix _ _

/-- A span comes from a fragment of a part of its document, and what stands in the document at the
range of the span is what stands in that part where the fragment does. -/
theorem Extracts.exists_fragment (extracts : document.Extracts registry options span) :
    ∃ (origin : Position) (code : Text) (fragment : Fragment),
      span.CutFrom (registry.scanRules (document.scanLanguage registry options)) origin code fragment ∧
        document.textIn span.range = fragment.sourceIn code := by
  cases extracts with
  | whole member =>
      obtain ⟨fragment, cut⟩ := exists_cutFrom member
      refine ⟨.zero, document.text, fragment, cut, ?_⟩
      rw [cut.range]
      exact textIn_rangeFrom (zero_liesIn document.text) (List.prefix_refl _) cut.stands
  | @selected selection start stop member =>
      obtain ⟨fragment, cut⟩ := exists_cutFrom member
      refine ⟨selection.start, document.textIn selection, fragment, cut, ?_⟩
      rw [cut.range]
      exact textIn_rangeFrom start (document.prefix_textIn selection) cut.stands

theorem single_iff {origin : Position} {fragment : Fragment}
    (range : span.range = fragment.rangeFrom origin) :
    span.range.start.line = span.range.stop.line ↔ fragment.startLine = fragment.stopLine := by
  rw [range, Fragment.rangeFrom, Position.within, Position.within]
  split <;> split <;> dsimp only <;> omega

theorem Extracts.liesIn (extracts : document.Extracts registry options span) :
    span.range.start.LiesIn document.text ∧ span.range.stop.LiesIn document.text := by
  cases extracts with
  | whole member => exact liesIn_of_mem_spans member
  | @selected selection start stop member =>
      obtain ⟨fragment, cut⟩ := exists_cutFrom member
      have front := document.prefix_textIn selection
      rw [cut.range]
      exact ⟨(start.within front cut.stands.start_liesIn).1,
        (start.within front cut.stands.stop_liesIn).1⟩

theorem Extracts.start_lt_stop (extracts : document.Extracts registry options span) :
    span.range.start < span.range.stop := by
  obtain ⟨origin, code, fragment, cut, -⟩ := extracts.exists_fragment
  rw [cut.range]
  exact Position.within_lt cut.stands.extent

theorem Extracts.rowsWithin (extracts : document.Extracts registry options span)
    (several : span.range.start.line ≠ span.range.stop.line) :
    RowsWithin span.text.lines (document.textIn span.range).lines := by
  obtain ⟨origin, code, fragment, cut, source⟩ := extracts.exists_fragment
  obtain ⟨opener, closer, block⟩ := cut.comes.isBlock (lineFeed_not_mem_codeLines code)
    fun single => several ((single_iff cut.range).mpr single)
  rw [source, cut.text]
  exact block.rowsWithin_sourceIn cut.stands

/-- What stands in the document at the range of a span: on a single line the prose of the span, over
several lines rows that have those of the prose within them. -/
theorem textIn_of_extracts (extracts : document.Extracts registry options span) :
    if span.range.start.line = span.range.stop.line then document.textIn span.range = span.text
    else RowsWithin span.text.lines (document.textIn span.range).lines := by
  split
  · next single =>
      obtain ⟨origin, code, fragment, cut, source⟩ := extracts.exists_fragment
      rw [source, cut.text]
      exact cut.stands.sourceIn_eq ((single_iff cut.range).mp single)
  · next several => exact extracts.rowsWithin several

/-- A document with a block comment that opens behind code, over lines with carriage returns. -/
def selectedNote : Document where
  identity := "note"
  languageId := "java"
  text := "int y; /* Teh\r\n * cat. */\r\n  // Teh dog.\r\n"

/-- A selection from the opener of the block on: the column of the block is counted from there, that
of the comment on a later line is not. -/
theorem textIn_of_extracts_selectedNote :
    ∃ block comment : Span, block.text = "Teh\ncat.".toText ∧ comment.text = "Teh dog.".toText ∧
      RowsWithin block.text.lines (selectedNote.textIn block.range).lines ∧
      selectedNote.textIn comment.range = comment.text := by
  have start : Position.LiesIn selectedNote.text ⟨0, 7⟩ :=
    ⟨by decide, by decide +kernel, by decide, by decide +kernel⟩
  have stop : Position.LiesIn selectedNote.text ⟨2, 13⟩ :=
    ⟨by decide, by decide +kernel, by decide, by decide +kernel⟩
  have found : ∃ block ∈ selectedNote.spansIn .builtin {} ⟨⟨0, 7⟩, ⟨2, 13⟩⟩,
      ∃ comment ∈ selectedNote.spansIn .builtin {} ⟨⟨0, 7⟩, ⟨2, 13⟩⟩,
        (block.text = "Teh\ncat.".toText ∧ block.range.start.line ≠ block.range.stop.line) ∧
          comment.text = "Teh dog.".toText ∧
          comment.range.start.line = comment.range.stop.line := by
    decide +kernel
  obtain ⟨block, blockMember, comment, commentMember, ⟨text, several⟩, line, single⟩ := found
  have blockSource := textIn_of_extracts (.selected start stop blockMember)
  have lineSource := textIn_of_extracts (.selected start stop commentMember)
  rw [if_neg several] at blockSource
  rw [if_pos single] at lineSource
  exact ⟨block, comment, text, line, blockSource, lineSource⟩

end Document

end CodeProse
