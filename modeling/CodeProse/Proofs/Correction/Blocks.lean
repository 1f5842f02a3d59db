import CodeProse.Proofs.Correction.Replacement
import CodeProse.Proofs.Prose.Sources

/-!
# Replacements in blocks

A block over several lines should still open and close where it did when its prose is replaced. It
does as far as the draft is not found in the marks themselves and, where the lines are written anew,
nothing but margins stands before the opener and behind the closer.
-/

set_option autoImplicit false

namespace CodeProse

open Text (RowsWithin)

/-- A block up to the mark that opens it, the mark included. -/
def blockHead (opener source : Text) : Text :=
  source.take ((Text.indexOf? opener source).getD 0 + opener.length)

/-- The last line of a block from its last closer on. -/
def blockTail (closer source : Text) : Text :=
  (source.lines.getLastD []).drop
    ((Text.lastIndexOf? closer (source.lines.getLastD [])).getD 0)

/-- A replacement that does not touch the marks of a block: the draft is first found behind the
opener, as a whole also before the closer, and lines that are written anew have only margins around
the marks. -/
structure LeavesMarks (opener closer source draft corrected : Text) : Prop where
  behindOpener : draft ≠ [] → ∀ place ∈ Text.indexOf? (draft.lines.headD []) source,
    (blockHead opener source).length ≤ place
  beforeCloser : ∀ place ∈ Text.indexOf? draft source,
    place + draft.length + (blockTail closer source).length ≤ source.length
  marginsBefore : isRebuilt source draft corrected = true →
    ∀ char ∈ blockHead opener source, isBlank char = true → isMargin char = true
  marginsBehind : isRebuilt source draft corrected = true →
    ∀ char ∈ (blockTail closer source).drop closer.length, isMargin char = true

/-- The marks of a block: it starts with a line that is opened by one of them, and its last line
holds the other. -/
structure HasMarks (kind : ProseKind) (opener closer source : Text) : Prop where
  opens : ∃ first, BlockOpens kind opener closer first ∧ first <+: source
  head : opener <:+ blockHead opener source
  tail : closer <+: blockTail closer source

section Openers

variable {text quotes first opener closer : Text} {kind : ProseKind}

theorem length_le_openerMarker_quotes (member : quotes ∈ tripleQuotes) (more : Text) :
    quotes.length ≤ openerMarker (quotes ++ more) := by
  rcases List.mem_pair.mp member with rfl | rfl
  · exact Nat.le_refl 3
  · exact Nat.le_refl 3

theorem length_le_openerMarker_lead {char : CodePoint} (lead : isQuoteLead char = true)
    (member : quotes ∈ tripleQuotes) (more : Text) :
    (char :: quotes).length ≤ openerMarker (char :: quotes ++ more) := by
  have letters : char = 'r' ∨ char = 'R' ∨ char = 'u' ∨ char = 'U' := by
    simpa [isQuoteLead, or_assoc] using lead
  rcases List.mem_pair.mp member with rfl | rfl
  · rcases letters with rfl | rfl | rfl | rfl
    all_goals exact Nat.le_refl 4
  · rcases letters with rfl | rfl | rfl | rfl
    all_goals exact Nat.le_refl 4

theorem length_le_openerMarker_starBlock (more : Text) :
    "/*".toText.length ≤ openerMarker ("/*".toText ++ more) := by
  have stars : openerMarker ("/*".toText ++ more) =
      1 + runLength (· == .scalar '*') (.scalar '*' :: more) := rfl
  have one : 1 ≤ runLength (· == .scalar '*') (.scalar '*' :: more) := by
    rw [runLength, List.takeWhile_cons_of_pos (by decide), List.length_cons]
    omega
  rw [stars]
  exact Nat.add_le_add_left one 1

/-- A line that opens a block: blanks, a letter before a triple quote at most, and the opener. The
letter and the opener belong to the marker of the line, whatever follows them. -/
theorem BlockOpens.exists_front (opens : BlockOpens kind opener closer first) :
    ∃ margin lead rest, first = margin ++ (lead ++ opener ++ rest) ∧
      (∀ char ∈ margin, isBlank char = true) ∧ (∀ char ∈ lead, isQuoteLead char = true) ∧
      ∀ more, (lead ++ opener).length ≤ openerMarker (lead ++ opener ++ more) := by
  have margin : ∀ char ∈ first.takeWhile isBlank, isBlank char = true :=
    fun char member => List.all_eq_true.mp List.all_takeWhile char member
  have split : first.takeWhile isBlank ++ Text.trimStart first = first :=
    List.takeWhile_append_dropWhile
  cases opens with
  | comment opened =>
      obtain ⟨rest, starred⟩ := List.isPrefixOf_iff_prefix.mp (Bool.and_eq_true_iff.mp opened).2
      refine ⟨_, [], rest, ?_, margin, by simp, length_le_openerMarker_starBlock⟩
      rw [List.nil_append, starred, split]
  | docstring opened =>
      obtain ⟨leading, -⟩ := opensDocstring?_eq_some opened
      generalize Text.trimStart first = text at leading split
      unfold leadingTripleQuote? at leading
      split at leading
      · next char rest =>
          split at leading
          · next lead =>
              obtain ⟨member, behind, rfl⟩ := tripleQuoteAt?_eq_some leading
              exact ⟨_, [char], behind, split.symm, margin, by simpa using lead,
                length_le_openerMarker_lead lead member⟩
          · next other =>
              obtain ⟨member, behind, joined⟩ := tripleQuoteAt?_eq_some leading
              refine ⟨_, [], behind, ?_, margin, by simp, length_le_openerMarker_quotes member⟩
              rw [List.nil_append, joined, split]
      · cases leading

/-- The first character of an opener is neither blank nor a letter before a triple quote. -/
theorem BlockOpens.head_opener (opens : BlockOpens kind opener closer first) :
    opener.head?.any (fun char => !isBlank char && !isQuoteLead char && !isMargin char) = true ∧
      opener.getLast?.any (fun char => !isBlank char) = true := by
  have quoted : ∀ quotes ∈ tripleQuotes,
      quotes.head?.any (fun char => !isBlank char && !isQuoteLead char && !isMargin char) = true ∧
        quotes.getLast?.any (fun char => !isBlank char) = true := by
    decide
  cases opens with
  | comment opened => exact ⟨rfl, rfl⟩
  | docstring opened =>
      obtain ⟨leading, -⟩ := opensDocstring?_eq_some opened
      exact quoted _ (leadingTripleQuote?_eq_some leading).1

end Openers

section Margins

theorem runLength_append {test : CodePoint → Bool} {front rest : Text} {char : CodePoint}
    (within : ∀ char ∈ front, test char = true) (stops : test char = false) :
    runLength test (front ++ char :: rest) = front.length := by
  rw [runLength, List.takeWhile_append_of_pos within,
    List.takeWhile_cons_of_neg (by simp [stops]), List.append_nil]

/-- A margin with a mark behind it is what a line has in front of its prose, or the start of that. -/
theorem length_le_frontLength {margin mark more : Text}
    (margins : ∀ char ∈ margin, isMargin char = true)
    (starts : mark.head?.any fun char => !isMargin char)
    (marker : mark.length ≤ openerMarker (mark ++ more)) :
    (margin ++ mark).length ≤ frontLength openerMarker (margin ++ (mark ++ more)) := by
  have run : runLength isMargin (margin ++ (mark ++ more)) = margin.length := by
    cases mark with
    | nil => simp at starts
    | cons char rest =>
        rw [List.cons_append]
        exact runLength_append margins (by simpa using starts)
  rw [frontLength, run, List.drop_left, List.length_append]
  omega

/-- A closer with a margin behind it is what a line has behind its prose, or the end of that. -/
theorem backStart_le (before : Text) {closer behind : Text} (member : closer ∈ blockClosers)
    (margins : ∀ char ∈ behind, isMargin char = true) :
    backStart (before ++ closer ++ behind) ≤ before.length := by
  have ends : ∀ closer ∈ blockClosers,
      closer.getLast?.any (fun last => !isMargin last) = true ∧ closer ≠ [] := by
    decide
  obtain ⟨last, nonempty⟩ := ends closer member
  have body : Text.dropEndWhile isMargin (before ++ closer ++ behind) = before ++ closer := by
    refine Text.dropEndWhile_append margins ?_
    rw [List.getLast?_append_of_ne_nil _ nonempty]
    exact last
  rw [backStart, body]
  refine Nat.le_trans (Text.prefix_dropEndWhile isMargin _).length_le ?_
  rcases List.mem_cons.mp member with rfl | quotes
  · have backwards : (before ++ "*/".toText).reverse =
        .scalar '/' :: .scalar '*' :: before.reverse := by
      rw [List.reverse_append]
      rfl
    rw [backwards]
    have shorter := (List.dropWhile_suffix (l := before.reverse) (· == .scalar '*')).length_le
    simpa using shorter
  · have suffix :
        tripleQuotes.any (fun delimiter => delimiter.isSuffixOf (before ++ closer)) = true :=
      List.any_eq_true.mpr ⟨closer, quotes,
        List.isSuffixOf_iff_suffix.mpr (List.suffix_append before closer)⟩
    have length : closer.length = 3 := length_of_mem_tripleQuotes quotes
    rw [if_pos suffix]
    have unstarred : ∀ rest, (before ++ closer).reverse ≠ .scalar '/' :: .scalar '*' :: rest := by
      intro rest starred
      obtain ⟨-, slash, palindrome⟩ := head?_ne_of_mem_tripleQuotes quotes
      have head := congrArg List.head? starred
      rw [List.reverse_append, palindrome, List.head?_append_of_ne_nil _ nonempty,
        List.head?_cons] at head
      exact slash head
    split
    · next rest starred => exact absurd starred (unstarred rest)
    · rw [List.length_take, List.length_append, length]
      omega

end Margins

section Sources

variable {kind : ProseKind} {opener closer source draft corrected row last : Text}
  {inner : List Text} {index : Nat}

/-- A source over several lines that is a block with the draft in it. -/
structure IsBlockSource (kind : ProseKind) (opener closer source draft row : Text)
    (inner : List Text) (last : Text) (index : Nat) : Prop where
  lines : source.lines = row :: inner ++ [last]
  opens : ∃ first, BlockOpens kind opener closer first ∧ first <+: row
  closed : Text.lastIndexOf? closer last = some index
  within : RowsWithin draft.lines (row :: inner ++ [last.take index])
  trimmed : draft ≠ [] → draft.IsSolid

namespace IsBlockSource

theorem source_eq (block : IsBlockSource kind opener closer source draft row inner last index) :
    source = row ++ .scalar '\n' :: Text.unlines (inner ++ [last]) := by
  rw [← Text.unlines_lines source, block.lines, List.cons_append, Text.unlines_cons (by simp)]

/-- What stands in the first line of a block up to its opener, the opener included, and where the
prose of that line starts at the earliest. -/
theorem exists_head (block : IsBlockSource kind opener closer source draft row inner last index) :
    ∃ margin lead rest, row = margin ++ (lead ++ opener ++ rest) ∧
      blockHead opener source = margin ++ (lead ++ opener) ∧
      (∀ char ∈ margin, isBlank char = true) ∧
      (lead ++ opener).length ≤ openerMarker (lead ++ opener ++ rest) ∧
      (lead ++ opener).head?.any (fun char => !isMargin char) = true ∧
      (margin ++ (lead ++ opener)).getLast?.any (fun char => !isBlank char) = true := by
  obtain ⟨first, opens, more, rfl⟩ := block.opens
  obtain ⟨margin, lead, rest, rfl, blank, letters, marker⟩ := opens.exists_front
  obtain ⟨head, ending⟩ := opens.head_opener
  have nonempty : opener ≠ [] := opens.marks.1.ne_nil
  have foreign : ∀ char ∈ margin ++ lead, opener.head? ≠ some char := by
    intro char member same
    rw [same] at head
    simp only [Option.any_some, Bool.and_eq_true, Bool.not_eq_true'] at head
    rcases List.mem_append.mp member with before | letter
    · rw [blank char before] at head
      exact Bool.noConfusion head.1.1
    · rw [letters char letter] at head
      exact Bool.noConfusion head.1.2
  have whole : source = (margin ++ lead) ++ (opener ++ (rest ++ more ++
      .scalar '\n' :: Text.unlines (inner ++ [last]))) := by
    rw [block.source_eq]
    simp only [List.append_assoc]
  refine ⟨margin, lead, rest ++ more, by simp only [List.append_assoc], ?_, blank, marker _, ?_, ?_⟩
  · rw [blockHead, whole, Text.indexOf?_append_of_head _ _ foreign nonempty, Option.getD_some,
      ← List.append_assoc, ← List.length_append, List.take_left, List.append_assoc]
  · cases lead with
    | nil =>
        cases opener with
        | nil => exact absurd rfl nonempty
        | cons char others => simp_all
    | cons letter others =>
        have plain : ∀ char, isQuoteLead char = true → isMargin char = false := by
          intro char letter
          have known : char = 'r' ∨ char = 'R' ∨ char = 'u' ∨ char = 'U' := by
            simpa [isQuoteLead, or_assoc] using letter
          rcases known with rfl | rfl | rfl | rfl
          all_goals rfl
        simp [plain letter (letters letter List.mem_cons_self)]
  · rw [← List.append_assoc, List.getLast?_append_of_ne_nil _ nonempty]
    exact ending

/-- A block ends with its last line from the closer on. -/
theorem exists_tail (block : IsBlockSource kind opener closer source draft row inner last index) :
    ∃ behind, last = last.take index ++ closer ++ behind ∧
      blockTail closer source = closer ++ behind := by
  have final : source.lines.getLastD [] = last := by
    rw [block.lines, List.getLastD_concat]
  obtain ⟨behind, here⟩ := (Text.lastIndexOf?_eq_some block.closed).1
  refine ⟨behind, ?_, ?_⟩
  · rw [List.append_assoc, here, List.take_append_drop]
  · rw [blockTail, final, block.closed, Option.getD_some, ← here]

theorem prefix_blockHead (opener source : Text) : blockHead opener source <+: source :=
  List.take_prefix _ source

theorem prefix_blockHead_row
    (block : IsBlockSource kind opener closer source draft row inner last index) :
    blockHead opener source <+: row := by
  obtain ⟨margin, lead, rest, line, head, -⟩ := block.exists_head
  rw [head, line]
  exact (List.prefix_append_right_inj margin).mpr (List.prefix_append _ rest)

theorem suffix_blockTail
    (block : IsBlockSource kind opener closer source draft row inner last index) :
    blockTail closer source <:+ source := by
  obtain ⟨behind, ending, tail⟩ := block.exists_tail
  have whole : source = Text.unlines (row :: inner ++ [last.take index ++ (closer ++ behind)]) := by
    rw [← List.append_assoc, ← ending, ← block.lines, Text.unlines_lines]
  rw [tail]
  conv => rhs; rw [whole]
  exact Text.suffix_unlines_concat _ _ _

theorem isBlank_headD_lines
    (block : IsBlockSource kind opener closer source draft row inner last index)
    (some : draft ≠ []) : Text.isBlank (draft.lines.headD []) = false := by
  have head := (block.trimmed some).head
  cases draft with
  | nil => exact absurd rfl some
  | cons char rest =>
      have solid : isBlank char = false := by simpa using head
      have other : char ≠ '\n' := by
        intro feed
        rw [feed] at solid
        cases solid
      obtain ⟨first, further, split⟩ := Text.exists_lines_eq_cons rest
      rw [Text.lines_cons other, split, List.modifyHead_cons, List.headD_cons]
      simp [Text.isBlank, solid]

theorem hasMarks (block : IsBlockSource kind opener closer source draft row inner last index) :
    HasMarks kind opener closer source := by
  obtain ⟨margin, lead, rest, -, head, -⟩ := block.exists_head
  obtain ⟨behind, -, tail⟩ := block.exists_tail
  refine ⟨?_, ?_, ?_⟩
  · obtain ⟨first, opens, front⟩ := block.opens
    refine ⟨first, opens, front.trans ?_⟩
    rw [block.source_eq]
    exact List.prefix_append row _
  · rw [head, ← List.append_assoc]
    exact List.suffix_append _ opener
  · rw [tail]
    exact List.prefix_append closer behind

theorem keeps_verbatim (block : IsBlockSource kind opener closer source draft row inner last index)
    (leaves : LeavesMarks opener closer source draft corrected) {place : Nat}
    (found : Text.indexOf? draft source = some place) (some : draft ≠ []) :
    blockHead opener source <+:
        source.take place ++ corrected ++ source.drop (place + draft.length) ∧
      blockTail closer source <:+
        source.take place ++ corrected ++ source.drop (place + draft.length) := by
  constructor
  · have started : draft.lines.headD [] <+: source.drop place :=
      (Text.prefix_headD_lines draft).trans (Text.indexOf?_eq_some found).1
    obtain ⟨earliest, before, seen⟩ := exists_indexOf?_le started
    have short := leaves.behindOpener some earliest seen
    have cut : blockHead opener source <+: source.take place :=
      List.prefix_take_iff.mpr ⟨prefix_blockHead opener source, Nat.le_trans short before⟩
    exact cut.trans ((List.prefix_append _ corrected).trans (List.prefix_append _ _))
  · have short := leaves.beforeCloser place found
    refine List.IsSuffix.trans ?_ (List.suffix_append _ _)
    refine List.suffix_of_suffix_length_le block.suffix_blockTail (List.drop_suffix _ source) ?_
    rw [List.length_drop]
    omega

theorem keeps_spliced (block : IsBlockSource kind opener closer source draft row inner last index)
    (leaves : LeavesMarks opener closer source draft corrected) {rows : List Text}
    (aligned : draft.lines.length = corrected.lines.length)
    (found : spliceLines? (draft.lines.zip corrected.lines) source.lines = some rows) :
    blockHead opener source <+: Text.unlines rows ∧ blockTail closer source <:+ Text.unlines rows := by
  constructor
  · obtain ⟨correctedLine, correcteds, correctedLines⟩ := Text.exists_lines_eq_cons corrected
    by_cases some : draft = []
    · rw [some, Text.lines_nil, correctedLines, List.zip_cons_cons, List.zip_nil_left] at found
      have same : source.lines = rows := by
        rw [spliceLines?, if_pos (by rfl)] at found
        split at found
        · exact Option.some.inj found
        · cases found
      rw [← same, Text.unlines_lines]
      exact prefix_blockHead opener source
    · obtain ⟨draftLine, drafts, draftLines⟩ := Text.exists_lines_eq_cons draft
      have solid := block.isBlank_headD_lines some
      have earliest := leaves.behindOpener some
      rw [draftLines, List.headD_cons] at solid earliest
      have behind : ∀ place, Text.indexOf? draftLine row = Option.some place →
          (blockHead opener source).length ≤ place := by
        intro place seen
        obtain ⟨stands, -⟩ := Text.indexOf?_eq_some seen
        have nonempty : draftLine ≠ [] := by
          intro empty
          rw [empty] at solid
          cases solid
        have within := Text.le_length_of_prefix_drop nonempty stands
        have here : draftLine <+: source.drop place := by
          rw [block.source_eq, List.drop_append_of_le_length (by omega)]
          exact stands.trans (List.prefix_append _ _)
        obtain ⟨first, before, found⟩ := exists_indexOf?_le here
        exact Nat.le_trans (earliest first found) before
      rw [draftLines, correctedLines, List.zip_cons_cons, block.lines, List.cons_append] at found
      obtain ⟨changed, others, rfl, kept⟩ :=
        splice_keeps_front solid block.prefix_blockHead_row behind found
      exact Text.prefix_unlines_cons others kept
  · have drafts : (draft.lines.zip corrected.lines).map Prod.fst = draft.lines :=
      List.map_fst_zip (Nat.le_of_eq aligned)
    have stands : RowsWithin ((draft.lines.zip corrected.lines).map Prod.fst)
        (row :: inner ++ [last.take index]) := by
      rw [drafts]
      exact block.within
    obtain ⟨behind, ending, tail⟩ := block.exists_tail
    have whole : last = last.take index ++ blockTail closer source := by
      rw [tail, ← List.append_assoc, ← ending]
    rw [block.lines, whole] at found
    obtain ⟨kept, changed, rfl⟩ := splice_keeps_back stands found
    exact Text.suffix_unlines_concat kept changed _

theorem keeps_rebuilt (block : IsBlockSource kind opener closer source draft row inner last index)
    (leaves : LeavesMarks opener closer source draft corrected)
    (anew : isRebuilt source draft corrected = true) :
    blockHead opener source <+: Text.unlines (rebuild source.lines corrected.lines) ∧
      blockTail closer source <:+ Text.unlines (rebuild source.lines corrected.lines) := by
  obtain ⟨margin, lead, rest, line, head, blank, marker, starts, solid⟩ := block.exists_head
  obtain ⟨behind, ending, tail⟩ := block.exists_tail
  obtain ⟨first, opens, -⟩ := block.opens
  have some := Text.lines_ne_nil corrected
  rw [block.lines, rebuild_eq_rebuildLines]
  constructor
  · have margins : ∀ char ∈ margin, isMargin char = true := by
      intro char member
      refine leaves.marginsBefore anew char ?_ (blank char member)
      rw [head]
      exact List.mem_append_left _ member
    have front := block.prefix_blockHead_row
    have reach := length_le_frontLength margins starts marker
    rw [← line, ← head] at reach
    rw [← head] at solid
    obtain ⟨changed, others, joined, kept⟩ :=
      rebuildLines_keeps_front inner last some front solid reach
    rw [joined]
    exact Text.prefix_unlines_cons others kept
  · have margins : ∀ char ∈ behind, isMargin char = true := by
      intro char member
      refine leaves.marginsBehind anew char ?_
      rw [tail, List.drop_left]
      exact member
    have reach := backStart_le (last.take index) opens.marks.2.1 margins
    rw [← ending] at reach
    have whole : last = last.take index ++ blockTail closer source := by
      rw [tail, ← List.append_assoc, ← ending]
    obtain ⟨kept, changed, joined⟩ :=
      rebuildLines_keeps_back row inner some whole reach
    rw [joined]
    exact Text.suffix_unlines_concat kept changed _

/-- The marks of a block are kept in every way of replacing its prose that does not touch them. -/
theorem keeps (block : IsBlockSource kind opener closer source draft row inner last index)
    (leaves : LeavesMarks opener closer source draft corrected) :
    blockHead opener source <+: buildReplacement source draft corrected ∧
      blockTail closer source <:+ buildReplacement source draft corrected := by
  have replaces := buildReplacement_replaces source draft corrected
  generalize buildReplacement source draft corrected = result at replaces ⊢
  cases replaces with
  | unchanged same => exact ⟨prefix_blockHead opener source, block.suffix_blockTail⟩
  | verbatim found some => exact block.keeps_verbatim leaves found some
  | spliced aligned found => exact block.keeps_spliced leaves aligned found
  | rebuilt anew => exact block.keeps_rebuilt leaves anew

end IsBlockSource

end Sources

section Spans

variable {opener closer : Text}

/-- A block over several lines of a code, at its place in the code. -/
theorem Fragment.IsBlock.isBlockSource {code : Text} {fragment : Fragment}
    (block : fragment.IsBlock (codeLines code) opener closer)
    (stands : fragment.StandsIn (codeLines code)) :
    ∃ row inner last index,
      IsBlockSource fragment.kind opener closer (fragment.sourceIn code) fragment.text row inner last
        index := by
  obtain ⟨index, closed⟩ := Text.exists_lastIndexOf? block.closed
  have known : fragment.startLine < code.lines.length := by
    have count := length_codeLines code
    have before := block.before
    have last := block.known
    omega
  have rows : slice code.lines fragment.startLine fragment.stopLine =
      code.lines.getD fragment.startLine [] ::
        slice code.lines (fragment.startLine + 1) fragment.stopLine :=
    slice_eq_cons block.before known
  refine ⟨code.lines.getD fragment.startLine [], slice code.lines (fragment.startLine + 1)
    fragment.stopLine, (codeLines code).getD fragment.stopLine [], index, ?_, ?_, closed, ?_, ?_⟩
  · rw [block.lines_sourceIn stands, rows]
  · exact ⟨_, block.opens, prefix_codeLines_getD code fragment.startLine⟩
  · rw [← rows]
    exact block.rowsWithin_code closed
  · rw [block.text, ProseKind.clean]
    exact Text.isSolid_trim

namespace Document

variable {document : Document} {registry : Registry} {options : ExtractionOptions} {span : Span}

/-- A span over several lines has its source in a block, and whatever corrects its prose without
touching the marks leaves the source up to its opener and from its closer on as it is. -/
theorem buildReplacement_keepsMarks (extracts : document.Extracts registry options span)
    (several : span.range.start.line ≠ span.range.stop.line) (corrected : Text) :
    ∃ opener closer, HasMarks span.kind opener closer (document.textIn span.range) ∧
      (LeavesMarks opener closer (document.textIn span.range) span.text corrected →
        blockHead opener (document.textIn span.range) <+:
            buildReplacement (document.textIn span.range) span.text corrected ∧
          blockTail closer (document.textIn span.range) <:+
            buildReplacement (document.textIn span.range) span.text corrected) := by
  obtain ⟨origin, code, fragment, cut, source⟩ := extracts.exists_fragment
  obtain ⟨opener, closer, block⟩ := cut.comes.isBlock (lineFeed_not_mem_codeLines code)
    fun single => several ((single_iff cut.range).mpr single)
  obtain ⟨row, inner, last, index, whole⟩ := block.isBlockSource cut.stands
  rw [source, cut.text, cut.kind]
  exact ⟨opener, closer, whole.hasMarks, whole.keeps⟩

def tailedNote : Document where
  identity := "note"
  languageId := "java"
  text := "/* Teh cat\n * sleeps. */ int x = 1;"

/-- A line for a line: the code behind the closer stays. -/
theorem buildReplacement_tailedNote :
    ∃ span ∈ tailedNote.spans .builtin {},
      tailedNote.textIn span.range = "/* Teh cat\n * sleeps. */ int x = 1;".toText ∧
        "*/ int x = 1;".toText <:+
          buildReplacement (tailedNote.textIn span.range) span.text "The cat\nsleeps." := by
  have found : ∃ span ∈ tailedNote.spans .builtin {},
      span.range.start.line ≠ span.range.stop.line ∧ span.kind = .comment ∧
        span.text = "Teh cat\nsleeps.".toText ∧
        tailedNote.textIn span.range = "/* Teh cat\n * sleeps. */ int x = 1;".toText := by
    decide +kernel
  obtain ⟨span, member, several, kind, draft, source⟩ := found
  obtain ⟨opener, closer, marks, keeps⟩ :=
    buildReplacement_keepsMarks (.whole member) several "The cat\nsleeps."
  rw [kind] at marks
  obtain ⟨⟨first, opens, -⟩, -, -⟩ := marks
  cases opens with
  | comment opened =>
      rw [draft, source] at keeps
      have tail : blockTail "*/" "/* Teh cat\n * sleeps. */ int x = 1;" = "*/ int x = 1;".toText := by
        decide +kernel
      have kept := (keeps ⟨by decide +kernel, by decide +kernel, by decide +kernel,
        by decide +kernel⟩).2
      refine ⟨span, member, source, ?_⟩
      rw [source, draft, ← tail]
      exact kept

/-- Fewer lines for the lines of a draft: they are written anew, and the closer is lost with the code
behind it. -/
theorem not_forall_keepsMarks :
    ¬ ∀ (document : Document) (options : ExtractionOptions) (span : Span) (corrected : Text),
      document.Extracts .builtin options span → span.range.start.line ≠ span.range.stop.line →
        ∀ opener closer, HasMarks span.kind opener closer (document.textIn span.range) →
          Text.contains closer corrected = false →
            blockHead opener (document.textIn span.range) <+:
                buildReplacement (document.textIn span.range) span.text corrected ∧
              blockTail closer (document.textIn span.range) <:+
                buildReplacement (document.textIn span.range) span.text corrected := by
  intro keeps
  have found : ∃ span ∈ tailedNote.spans .builtin {},
      span.range.start.line ≠ span.range.stop.line ∧ span.kind = .comment ∧
        tailedNote.textIn span.range = "/* Teh cat\n * sleeps. */ int x = 1;".toText ∧
        ¬ blockTail "*/" (tailedNote.textIn span.range) <:+
          buildReplacement (tailedNote.textIn span.range) span.text "The cat sleeps." := by
    decide +kernel
  obtain ⟨span, member, several, kind, source, lost⟩ := found
  have marks : HasMarks .comment "/*" "*/" "/* Teh cat\n * sleeps. */ int x = 1;" :=
    ⟨⟨"/* Teh cat", .comment (by decide +kernel), by decide +kernel⟩, by decide +kernel,
      by decide +kernel⟩
  rw [← source, ← kind] at marks
  exact lost (keeps tailedNote {} span "The cat sleeps." (.whole member) several _ _ marks
    (by decide)).2

end Document

end Spans

end CodeProse
