import CodeProse.Proofs.Language.Classification
import CodeProse.Proofs.Run.ApplyAll

/-!
# Corrected comments

A correction of prose on a single line replaces the line by the lines of the corrected text between
what stood around the prose. The first of them is still a comment where the front of the line makes it
one. Those behind it have nothing in front: they are comments only if the corrected text says so.
-/

set_option autoImplicit false

namespace CodeProse

variable {σ : Type}

section Lines

/-- A line of a document up to the prose on it. -/
def Document.lineFront (document : Document) (span : Span) : Text :=
  (document.text.lines.getD span.range.start.line.toNat []).take span.range.start.column.toNat

/-- A line of a document behind the prose on it. -/
def Document.lineBack (document : Document) (span : Span) : Text :=
  (document.text.lines.getD span.range.start.line.toNat []).drop span.range.stop.column.toNat

/-- The lines that come about when the prose on a line is replaced. -/
def Document.producedLines (document : Document) (span : Span) (text : Text) : List Text :=
  Text.lines (document.lineFront span ++ (text ++ document.lineBack span))

theorem Document.lineFeed_not_mem_line (document : Document) (span : Span) :
    .scalar '\n' ∉ document.text.lines.getD span.range.start.line.toNat [] :=
  Text.lineFeed_not_mem_getD (fun _ => Text.lineFeed_not_mem_of_mem_lines) _

/-- A stretch of one line of a text is replaced: the lines before and behind it stay. -/
theorem lines_replaceStretch {rows : List Text} {line start stop : Nat} (text : Text)
    (plain : ∀ row ∈ rows, .scalar '\n' ∉ row) (known : line < rows.length)
    (startWithin : start ≤ lineLength rows line) (stopWithin : stop ≤ lineLength rows line) :
    Text.lines ((Text.unlines rows).take (lineStart rows line + start) ++ text ++
        (Text.unlines rows).drop (lineStart rows line + stop)) =
      rows.take line ++
        Text.lines ((rows.getD line []).take start ++ (text ++ (rows.getD line []).drop stop)) ++
          rows.drop (line + 1) := by
  have before : ∀ row ∈ rows.take line, .scalar '\n' ∉ row :=
    fun row member => plain row (List.mem_of_mem_take member)
  have behind : ∀ row ∈ rows.drop (line + 1), .scalar '\n' ∉ row :=
    fun row member => plain row (List.mem_of_mem_drop member)
  rw [take_lineStart known startWithin, drop_lineStart_add known stopWithin]
  generalize (rows.getD line []).take start = front
  generalize (rows.getD line []).drop stop = back
  generalize rows.take line = firsts at before
  generalize rows.drop (line + 1) = lasts at behind
  rw [List.append_assoc, ← Text.unlines_append_concat]
  cases lasts with
  | nil =>
      rw [Text.unlines_singleton, Text.lines_unlines_concat before, List.append_nil]
  | cons next others =>
      rw [Text.unlines_cons_cons, Text.lines_unlines_concat before]
      have regroup : front ++ (text ++ (back ++ .scalar '\n' :: Text.unlines (next :: others))) =
          (front ++ (text ++ back)) ++ .scalar '\n' :: Text.unlines (next :: others) := by
        simp only [List.append_assoc]
      rw [regroup, Text.lines_append_lineFeed_cons, Text.lines_unlines behind (List.cons_ne_nil _ _),
        List.append_assoc]

end Lines

section Fronts

variable {document : Document} {registry : Registry} {options : ExtractionOptions} {span : Span}

/-- What keeps the first line of a replaced comment a comment: each opener of the line stands in
front of the prose, and no language takes the new line for a documentation string or a string
literal. -/
structure Document.KeepsComment (document : Document) (candidates : List LanguageDefinition)
    (span : Span) (text : Text) : Prop where
  inFront : ∀ definition ∈ candidates, ∀ pattern ∈ definition.comments.openers,
    pattern.fits ((codeLines document.text).getD span.range.start.line.toNat []) = true →
      pattern.fits (document.lineFront span) = true
  unquoted : ∀ definition ∈ candidates,
    definition.isUnquoted ((document.producedLines span text).headD []) = true

/-- The first line that comes about goes on from the front of the line, and the further ones are those
of the text, with what stands behind the prose. -/
theorem Document.exists_producedLines_eq_cons (document : Document) (span : Span) (text : Text) :
    ∃ more, document.producedLines span text =
      (document.lineFront span ++ more) :: (text ++ document.lineBack span).lines.tail := by
  have front : .scalar '\n' ∉ document.lineFront span :=
    fun feed => document.lineFeed_not_mem_line span (List.mem_of_mem_take feed)
  obtain ⟨first, further, split⟩ := Text.exists_lines_eq_cons (text ++ document.lineBack span)
  refine ⟨first, ?_⟩
  rw [producedLines, Text.lines_append_of_not_mem front, split, List.modifyHead_cons, List.tail_cons]

theorem Document.length_producedLines (document : Document) (span : Span) (text : Text) :
    (document.producedLines span text).length = text.lines.length := by
  have front : .scalar '\n' ∉ document.lineFront span :=
    fun feed => document.lineFeed_not_mem_line span (List.mem_of_mem_take feed)
  have back : .scalar '\n' ∉ document.lineBack span :=
    fun feed => document.lineFeed_not_mem_line span (List.mem_of_mem_drop feed)
  rw [producedLines, Text.length_lines, Text.length_lines, List.count_append, List.count_append,
    List.count_eq_zero.mpr front, List.count_eq_zero.mpr back, Nat.zero_add, Nat.add_zero]

/-- The first line of a replaced comment is a comment again. -/
theorem Document.classify?_headD_producedLines (member : span ∈ document.spans registry options)
    (comment : span.kind = .comment) (single : span.range.start.line = span.range.stop.line)
    (markers : registry.UsesMarkers) {text : Text}
    (keeps : document.KeepsComment
      (registry.candidates (document.scanLanguage registry options)) span text) :
    registry.classify? (document.scanLanguage registry options)
      ((document.producedLines span text).headD []) = some .comment := by
  have carried := classify?_of_mem_spans member single
  rw [comment] at carried
  obtain ⟨definition, candidate, pattern, opener, fits⟩ := Registry.exists_opener_of_classify? carried
  have front := keeps.inFront definition candidate pattern opener fits
  have marks := List.all_eq_true.mp
    (markers definition (Registry.mem_definitions_of_mem_candidates candidate)) pattern opener
  obtain ⟨more, produced⟩ := document.exists_producedLines_eq_cons span text
  have unquoted := keeps.unquoted
  rw [produced, List.headD_cons] at unquoted ⊢
  obtain ⟨opened, solid⟩ := LinePattern.fits_append_of_isMarker marks front more
  exact Registry.classify?_of_opener solid unquoted candidate opener opened

end Fronts

namespace Workspace

variable {document : Document} {registry : Registry} {options : ExtractionOptions} {span : Span}

/-- A correction that is carried out alone puts its replacement in the place of its range. -/
theorem text_of_carriesOut {correction : Correction} {applied : List Correction} {changed : Document}
    (carried : document.CarriesOut [correction] applied changed)
    (ordered : offsetAt document.text correction.range.start ≤
      offsetAt document.text correction.range.stop) :
    changed.text = document.text.take (offsetAt document.text correction.range.start) ++
      correction.replacementIn document ++
        document.text.drop (offsetAt document.text correction.range.stop) := by
  have selected := carried.selected
  rw [carried.replaced]
  cases differs : correction.makesDifference document with
  | true =>
      rw [List.filter_cons_of_pos differs, List.filter_nil] at selected
      rw [List.perm_singleton.mp selected]
      rfl
  | false =>
      rw [List.filter_cons_of_neg (ne_true_of_eq_false differs), List.filter_nil] at selected
      rw [List.perm_nil.mp selected, Correction.replacementIn_of_idle differs, Document.textIn,
        take_append_slice _ ordered, List.take_append_drop]
      rfl

/-- A correction of one span on a single line puts its text in the place of the prose. -/
theorem place_single (corrector : Corrector σ) (workspace : Workspace σ)
    (writable : document.readOnly = false) (member : span ∈ document.spans registry options)
    (single : span.range.start.line = span.range.stop.line) (text : Text) (confidence : Binary64) :
    ∃ applied changed after,
      workspace.place corrector document [span.correctedBy text confidence] =
          (some applied, changed, after) ∧
        changed.text = document.text.take (offsetAt document.text span.range.start) ++ text ++
          document.text.drop (offsetAt document.text span.range.stop) := by
  obtain ⟨start, stop⟩ := Document.liesIn_of_mem_spans member
  have before := Document.start_lt_stop_of_mem_spans member
  have literal : (span.correctedBy text confidence).replacementIn document = text :=
    (replacementIn_of_single member rfl rfl single).1
  have spaced : Spaced ([span.correctedBy text confidence].map Correction.range) := by
    refine ⟨fun range member => ?_, ?_⟩
    · rw [List.mem_singleton.mp member]
      exact before
    · exact List.isChain_singleton _
  have inside : ∀ correction ∈ [span.correctedBy text confidence],
      correction.range.start.LiesIn document.text ∧ correction.range.stop.LiesIn document.text := by
    intro correction member
    rw [List.mem_singleton.mp member]
    exact ⟨start, stop⟩
  obtain ⟨applied, changed, after, placed, carried⟩ :=
    place_carriesOut corrector writable spaced inside workspace
  have exchanged := text_of_carriesOut carried (start.offsetAt_le stop (le_of_lt before))
  rw [literal] at exchanged
  exact ⟨applied, changed, after, placed, exchanged⟩

/-- A correction of one span on a single line replaces the line by those that come about. -/
theorem applySubset_single (corrector : Corrector σ) (workspace : Workspace σ)
    (writable : document.readOnly = false) (member : span ∈ document.spans registry options)
    (single : span.range.start.line = span.range.stop.line) (text : Text) (confidence : Binary64) :
    ∃ application changed after,
      applySubset corrector (some document) [span.correctedBy text confidence] workspace =
          (.ok (application, changed), after) ∧
        application.succeeded = true ∧
        changed.text.lines = document.text.lines.take span.range.start.line.toNat ++
          document.producedLines span text ++
            document.text.lines.drop (span.range.start.line.toNat + 1) := by
  obtain ⟨start, stop⟩ := Document.liesIn_of_mem_spans member
  obtain ⟨applied, changed, after, placed, exchanged⟩ :=
    place_single corrector workspace writable member single text confidence
  have startWithin := start.toNat_column_le
  have stopWithin := stop.toNat_column_le
  rw [← single] at stopWithin
  have produced := lines_replaceStretch text
    (fun _ => Text.lineFeed_not_mem_of_mem_lines) start.toNat_line_lt startWithin stopWithin
  rw [Text.unlines_lines] at produced
  simp only [applySubset, placed]
  refine ⟨_, _, _, rfl, rfl, ?_⟩
  rw [exchanged, start.offsetAt_eq, stop.offsetAt_eq, ← single]
  exact produced

/-- A comment on a single line is replaced by as many lines as the text in its place has. The first of
them is a comment again, if the markers of the line stand in front of the prose and quotes do not make
it look like a documentation string or a string literal. So all are comments if the text is on one
line, and else exactly if the further lines of the text are comments by themselves: nothing is put in
front of them. -/
theorem applySubset_comment (corrector : Corrector σ) (workspace : Workspace σ)
    (writable : document.readOnly = false) (member : span ∈ document.spans registry options)
    (comment : span.kind = .comment) (single : span.range.start.line = span.range.stop.line)
    (markers : registry.UsesMarkers) (text : Text) (confidence : Binary64)
    (keeps : document.KeepsComment
      (registry.candidates (document.scanLanguage registry options)) span text) :
    ∃ application changed after,
      applySubset corrector (some document) [span.correctedBy text confidence] workspace =
          (.ok (application, changed), after) ∧
        application.succeeded = true ∧
        changed.text.lines = document.text.lines.take span.range.start.line.toNat ++
          document.producedLines span text ++
            document.text.lines.drop (span.range.start.line.toNat + 1) ∧
        (document.producedLines span text).length = text.lines.length ∧
        (.scalar '\n' ∉ text → ∀ row ∈ document.producedLines span text,
          registry.classify? (document.scanLanguage registry options) row = some .comment) ∧
        ((∀ row ∈ document.producedLines span text,
          registry.classify? (document.scanLanguage registry options) row = some .comment) ↔
            ∀ row ∈ (text ++ document.lineBack span).lines.tail,
              registry.classify? (document.scanLanguage registry options) row = some .comment) := by
  obtain ⟨application, changed, after, applies, succeeded, lines⟩ :=
    applySubset_single corrector workspace writable member single text confidence
  have first := Document.classify?_headD_producedLines member comment single markers keeps
  obtain ⟨more, produced⟩ := document.exists_producedLines_eq_cons span text
  have count := document.length_producedLines span text
  have further : (∀ row ∈ document.producedLines span text,
      registry.classify? (document.scanLanguage registry options) row = some .comment) ↔
        ∀ row ∈ (text ++ document.lineBack span).lines.tail,
          registry.classify? (document.scanLanguage registry options) row = some .comment := by
    rw [produced, List.headD_cons] at first
    rw [produced, List.forall_mem_cons, and_iff_right first]
  refine ⟨application, changed, after, applies, succeeded, lines, count, ?_, further⟩
  intro plain
  have none : (text ++ document.lineBack span).lines.tail = [] := by
    rw [produced, Text.length_lines, List.count_eq_zero.mpr plain, List.length_cons] at count
    exact List.eq_nil_of_length_eq_zero (Nat.succ.inj count)
  rw [further, none]
  exact fun row impossible => nomatch impossible

def commentNote : Document where
  identity := "note"
  languageId := "python"
  text := "y = 0\n# Teh cat\n"

/-- The comment is corrected on its own line. -/
theorem applySubset_commentNote :
    ∃ span ∈ commentNote.spans .builtin {}, ∃ application changed after,
      applySubset catCorrector (some commentNote) [span.correctedBy "The cat" span.confidence]
          { session := { service := () } } = (.ok (application, changed), after) ∧
        application.succeeded = true ∧
        changed.text.lines = ["y = 0".toText, "# The cat".toText, []] ∧
        Registry.builtin.classify? "python" "# The cat" = some .comment := by
  have found : ∃ span ∈ commentNote.spans .builtin {},
      span.kind = .comment ∧ span.range.start.line = span.range.stop.line ∧
        (∀ definition ∈ Registry.builtin.candidates (commentNote.scanLanguage .builtin {}),
          ∀ pattern ∈ definition.comments.openers,
            pattern.fits ((codeLines commentNote.text).getD span.range.start.line.toNat []) = true →
              pattern.fits (commentNote.lineFront span) = true) ∧
        (∀ definition ∈ Registry.builtin.candidates (commentNote.scanLanguage .builtin {}),
          definition.isUnquoted ((commentNote.producedLines span "The cat").headD []) = true) ∧
        commentNote.producedLines span "The cat" = ["# The cat".toText] ∧
        commentNote.text.lines.take span.range.start.line.toNat = ["y = 0".toText] ∧
        commentNote.text.lines.drop (span.range.start.line.toNat + 1) = [[]] := by
    decide +kernel
  obtain ⟨span, member, comment, single, inFront, unquoted, produced, before, behind⟩ := found
  obtain ⟨application, changed, after, applies, succeeded, lines, -, comments, -⟩ :=
    applySubset_comment catCorrector { session := { service := () } } rfl member comment single
      usesMarkers_builtin "The cat" span.confidence ⟨inFront, unquoted⟩
  rw [produced] at lines comments
  rw [before, behind] at lines
  refine ⟨span, member, application, changed, after, applies, succeeded, lines, ?_⟩
  exact comments (by decide) _ List.mem_cons_self

/-- A reply on two lines puts code behind a comment. -/
theorem not_forall_comment_kept :
    ¬ ∀ (document : Document) (options : ExtractionOptions) (reply : Text),
      ∀ span ∈ document.spans .builtin options, span.kind = .comment →
        span.range.start.line = span.range.stop.line →
          ∀ application changed after,
            applySubset catCorrector (some document)
                [span.correctedBy (unwrap reply span.text) span.confidence]
                { session := { service := () } } = (.ok (application, changed), after) →
              ∀ row ∈ slice changed.text.lines span.range.start.line.toNat
                  (span.range.start.line.toNat + (unwrap reply span.text).lines.length),
                Registry.builtin.classify? (document.scanLanguage .builtin options) row =
                  some .comment := by
  intro law
  have found : ∃ span ∈ commentNote.spans .builtin {},
      span.kind = .comment ∧ span.range.start.line = span.range.stop.line ∧
        ∃ applied ∈ (applySubset catCorrector (some commentNote)
            [span.correctedBy (unwrap "The cat\nx = 1" span.text) span.confidence]
            { session := { service := () } }).1.toOption,
          ∃ row ∈ slice applied.2.text.lines span.range.start.line.toNat
              (span.range.start.line.toNat + (unwrap "The cat\nx = 1" span.text).lines.length),
            Registry.builtin.classify? (commentNote.scanLanguage .builtin {}) row ≠
              some .comment := by
    decide +kernel
  obtain ⟨span, member, comment, single, ⟨application, changed⟩, applied, row, produced, code⟩ :=
    found
  generalize outcome : applySubset catCorrector (some commentNote)
    [span.correctedBy (unwrap "The cat\nx = 1" span.text) span.confidence]
    { session := { service := () } } = result at applied
  rcases result with ⟨failure | placed, after⟩
  · cases applied
  · cases applied
    exact code (law commentNote {} "The cat\nx = 1" span member comment single application changed
      after outcome row produced)

end Workspace

end CodeProse
