import CodeProse.Proofs.Correction.Replacement
import CodeProse.Proofs.Document.Extent
import CodeProse.Proofs.Run.Comments
import CodeProse.Proofs.Run.Preview

/-!
# Corrections that are applied twice

The range of a correction says where its draft stood. Once a document is changed, the range is read
in the new text, and a replacement that reaches further or less far than its source moves what
stands there. Where each replacement reaches as far as its source, all ranges hold their
replacements, and applying the corrections again leaves the document as it is.
-/

set_option autoImplicit false

namespace CodeProse

variable {σ : Type}

/-- A correction whose replacement reaches as far as the source of its range, and is not changed by
the same correction any more. -/
structure Correction.StaysPut (document : Document) (correction : Correction) : Prop where
  reaches : Text.extent (correction.replacementIn document) =
    Text.extent (document.textIn correction.range)
  settled : buildReplacement (correction.replacementIn document) correction.draft correction.text =
    correction.replacementIn document

theorem Correction.StaysPut.of_idle {document : Document} {correction : Correction}
    (idle : correction.makesDifference document = false) : correction.StaysPut document := by
  have same := Correction.replacementIn_of_idle idle
  refine ⟨congrArg Text.extent same, ?_⟩
  rw [same]
  exact same

section PlainLines

/-- A text on one line that has no marker of the code at its front or its end. -/
structure Text.IsPlainLine (text : Text) : Prop where
  single : .scalar '\n' ∉ text
  solid : Text.isBlank text = false
  unopened : frontLength openerMarker text = 0
  unclosed : backStart text = text.length

theorem rebuild_of_isPlainLine {text : Text} (plain : text.IsPlainLine) :
    rebuild [text] [text] = [text] := by
  simp only [rebuild, rebuildLine, plain.unopened, List.drop_zero, plain.unclosed, List.drop_length,
    List.take_zero, List.map_nil, frontedLine, plain.solid, Bool.false_eq_true, if_false,
    List.nil_append, appendToLast, List.append_nil]

/-- A plain line of the length of a draft on one line is not changed by a correction of the draft to
that line. -/
theorem buildReplacement_of_isPlainLine {draft text : Text} (single : .scalar '\n' ∉ draft)
    (plain : text.IsPlainLine) (length : text.length = draft.length) :
    buildReplacement text draft text = text := by
  by_cases same : draft = text
  · rw [buildReplacement, if_pos same]
  · have elsewhere : Text.contains draft text = false := by
      refine Bool.eq_false_iff.mpr fun found => same ?_
      exact (Text.contains_iff_isInfix.mp found).eq_of_length length.symm
    have unspliced : spliceLines? [(draft, text)] [text] = none := by
      have missing : [text].findIdx? (Text.contains draft) = none := by
        simp [elsewhere]
      rw [spliceLines?, missing, plain.solid]
      simp
    have aligned : [draft].length = [text].length := rfl
    rw [buildReplacement, if_neg same, if_neg (by simp [elsewhere]),
      Text.lines_of_not_mem single, Text.lines_of_not_mem plain.single, if_pos aligned,
      List.zip_cons_cons, List.zip_nil_right, unspliced, rebuild_of_isPlainLine plain]
    exact Text.unlines_singleton text

theorem Document.lineFeed_not_mem_textIn {document : Document} {range : Range}
    (start : range.start.LiesIn document.text) (stop : range.stop.LiesIn document.text)
    (single : range.start.line = range.stop.line) : .scalar '\n' ∉ document.textIn range := by
  have known := start.toNat_line_lt
  have within := stop.toNat_column_le
  rw [textIn, start.offsetAt_eq, stop.offsetAt_eq, single]
  rw [single] at known
  rw [slice_line known within]
  intro feed
  exact Text.lineFeed_not_mem_getD (fun _ => Text.lineFeed_not_mem_of_mem_lines) _
    (List.mem_of_mem_take (List.mem_of_mem_drop feed))

/-- A correction of a span on a single line to a plain line of the same length stays put. -/
theorem Correction.StaysPut.of_isPlainLine {document : Document} {registry : Registry}
    {options : ExtractionOptions} {span : Span} (member : span ∈ document.spans registry options)
    {correction : Correction} (range : correction.range = span.range)
    (draft : correction.draft = span.text)
    (single : correction.range.start.line = correction.range.stop.line)
    (plain : correction.text.IsPlainLine)
    (length : correction.text.length = correction.draft.length) : correction.StaysPut document := by
  obtain ⟨replacement, source⟩ := Workspace.replacementIn_of_single member range draft single
  have lies := Document.liesIn_of_mem_spans member
  rw [← range] at lies
  have unbroken := Document.lineFeed_not_mem_textIn lies.1 lies.2 single
  rw [source] at unbroken
  refine ⟨?_, ?_⟩
  · rw [replacement, source, Text.extent_of_not_mem plain.single, Text.extent_of_not_mem unbroken,
      length]
  · rw [replacement, buildReplacement_of_isPlainLine unbroken plain length]

end PlainLines

section Ranges

variable {document : Document} {corrections : List Correction}

/-- Corrections that make no difference may be carried out as well. -/
theorem Document.textWith_effective (follow : FollowOn document.text.length 0 (document.offsetEdits
      (stableSort (fun left right => left.range.notAfter right.range) corrections))) :
    document.textWith (EditPlan.effective document corrections) = document.textWith
      (stableSort (fun left right => left.range.notAfter right.range) corrections) := by
  refine replacedFrom_filter _ _ follow fun correction _ idle => ?_
  exact Correction.replacementIn_of_idle idle

/-- Where all corrections stay put, each range holds its replacement once they are carried out. -/
theorem Document.textIn_textWith
    (follow : FollowOn document.text.length 0 (document.offsetEdits corrections))
    (inside : ∀ correction ∈ corrections, correction.range.start.LiesIn document.text ∧
      correction.range.stop.LiesIn document.text)
    (stays : ∀ correction ∈ corrections, correction.StaysPut document) :
    ∀ correction ∈ corrections,
      ({ document with text := document.textWith corrections } : Document).textIn
        correction.range = correction.replacementIn document := by
  intro correction member
  obtain ⟨start, stop⟩ := inside correction member
  have reaches : ∀ edit ∈ document.offsetEdits corrections, Text.extent edit.replacement =
      Text.extent (slice document.text edit.start.toNat edit.stop.toNat) := by
    intro edit known
    obtain ⟨other, among, rfl⟩ := List.mem_map.mp known
    exact (stays other among).reaches
  have nothing : Text.extent [] = Text.extent (document.text.take 0) := rfl
  obtain ⟨before, behind, cut, starts, stops⟩ :=
    exists_replacedFrom_cut follow reaches nothing _ (List.mem_map_of_mem member)
  have startAt : correction.range.start = before.extent := start.eq_extent.trans starts.symm
  have stopAt : correction.range.stop =
      (before ++ correction.replacementIn document).extent := stop.eq_extent.trans stops.symm
  have whole : document.textWith corrections =
      before ++ (correction.replacementIn document ++ behind) := cut
  rw [textIn, whole]
  exact Text.slice_of_extents startAt stopAt

end Ranges

/-- Why corrections may leave the text of a document as it is: it takes no edits, one of those that make
a difference reaches out of the text, or what they replace comes to the same text. -/
inductive Document.KeepsText (document : Document) (corrections : List Correction) : Prop where
  | readOnly (refuses : document.readOnly = true)
  | outside {correction : Correction} (among : correction ∈ corrections)
      (differs : correction.makesDifference document = true)
      (outside : ¬ (correction.range.start.LiesIn document.text ∧
        correction.range.stop.LiesIn document.text))
  | same (equal : document.textWith (EditPlan.effective document corrections) = document.text)

namespace Workspace

section Place

variable {document : Document} {corrections : List Correction}

/-- Placing spaced corrections keeps the text of a document for one of three reasons only. -/
theorem text_place_eq_iff (corrector : Corrector σ)
    (spaced : Spaced (corrections.map Correction.range)) (workspace : Workspace σ) :
    (workspace.place corrector document corrections).2.1.text = document.text ↔
      document.KeepsText corrections := by
  have known : ∀ correction, correction ∈ EditPlan.effective document corrections ↔
      correction ∈ corrections ∧ correction.makesDifference document = true := by
    simp [EditPlan.effective]
  cases writable : document.readOnly with
  | true =>
      rw [(place_of_refused corrector (if_pos writable) workspace).2.1]
      exact iff_of_true rfl (.readOnly writable)
  | false =>
      by_cases inside : ∀ correction ∈ EditPlan.effective document corrections,
        correction.range.start.LiesIn document.text ∧ correction.range.stop.LiesIn document.text
      · obtain ⟨after, placed⟩ := place_effective corrector writable spaced inside workspace
        rw [placed]
        constructor
        · exact .same
        · rintro (refuses | ⟨among, differs, outside⟩ | same)
          · rw [writable] at refuses
            cases refuses
          · exact absurd (inside _ ((known _).mpr ⟨among, differs⟩)) outside
          · exact same
      · obtain ⟨correction, effective, outside⟩ := not_forall₂.mp inside
        obtain ⟨among, differs⟩ := (known correction).mp effective
        have refused : document.replaceRanges? (EditPlan.ofCorrections document corrections).edits =
            none := by
          refine Option.eq_none_iff_forall_not_mem.mpr fun changed taken => outside ?_
          obtain ⟨-, text, taken, -⟩ := Document.replaceRanges?_eq_some_iff_writable.mp taken
          rw [(EditPlan.ofCorrections_of_spaced document spaced).2] at taken
          have fits := fits_of_replaceRanges? taken _ (List.mem_map_of_mem effective)
          exact ⟨fits.start, fits.stop⟩
        rw [(place_of_refused corrector refused workspace).2.1]
        exact iff_of_true rfl (.outside among differs outside)

/-- Corrections that stay put make no difference any more once they are carried out. -/
theorem makesDifference_textWith (spaced : Spaced (corrections.map Correction.range))
    (inside : ∀ correction ∈ corrections, correction.range.start.LiesIn document.text ∧
      correction.range.stop.LiesIn document.text)
    (stays : ∀ correction ∈ corrections, correction.StaysPut document) :
    ∀ correction ∈ corrections, correction.makesDifference { document with
      text := document.textWith (EditPlan.effective document corrections) } = false := by
  have apart := spaced.apart
  rw [← map_stableSort] at apart
  have follow := followOn_offsetEdits apart fun correction member =>
    fits_editIn spaced (mem_stableSort.mp member) (inside correction (mem_stableSort.mp member))
  rw [Document.textWith_effective follow]
  intro correction member
  have source := Document.textIn_textWith follow
    (fun correction member => inside correction (mem_stableSort.mp member))
    (fun correction member => stays correction (mem_stableSort.mp member)) correction
    (mem_stableSort.mpr member)
  have settled := (stays correction member).settled
  rw [Correction.makesDifference, Correction.replacementIn, source, settled]
  simp

/-- Corrections that stay put are placed once: placing them again leaves no trace but a report. -/
theorem place_again (corrector : Corrector σ) (spaced : Spaced (corrections.map Correction.range))
    (inside : ∀ correction ∈ corrections, correction.range.start.LiesIn document.text ∧
      correction.range.stop.LiesIn document.text)
    (stays : ∀ correction ∈ corrections, correction.makesDifference document = true →
      correction.StaysPut document) {placed : Option (List Correction)} {once : Document}
    {workspace middle : Workspace σ}
    (places : workspace.place corrector document corrections = (placed, once, middle)) :
    (middle.place corrector once corrections).1.getD [] = [] ∧
      (middle.place corrector once corrections).2.1 = once ∧
      middle.SameRecords (middle.place corrector once corrections).2.2 ∧
      (document.readOnly = false → (middle.place corrector once corrections).1.isSome = true) := by
  cases writable : document.readOnly with
  | true =>
      have kept : (workspace.place corrector document corrections).2.1 = document :=
        (place_of_refused corrector (if_pos writable) workspace).2.1
      rw [places] at kept
      cases kept
      obtain ⟨nothing, same, records⟩ := place_of_refused corrector (if_pos writable) middle
      exact ⟨nothing, same, records, fun impossible => by cases impossible⟩
  | false =>
      have within : ∀ correction ∈ EditPlan.effective document corrections,
          correction.range.start.LiesIn document.text ∧ correction.range.stop.LiesIn document.text :=
        fun correction member => inside correction (mem_stableSort.mp (List.mem_filter.mp member).1)
      have all : ∀ correction ∈ corrections, correction.StaysPut document := by
        intro correction member
        cases differs : correction.makesDifference document with
        | true => exact stays correction member differs
        | false => exact .of_idle differs
      obtain ⟨after, taken⟩ := place_effective corrector writable spaced within workspace
      rw [taken] at places
      cases places
      rw [place_of_idle corrector spaced (makesDifference_textWith spaced inside all)]
      exact ⟨rfl, rfl, logSkipped_sameRecords _ _, fun _ => rfl⟩

end Place

section Shown

variable {corrector : Corrector σ} {document : Document} {given? : Option CorrectionOptions}

/-- The corrections that a preview shows have gaps between their ranges, and each is one of a span of
the document. -/
theorem preview_standsFor {start seen : Workspace σ} {shown : Run}
    (previewed : preview corrector (some document) given? start = (.ok shown, seen)) :
    Spaced (shown.corrections.map Correction.range) ∧
      ∀ correction ∈ shown.corrections, ∃ span ∈ corrector.spans document,
        correction.range = span.range ∧ correction.draft = span.text := by
  rw [preview] at previewed
  generalize corrects : correctSpans corrector (corrector.spans document) given?
    (start.logExtraction corrector document) = outcome at previewed
  rcases outcome with ⟨failure | run, after⟩
  · cases previewed
  · cases previewed
    have spaced := correctSpans_spaced corrector spaced_extract corrects
    refine ⟨spaced.subperm ((List.filter_sublist).map _).subperm, fun correction member => ?_⟩
    exact exists_span_of_mem_corrections corrects (List.mem_filter.mp member).1

/-- Corrections that a preview has shown, all or some of them, are applied twice in a row. Both calls
return. The second one keeps the text exactly if the document takes no edits, if one of the corrections
that make a difference to the changed document reaches out of its text, or if what is replaced there
comes to the same text. It has no effect at all where every correction that makes a difference at first
stays put, as one on a single line does whose text is a plain line of the same length. -/
theorem applySubset_again (corrector : Corrector σ) (document : Document)
    (given? : Option CorrectionOptions) {start seen : Workspace σ} {shown : Run}
    (previewed : preview corrector (some document) given? start = (.ok shown, seen))
    {corrections : List Correction} (among : corrections.Subperm shown.corrections)
    (workspace : Workspace σ) :
    ∃ first once middle second twice last,
      applySubset corrector (some document) corrections workspace = (.ok (first, once), middle) ∧
        applySubset corrector (some once) corrections middle = (.ok (second, twice), last) ∧
        (twice.text = once.text ↔ once.KeepsText corrections) ∧
        ((∀ correction ∈ corrections, correction.makesDifference document = true →
            correction.StaysPut document) →
          second.applied = [] ∧ twice = once ∧ middle.SameRecords last ∧
            (document.readOnly = false → second.succeeded = true)) ∧
        ∀ correction ∈ corrections, correction.range.start.line = correction.range.stop.line →
          correction.text.IsPlainLine → correction.text.length = correction.draft.length →
            correction.StaysPut document := by
  obtain ⟨spacedShown, standShown⟩ := preview_standsFor previewed
  have spaced : Spaced (corrections.map Correction.range) := by
    obtain ⟨listed, same, within⟩ := among
    exact spacedShown.subperm ⟨listed.map _, same.map _, within.map _⟩
  have stand := fun correction member => standShown correction (among.subset member)
  have inside : ∀ correction ∈ corrections, correction.range.start.LiesIn document.text ∧
      correction.range.stop.LiesIn document.text := by
    intro correction member
    obtain ⟨span, known, range, -⟩ := stand correction member
    exact range ▸ Document.liesIn_of_mem_spans known
  simp only [applySubset]
  generalize places : workspace.place corrector document corrections = outcome
  obtain ⟨placed, once, middle⟩ := outcome
  refine ⟨_, once, middle, _, _, _, rfl, rfl, text_place_eq_iff corrector spaced middle,
    fun stays => place_again corrector spaced inside stays places, ?_⟩
  intro correction member single plain length
  obtain ⟨span, known, range, draft⟩ := stand correction member
  exact .of_isPlainLine known range draft single plain length

theorem eq_ok_of_mem_toOption {α : Type} {outcome : Except Failure α × Workspace σ} {value : α}
    (returned : value ∈ outcome.1.toOption) : outcome = (.ok value, outcome.2) := by
  rcases outcome with ⟨failure | other, after⟩
  · cases returned
  · cases returned
    rfl

/-- The correction of a comment is as long as the comment: it is put in its place once. -/
theorem applySubset_again_catNote :
    ∃ shown seen first once middle second last,
      preview catCorrector (some catNote) none askingWorkspace = (.ok shown, seen) ∧
        applySubset catCorrector (some catNote) shown.corrections seen =
          (.ok (first, once), middle) ∧
        applySubset catCorrector (some once) shown.corrections middle =
          (.ok (second, once), last) ∧
        once.text = "x = 1\n  # The cat is here.\ny = x".toText ∧ second.succeeded = true := by
  have found : ∃ shown ∈ (preview catCorrector (some catNote) none askingWorkspace).1.toOption,
      (∀ correction ∈ shown.corrections,
        correction.range.start.line = correction.range.stop.line ∧ .scalar '\n' ∉ correction.text ∧
          Text.isBlank correction.text = false ∧ frontLength openerMarker correction.text = 0 ∧
          backStart correction.text = correction.text.length ∧
          correction.text.length = correction.draft.length) ∧
      ∃ applied ∈ (applySubset catCorrector (some catNote) shown.corrections
          (preview catCorrector (some catNote) none askingWorkspace).2).1.toOption,
        applied.2.text = "x = 1\n  # The cat is here.\ny = x".toText := by
    decide +kernel
  obtain ⟨shown, known, plain, ⟨first, once⟩, applied, text⟩ := found
  obtain ⟨_, _, middle, second, twice, last, applies, again, -, kept, stays⟩ :=
    applySubset_again catCorrector catNote none (eq_ok_of_mem_toOption known) (.refl _)
      (preview catCorrector (some catNote) none askingWorkspace).2
  rw [applies] at applied
  cases applied
  obtain ⟨-, rfl, -, succeeded⟩ := kept fun correction member _ => by
    obtain ⟨single, unbroken, solid, unopened, unclosed, length⟩ := plain correction member
    exact stays correction member single ⟨unbroken, solid, unopened, unclosed⟩ length
  exact ⟨shown, _, first, _, middle, second, last, eq_ok_of_mem_toOption known, applies, again, text,
    succeeded rfl⟩

/-- A reply that is longer than the comment is put in the place of its own front once more. -/
theorem not_forall_applySubset_again :
    ¬ ∀ (document : Document) (shown : Run) (seen : Workspace Unit),
      preview catCorrector (some document) none askingWorkspace = (.ok shown, seen) →
        ∀ first once middle second twice last,
          applySubset catCorrector (some document) shown.corrections seen =
              (.ok (first, once), middle) →
            applySubset catCorrector (some once) shown.corrections middle =
                (.ok (second, twice), last) →
              twice.text = once.text := by
  intro law
  have found : ∃ shown ∈ (preview catCorrector (some commentNote) none askingWorkspace).1.toOption,
      ∃ first ∈ (applySubset catCorrector (some commentNote) shown.corrections
          (preview catCorrector (some commentNote) none askingWorkspace).2).1.toOption,
        ∃ second ∈ (applySubset catCorrector (some first.2) shown.corrections
            (applySubset catCorrector (some commentNote) shown.corrections
              (preview catCorrector (some commentNote) none askingWorkspace).2).2).1.toOption,
          first.2.text = "y = 0\n# The cat is here.\n".toText ∧
            second.2.text = "y = 0\n# The cat is here. is here.\n".toText := by
    decide +kernel
  obtain ⟨shown, known, ⟨first, once⟩, applied, ⟨second, twice⟩, again, onceText, twiceText⟩ := found
  have same := law commentNote shown _ (eq_ok_of_mem_toOption known) first once _ second twice _
    (eq_ok_of_mem_toOption applied) (eq_ok_of_mem_toOption again)
  rw [onceText, twiceText] at same
  exact absurd same (by decide)

end Shown

end Workspace

end CodeProse
