import CodeProse.Proofs.Document.Batch
import CodeProse.Proofs.Prose.Sources
import CodeProse.Proofs.Run.Preview

/-!
# Correcting a selected part

The spans of a selection lie in it, in the coordinates of the whole document. So whatever becomes of
them, a document keeps what stands in front of the selection and what stands behind it.
-/

set_option autoImplicit false

namespace CodeProse

variable {σ : Type}

section Frame

/-- Edits that reach up to an offset at most keep the text from there on. -/
theorem exists_replacedFrom_append (text : Text) {edits : List OffsetEdit} {place last : Nat}
    (within : place ≤ last) (up : ∀ edit ∈ edits, edit.stop ≤ last) :
    ∃ front, replacedFrom text place edits = front ++ text.drop last := by
  induction edits generalizing place with
  | nil => exact ⟨slice text place last, (slice_append_drop text within).symm⟩
  | cons edit rest ih =>
      obtain ⟨reaches, further⟩ := List.forall_mem_cons.mp up
      obtain ⟨front, kept⟩ := ih (show edit.stop.toNat ≤ last by omega) further
      refine ⟨slice text place edit.start.toNat ++ edit.replacement ++ front, ?_⟩
      rw [replacedFrom, kept, List.append_assoc _ front]

/-- Edits between two offsets keep the text up to the first and from the second on. -/
theorem exists_replacedFrom_between (text : Text) {edits : List OffsetEdit} {first last : Nat}
    (ordered : first ≤ last)
    (between : ∀ edit ∈ edits, (first : Int) ≤ edit.start ∧ edit.stop ≤ last) :
    ∃ middle, replacedFrom text 0 edits = text.take first ++ middle ++ text.drop last := by
  cases edits with
  | nil =>
      refine ⟨slice text first last, ?_⟩
      rw [take_append_slice text ordered, List.take_append_drop, replacedFrom, List.drop_zero]
  | cons edit rest =>
      obtain ⟨⟨begins, ends⟩, further⟩ := List.forall_mem_cons.mp between
      obtain ⟨front, kept⟩ := exists_replacedFrom_append text
        (show edit.stop.toNat ≤ last by omega) fun later member => (further later member).2
      have head : slice text 0 edit.start.toNat =
          text.take first ++ slice text first edit.start.toNat := by
        rw [take_append_slice text (by omega), slice, List.drop_zero]
      refine ⟨slice text first edit.start.toNat ++ edit.replacement ++ front, ?_⟩
      rw [replacedFrom, kept, head]
      simp only [List.append_assoc]

end Frame

section Spans

variable {document : Document} {selection : Range}

theorem Document.within_of_mem_spansIn {registry : Registry} {options : ExtractionOptions}
    {span : Span} (start : selection.start.LiesIn document.text)
    (stop : selection.stop.LiesIn document.text) (ordered : selection.start ≤ selection.stop)
    (member : span ∈ document.spansIn registry options selection) :
    selection.start ≤ span.range.start ∧ span.range.stop ≤ selection.stop := by
  obtain ⟨fragment, cut⟩ := exists_cutFrom member
  have front := document.prefix_textIn selection
  obtain ⟨startInside, startAt⟩ := start.within front cut.stands.start_liesIn
  obtain ⟨stopInside, stopAt⟩ := start.within front cut.stands.stop_liesIn
  have reached := cut.stands.stop_liesIn.offsetAt_le_length
  have length := length_slice document.text (offsetAt document.text selection.start)
    (offsetAt document.text selection.stop) stop.offsetAt_le_length
  have before := start.offsetAt_le stop ordered
  rw [Document.textIn, length] at reached
  rw [cut.range]
  refine ⟨(start.offsetAt_le_iff startInside).mp ?_, (stopInside.offsetAt_le_iff stop).mp ?_⟩
  · exact (Nat.le_add_right _ _).trans startAt.ge
  · refine stopAt.le.trans ?_
    rw [Document.textIn]
    omega

/-- No span of a selection is left out for standing outside. -/
theorem Corrector.spansIn_eq (corrector : Corrector σ) (start : selection.start.LiesIn document.text)
    (stop : selection.stop.LiesIn document.text) (ordered : selection.start ≤ selection.stop) :
    corrector.spansIn document selection =
      document.spansIn corrector.registry corrector.extractionOptions selection := by
  refine List.filter_eq_self.mpr fun span member => ?_
  obtain ⟨behind, before⟩ := Document.within_of_mem_spansIn start stop ordered member
  have extent := (Document.Extracts.selected start stop member).start_lt_stop.le
  simp only [Range.intersects, Bool.and_eq_true, decide_eq_true_eq]
  exact ⟨extent.trans before, behind.trans extent⟩

end Spans

/-- A document that differs from another one between two offsets at most. -/
def Document.ChangesBetween (document : Document) (first last : Nat) (changed : Document) : Prop :=
  ∃ middle, changed =
    { document with text := document.text.take first ++ middle ++ document.text.drop last }

theorem Document.changesBetween_self (document : Document) {first last : Nat}
    (ordered : first ≤ last) : document.ChangesBetween first last document := by
  refine ⟨slice document.text first last, ?_⟩
  rw [take_append_slice document.text ordered, List.take_append_drop]

namespace Workspace

section Place

variable {document : Document} {corrections : List Correction}

/-- Corrections between two offsets change a document between them, if at all. -/
theorem place_changesBetween (corrector : Corrector σ) {first last : Nat} (ordered : first ≤ last)
    (spaced : Spaced (corrections.map Correction.range))
    (inside : ∀ correction ∈ corrections, correction.range.start.LiesIn document.text ∧
      correction.range.stop.LiesIn document.text)
    (between : ∀ correction ∈ corrections,
      first ≤ offsetAt document.text correction.range.start ∧
        offsetAt document.text correction.range.stop ≤ last) (workspace : Workspace σ) :
    document.ChangesBetween first last (workspace.place corrector document corrections).2.1 ∧
      (document.readOnly = false →
        (workspace.place corrector document corrections).1.isSome = true) := by
  cases writable : document.readOnly with
  | true =>
      rw [(place_of_refused corrector (if_pos writable) workspace).2.1]
      exact ⟨document.changesBetween_self ordered, fun impossible => by cases impossible⟩
  | false =>
      obtain ⟨applied, changed, after, placed, carried⟩ :=
        place_carriesOut corrector writable spaced inside workspace
      rw [placed]
      have bounded : ∀ edit ∈ document.offsetEdits applied,
          (first : Int) ≤ edit.start ∧ edit.stop ≤ last := by
        intro edit member
        obtain ⟨correction, known, rfl⟩ := List.mem_map.mp member
        have among := (List.mem_filter.mp (carried.selected.mem_iff.mp known)).1
        obtain ⟨start, stop⟩ := between correction among
        exact ⟨Int.ofNat_le.mpr start, Int.ofNat_le.mpr stop⟩
      obtain ⟨middle, kept⟩ := exists_replacedFrom_between document.text ordered bounded
      refine ⟨⟨middle, ?_⟩, fun _ => rfl⟩
      rw [carried.replaced, Document.textWith, kept]

end Place

section Whole

variable {corrector : Corrector σ} {document : Document} {given? : Option CorrectionOptions}

theorem correctAndPlace_changesBetween {spans : List Span} {first last : Nat}
    (ordered : first ≤ last) (spaced : Spaced (spans.map Span.range))
    (inside : ∀ span ∈ spans, span.range.start.LiesIn document.text ∧
      span.range.stop.LiesIn document.text)
    (between : ∀ span ∈ spans, first ≤ offsetAt document.text span.range.start ∧
      offsetAt document.text span.range.stop ≤ last)
    {workspace after : Workspace σ} {application : Application} {changed : Document}
    (places : correctAndPlace corrector document spans given? workspace =
      (.ok (application, changed), after)) :
    document.ChangesBetween first last changed ∧
      (document.readOnly = false → after.session.isCancelled = false →
        application.succeeded = true) := by
  have course := correctAndPlace_applies corrector document spans given? workspace
  rw [places] at course
  cases course with
  | nothing none records => exact ⟨document.changesBetween_self ordered, fun _ _ => rfl⟩
  | cancelled corrects stopped =>
      have result := correctSpans_frame corrector spans given? workspace
      rw [corrects] at result
      refine ⟨document.changesBetween_self ordered, fun _ uncancelled => ?_⟩
      exact absurd (result.2.1 stopped) (ne_true_of_eq_false uncancelled)
  | @placed run behind corrects finished =>
      have placed := place_changesBetween corrector ordered
        (correctSpans_spaced corrector spaced corrects)
        (fun correction member => by
          obtain ⟨span, among, same, -⟩ := exists_span_of_mem_corrections corrects member
          exact same ▸ inside span among)
        (fun correction member => by
          obtain ⟨span, among, same, -⟩ := exists_span_of_mem_corrections corrects member
          exact same ▸ between span among) behind
      exact ⟨placed.1, fun writable _ => placed.2 writable⟩

/-- Correcting a selected part of a document, whatever the service answers and whether or not the
document takes edits: each span of the selection lies in it, none is left out, and the document keeps
what stands in front of the selection and what stands behind it. It fails only where the cache gives
up, and succeeds in a document that takes edits unless it is cancelled. -/
theorem applySelection_changesBetween (corrector : Corrector σ) (document : Document)
    (selection : Range) (given? : Option CorrectionOptions) (workspace : Workspace σ)
    (harmless : corrector.client.service.IsHarmless) (positive : 0 < corrector.chunkSize)
    (start : selection.start.LiesIn document.text) (stop : selection.stop.LiesIn document.text)
    (before : selection.start < selection.stop) :
    (∀ span ∈ document.spansIn corrector.registry corrector.extractionOptions selection,
        selection.start ≤ span.range.start ∧ span.range.stop ≤ selection.stop) ∧
      corrector.spansIn document selection =
        document.spansIn corrector.registry corrector.extractionOptions selection ∧
      (∀ failure after, applySelection corrector (some document) (some selection) given? workspace =
          (.error failure, after) →
        corrector.client.GivesUp ((corrector.spansIn document selection).map
            (Span.call (given?.getD corrector.correctionOptions)))
          (workspace.CanRank (corrector.spansIn document selection).length) failure) ∧
      ∀ application changed after,
        applySelection corrector (some document) (some selection) given? workspace =
            (.ok (application, changed), after) →
          document.ChangesBetween (offsetAt document.text selection.start)
              (offsetAt document.text selection.stop) changed ∧
            (document.readOnly = false → after.session.isCancelled = false →
              application.succeeded = true) := by
  have lies : ∀ span ∈ document.spansIn corrector.registry corrector.extractionOptions selection,
      selection.start ≤ span.range.start ∧ span.range.stop ≤ selection.stop :=
    fun _ member => Document.within_of_mem_spansIn start stop before.le member
  have whole := corrector.spansIn_eq start stop before.le
  have chosen : (some selection).filter (fun selection => !selection.isEmpty) = some selection := by
    simp [Option.filter, Range.isEmpty, before.ne]
  have applies : applySelection corrector (some document) (some selection) given? workspace =
      correctAndPlace corrector document (corrector.spansIn document selection) given?
        (workspace.logExtractionIn corrector document selection) := by
    simp only [applySelection, chosen]
  rw [applies]
  refine ⟨lies, whole, fun failure after fails => ?_, fun application changed after places => ?_⟩
  · exact (correctSpans_error harmless positive (correctAndPlace_error fails)).mono
      (List.Subset.refl _) fun ranks => ⟨ranks.few, ranks.scores⟩
  · have inside : ∀ span ∈ corrector.spansIn document selection,
        span.range.start.LiesIn document.text ∧ span.range.stop.LiesIn document.text :=
      fun span member => (Document.Extracts.selected start stop (whole ▸ member)).liesIn
    refine correctAndPlace_changesBetween (start.offsetAt_le stop before.le)
      (whole ▸ spaced_extract) inside (fun span member => ?_) places
    obtain ⟨startInside, stopInside⟩ := inside span member
    obtain ⟨behind, ahead⟩ := lies span (whole ▸ member)
    exact ⟨start.offsetAt_le startInside behind, stopInside.offsetAt_le stop ahead⟩

/-- A selection from the opener of a block up to the end of a comment. -/
def midwaySelection : Range := ⟨⟨0, 7⟩, ⟨2, 13⟩⟩

/-- The code in front of the selected block and the end of the last line stay. -/
theorem applySelection_changesBetween_selectedNote :
    ∃ application changed after,
      applySelection catCorrector (some Document.selectedNote) (some midwaySelection) none
          { session := { service := () } } = (.ok (application, changed), after) ∧
        application.succeeded = true ∧
        Document.selectedNote.ChangesBetween 7 40 changed ∧
        changed.text ≠ Document.selectedNote.text := by
  have start : midwaySelection.start.LiesIn Document.selectedNote.text := by decide +kernel
  have stop : midwaySelection.stop.LiesIn Document.selectedNote.text := by decide +kernel
  obtain ⟨-, -, -, applies⟩ := applySelection_changesBetween catCorrector
    Document.selectedNote midwaySelection none { session := { service := () } }
    (fun state request failure replied => by cases replied) (by decide) start stop (by decide)
  have runs : (applySelection catCorrector (some Document.selectedNote) (some midwaySelection) none
        { session := { service := () } }).2.session.isCancelled = false ∧
      (((applySelection catCorrector (some Document.selectedNote) (some midwaySelection) none
        { session := { service := () } }).1.toOption.map fun applied =>
          decide (applied.2.text = Document.selectedNote.text)) = some false) := by
    decide +kernel
  generalize applySelection catCorrector (some Document.selectedNote) (some midwaySelection) none
    { session := { service := () } } = outcome at applies runs
  rcases outcome with ⟨failure | ⟨application, changed⟩, after⟩
  · cases runs.2
  · obtain ⟨kept, succeeds⟩ := applies application changed after rfl
    refine ⟨application, changed, after, rfl, succeeds rfl runs.1, ?_, ?_⟩
    · have offsets : offsetAt Document.selectedNote.text midwaySelection.start = 7 ∧
          offsetAt Document.selectedNote.text midwaySelection.stop = 40 := by
        decide +kernel
      rw [offsets.1, offsets.2] at kept
      exact kept
    · exact of_decide_eq_false (Option.some.inj runs.2)

end Whole

end Workspace

end CodeProse
