import CodeProse.Proofs.Correction.Plan
import CodeProse.Proofs.Document.Restoring
import CodeProse.Proofs.Prose.Extraction
import CodeProse.Proofs.Run.Correct
import CodeProse.Run.Apply
import Mathlib.Data.List.Infix

/-!
# Laws of applying corrections

An application either leaves the document and the undo stack alone, or it changes the document
once and puts an entry on the stack that leads back.
-/

set_option autoImplicit false

namespace CodeProse

variable {σ : Type}

namespace Workspace

/-- Two workspaces that can undo the same and have the same past. -/
structure SameRecords (before after : Workspace σ) : Prop where
  undoStack : after.undoStack = before.undoStack
  history : after.history = before.history

theorem SameRecords.trans {first second third : Workspace σ} (start : first.SameRecords second)
    (further : second.SameRecords third) : first.SameRecords third :=
  ⟨further.undoStack.trans start.undoStack, further.history.trans start.history⟩

section Alignment

/-- Whatever the service does, a chunk corrects spans of its own and leaves the records. -/
theorem chunkGives_corrects (corrector : Corrector σ) (options : CorrectionOptions)
    (start : Workspace σ) :
    ChunkGives corrector options (fun _ workspace => start.SameRecords workspace)
      (fun span corrected => corrected.Corrects span) False
      (fun _ workspace => start.SameRecords workspace) := by
  intro chunk rest workspace held
  have lookUps := lookUp_aligned options chunk workspace
  have looked := lookUp_frame options chunk workspace
  generalize found : workspace.lookUp options chunk = result at lookUps looked
  obtain ⟨lookups, before⟩ := result
  obtain ⟨cache, readings, rfl⟩ := looked
  obtain ⟨kept, results⟩ := correctChunk_spec corrector start.SameRecords
    (fun lookup corrected => corrected.Corrects lookup.span) found
    (fun _ => ⟨held.undoStack, held.history⟩)
    (fun lookup _ text _ => ⟨text, lookup.span.confidence, rfl⟩)
    (fun lookup _ _ outcome _ before recorded => by
      obtain ⟨records, cache, readings, after⟩ := takeUp_frame lookup outcome before
      exact ⟨by rw [after]; exact ⟨recorded.undoStack, recorded.history⟩,
        fun _ taken => takeUp_corrects taken⟩)
  generalize correctChunk corrector options chunk workspace = outcome at kept results ⊢
  rcases outcome with ⟨failure | corrected, after⟩
  · exact kept
  · refine ⟨kept, .compose_left (fun span lookup corrected known corrects => ?_) lookUps
      (results.2.mono False.elim)⟩
    exact known.1 ▸ corrects

/-- Whatever the service does, a run leaves the records, and its corrections stand for spans of its
own, in their order. -/
theorem correctSpans_frame (corrector : Corrector σ) (spans : List Span)
    (given? : Option CorrectionOptions) (workspace : Workspace σ) :
    match correctSpans corrector spans given? workspace with
    | (.ok run, after) => workspace.SameRecords after ∧
        (run.state = .cancelled → after.session.isCancelled = true) ∧
        ∃ passed, passed.Sublist spans ∧ List.Forall₂ (fun span correction => ∃ text confidence,
          correction = span.correctedBy text confidence) passed run.corrections
    | (.error _, after) => workspace.SameRecords after := by
  have steady : List (List Span) → IsSteady workspace.SameRecords :=
    fun _ _ _ _ _ held => ⟨held.undoStack, held.history⟩
  have start : workspace.SameRecords workspace := ⟨rfl, rfl⟩
  have result := correctSpans_spec spans steady (chunkGives_corrects corrector
    (given?.getD corrector.correctionOptions) workspace) start
  have front : (chunks corrector.chunkSize spans).flatten <+: spans := by
    rcases Nat.eq_zero_or_pos corrector.chunkSize with none | some
    · rw [none, flatten_chunks_zero]
      exact List.nil_prefix
    · rw [flatten_chunks some]
  generalize correctSpans corrector spans given? workspace = outcome at result ⊢
  rcases outcome with ⟨failure | run, after⟩
  · exact result
  · rcases result with ⟨completed, kept, corrected, same, passed, fewer, -, aligned⟩ |
      ⟨-, cancelled, ⟨-, kept⟩, chunks, corrected, first, same, passed, fewer, -, aligned⟩
    · refine ⟨kept, fun stopped => ?_, passed, fewer.trans front.sublist, ?_⟩
      · rw [completed] at stopped
        cases stopped
      · rw [same]
        exact List.forall₂_map_right_iff.mpr aligned
    · refine ⟨kept, fun _ => cancelled, passed,
        fewer.trans (first.flatten.trans front).sublist, ?_⟩
      rw [same]
      exact List.forall₂_map_right_iff.mpr aligned

theorem correctSpans_spaced (corrector : Corrector σ) {spans : List Span}
    {given? : Option CorrectionOptions} {workspace after : Workspace σ} {run : Run}
    (spaced : Spaced (spans.map Span.range))
    (corrects : correctSpans corrector spans given? workspace = (.ok run, after)) :
    Spaced (run.corrections.map Correction.range) := by
  have result := correctSpans_frame corrector spans given? workspace
  rw [corrects] at result
  obtain ⟨-, -, passed, front, stand⟩ := result
  have ranges : passed.map Span.range = run.corrections.map Correction.range :=
    map_eq_map_of_forall₂ Span.range Correction.range
      (fun span correction ⟨text, confidence, corrects⟩ => by rw [corrects]; rfl) stand
  rw [← ranges]
  exact spaced.subperm (front.map Span.range).subperm

theorem exists_span_of_mem_corrections {corrector : Corrector σ} {spans : List Span}
    {given? : Option CorrectionOptions} {workspace after : Workspace σ} {run : Run}
    (corrects : correctSpans corrector spans given? workspace = (.ok run, after))
    {correction : Correction} (member : correction ∈ run.corrections) :
    ∃ span ∈ spans, correction.range = span.range ∧ correction.draft = span.text := by
  have result := correctSpans_frame corrector spans given? workspace
  rw [corrects] at result
  obtain ⟨-, -, passed, front, stand⟩ := result
  obtain ⟨span, among, text, confidence, rfl⟩ := exists_aligned_of_mem_right stand member
  exact ⟨span, front.subset among, rfl, rfl⟩

end Alignment

/-- How spans of a document come to be applied: there are none, their run fails or is cancelled, or its
corrections are placed. -/
inductive Applies (corrector : Corrector σ) (document : Document) (spans : List Span)
    (given? : Option CorrectionOptions) (workspace : Workspace σ) :
    Except Failure Applied × Workspace σ → Prop where
  | nothing {after : Workspace σ} (none : spans = []) (records : workspace.SameRecords after) :
      Applies corrector document spans given? workspace
        (.ok (⟨[], true, some ⟨[], {}, .completed⟩⟩, document), after)
  | failed {failure : Failure} {after : Workspace σ}
      (corrects : correctSpans corrector spans given? workspace = (.error failure, after)) :
      Applies corrector document spans given? workspace (.error failure, after)
  | cancelled {run : Run} {after : Workspace σ}
      (corrects : correctSpans corrector spans given? workspace = (.ok run, after))
      (stopped : run.state = .cancelled) :
      Applies corrector document spans given? workspace (.ok (⟨[], false, some run⟩, document), after)
  | placed {run : Run} {after : Workspace σ}
      (corrects : correctSpans corrector spans given? workspace = (.ok run, after))
      (finished : run.state ≠ .cancelled) :
      Applies corrector document spans given? workspace
        (.ok (⟨(after.place corrector document run.corrections).1.getD [],
            (after.place corrector document run.corrections).1.isSome, some run⟩,
          (after.place corrector document run.corrections).2.1),
          (after.place corrector document run.corrections).2.2)

theorem correctAndPlace_applies (corrector : Corrector σ) (document : Document) (spans : List Span)
    (given? : Option CorrectionOptions) (workspace : Workspace σ) :
    Applies corrector document spans given? workspace
      (correctAndPlace corrector document spans given? workspace) := by
  cases none : spans.isEmpty with
  | true =>
      simp only [correctAndPlace, none, if_true]
      exact .nothing (List.isEmpty_iff.mp none) ⟨rfl, rfl⟩
  | false =>
      simp only [correctAndPlace, none, Bool.false_eq_true, if_false]
      generalize corrects : correctSpans corrector spans given? workspace = outcome
      rcases outcome with ⟨failure | run, after⟩
      · exact .failed corrects
      · by_cases stopped : run.state = .cancelled
        · simp only [stopped, if_true]
          exact .cancelled corrects stopped
        · simp only [stopped, if_false]
          exact .placed corrects stopped

section Placing

/-- What applying corrections does to a document and the undo stack: nothing, or one change of
the text, with an entry on top of the stack whose edits lead back. -/
inductive Placing (limit : Nat) (document : Document) (stack : List UndoEntry) :
    List Correction → Document → List UndoEntry → Prop where
  | nothing : Placing limit document stack [] document stack
  | change {applied : List Correction} {text : Text} {entry : UndoEntry}
      (nonempty : applied ≠ []) (owner : entry.identity = document.identity)
      (back : { document with text }.replaceRanges? entry.edits = some document) :
      Placing limit document stack applied { document with text } ((entry :: stack).take limit)

/-- What an application leaves behind: a placing, or after a failure the undo stack as it was. -/
def PlacesOrFails (limit : Nat) (document : Document) (stack : List UndoEntry) :
    Except Failure Applied × Workspace σ → Prop
  | (.ok (application, changed), after) =>
      Placing limit document stack application.applied changed after.undoStack
  | (.error _, after) => after.undoStack = stack

theorem logSkipped_frame (plan : EditPlan) (workspace : Workspace σ) :
    ∃ records, workspace.logSkipped plan =
      { workspace with session := { workspace.session with records } } := by
  unfold logSkipped
  split
  · exact ⟨_, rfl⟩
  · exact ⟨_, rfl⟩

theorem logSkipped_sameRecords (plan : EditPlan) (workspace : Workspace σ) :
    workspace.SameRecords (workspace.logSkipped plan) := by
  obtain ⟨records, same⟩ := logSkipped_frame plan workspace
  rw [same]
  exact ⟨rfl, rfl⟩

/-- What becomes of corrections that are put into a document: their plan is empty, or the document
refuses its edits, or it takes them and they are remembered. -/
inductive PutsIn (corrector : Corrector σ) (document : Document) (corrections : List Correction)
    (workspace : Workspace σ) : Option (List Correction) × Document × Workspace σ → Prop where
  | idle (empty : (EditPlan.ofCorrections document corrections).edits = [])
      (records : List LogRecord) :
      PutsIn corrector document corrections workspace
        (some [], document, { workspace with session := { workspace.session with records } })
  | refused (refused :
        document.replaceRanges? (EditPlan.ofCorrections document corrections).edits = none)
      (records : List LogRecord) :
      PutsIn corrector document corrections workspace
        (none, document, { workspace with session := { workspace.session with records } })
  | taken {changed : Document} (filled : (EditPlan.ofCorrections document corrections).edits ≠ [])
      (taken :
        document.replaceRanges? (EditPlan.ofCorrections document corrections).edits = some changed)
      (records : List LogRecord) :
      PutsIn corrector document corrections workspace
        (some (EditPlan.ofCorrections document corrections).corrections, changed,
          { workspace.remember corrector.undoLimit ⟨document.identity,
              (EditPlan.ofCorrections document corrections).corrections,
              inverseEdits document.text (EditPlan.ofCorrections document corrections).edits⟩ with
            session := { workspace.session with records } })

theorem place_putsIn (corrector : Corrector σ) (document : Document)
    (corrections : List Correction) (workspace : Workspace σ) :
    PutsIn corrector document corrections workspace
      (workspace.place corrector document corrections) := by
  obtain ⟨records, logged⟩ :=
    logSkipped_frame (EditPlan.ofCorrections document corrections) workspace
  simp only [place, logged]
  split
  · next empty => exact .idle (List.isEmpty_iff.mp empty) records
  · next filled =>
      split
      · next refused => exact .refused refused _
      · next changed taken => exact .taken (fun none => filled (List.isEmpty_iff.mpr none)) taken _

/-- Spaced corrections are applied with an entry that leads back, or not at all. -/
theorem place_placing (corrector : Corrector σ) {document : Document} {corrections : List Correction}
    (spaced : Spaced (corrections.map Correction.range)) (workspace : Workspace σ) :
    Placing corrector.undoLimit document workspace.undoStack
      ((workspace.place corrector document corrections).1.getD [])
      (workspace.place corrector document corrections).2.1
      (workspace.place corrector document corrections).2.2.undoStack := by
  obtain ⟨planned, edits⟩ := EditPlan.ofCorrections_of_spaced document spaced
  have apart := EditPlan.apart_effective document spaced
  rw [← edits] at apart
  have puts := place_putsIn corrector document corrections workspace
  generalize workspace.place corrector document corrections = result at puts ⊢
  cases puts with
  | idle empty records => exact .nothing
  | refused refused records => exact .nothing
  | taken filled taken records =>
      obtain ⟨writable, text, replaced, rfl⟩ :=
        Document.replaceRanges?_eq_some_iff_writable.mp taken
      refine .change (fun none => filled ?_) rfl ?_
      · rw [Option.getD_some, planned] at none
        rw [edits, none]
        rfl
      · exact Document.replaceRanges?_eq_some_iff_writable.mpr
          ⟨writable, document.text, replaceRanges?_inverseEdits apart replaced, rfl⟩

theorem applySubset_places (corrector : Corrector σ) {document : Document}
    {corrections : List Correction} (spaced : Spaced (corrections.map Correction.range)) (workspace : Workspace σ) :
    PlacesOrFails corrector.undoLimit document workspace.undoStack
      (applySubset corrector (some document) corrections workspace) :=
  place_placing corrector spaced workspace

theorem correctAndPlace_places (corrector : Corrector σ) {document : Document} {spans : List Span}
    (spaced : Spaced (spans.map Span.range)) (given? : Option CorrectionOptions)
    (workspace : Workspace σ) :
    PlacesOrFails corrector.undoLimit document workspace.undoStack
      (correctAndPlace corrector document spans given? workspace) := by
  have result := correctSpans_frame corrector spans given? workspace
  have course := correctAndPlace_applies corrector document spans given? workspace
  generalize correctAndPlace corrector document spans given? workspace = outcome at course ⊢
  cases course with
  | nothing none records => exact records.undoStack ▸ .nothing
  | failed corrects =>
      rw [corrects] at result
      exact result.undoStack
  | cancelled corrects stopped =>
      rw [corrects] at result
      exact result.1.undoStack ▸ .nothing
  | placed corrects finished =>
      rw [corrects] at result
      exact result.1.undoStack ▸
        place_placing corrector (correctSpans_spaced corrector spaced corrects) _

theorem applyAll_places (corrector : Corrector σ) (document : Document)
    (given? : Option CorrectionOptions) (workspace : Workspace σ) :
    PlacesOrFails corrector.undoLimit document workspace.undoStack
      (applyAll corrector (some document) given? workspace) :=
  correctAndPlace_places corrector spaced_extract given? (workspace.logExtraction corrector document)

theorem applySelection_places (corrector : Corrector σ) (document : Document)
    (selection? : Option Range) (given? : Option CorrectionOptions) (workspace : Workspace σ) :
    PlacesOrFails corrector.undoLimit document workspace.undoStack
      (applySelection corrector (some document) selection? given? workspace) := by
  cases chosen : selection?.filter fun selection => !selection.isEmpty with
  | none =>
      simp only [applySelection, chosen]
      exact rfl
  | some selection =>
      simp only [applySelection, chosen]
      exact correctAndPlace_places corrector
        (spaced_extract.subperm (List.filter_sublist.map _).subperm) given?
        (workspace.logExtractionIn corrector document selection)

end Placing

end Workspace

end CodeProse
