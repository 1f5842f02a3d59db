import CodeProse.Proofs.Correction.Sweep
import CodeProse.Proofs.Run.Accounts
import CodeProse.Proofs.Run.ApplyAll

/-!
# Two ways to apply the corrections of a document

The corrections of a document can be applied as they come, or shown first and applied then. Over a
service that looks at the prompt alone both ways lead to the same document and the same undo stack,
whatever the service and the clock have gone through in between.
-/

set_option autoImplicit false

namespace CodeProse

variable {σ : Type}

namespace Corrector

/-- What becomes of the spans of a document under a service that looks at the prompt alone. -/
def references (corrector : Corrector σ) (answer : Text → Reply) (document : Document)
    (given? : Option CorrectionOptions) : List Correction :=
  (corrector.spans document).map
    (corrector.client.reference answer (given?.getD corrector.correctionOptions))

end Corrector

namespace Workspace

variable {corrector : Corrector σ} {document : Document} {given? : Option CorrectionOptions}
  {answer : Text → Reply}

section Runs

variable {spans : List Span} {workspace : Workspace σ}

theorem correctAndPlace_error {after : Workspace σ} {failure : Failure}
    (fails : correctAndPlace corrector document spans given? workspace = (.error failure, after)) :
    correctSpans corrector spans given? workspace = (.error failure, after) := by
  have course := correctAndPlace_applies corrector document spans given? workspace
  rw [fails] at course
  cases course with
  | failed corrects => exact corrects

/-- A run from a consistent cache that returns uncancelled gives the reference corrections, also where
the cache holds entries that it could not rank. -/
theorem corrections_eq_reference {run : Run} {after : Workspace σ}
    (answers : corrector.client.service.AnswersBy answer) (positive : 0 < corrector.chunkSize)
    (idle : workspace.session.inFlight = [])
    (distinct : HaveOwnDigests (spans.map (Span.call (given?.getD corrector.correctionOptions))))
    (consistent : workspace.IsConsistent corrector.client answer
      (spans.map (Span.call (given?.getD corrector.correctionOptions))))
    (corrects : correctSpans corrector spans given? workspace = (.ok run, after))
    (uncancelled : after.session.isCancelled = false) :
    run.state = .completed ∧ run.corrections = spans.map
      (corrector.client.reference answer (given?.getD corrector.correctionOptions)) := by
  have result := correctSpans_agrees (.ofAnswer answers distinct workspace.cache) False positive
    (fun impossible => impossible.elim) (consistent.agrees answers distinct)
  rw [corrects] at result
  rcases result with ⟨completed, -, corrected, corrections, aligned⟩ | ⟨-, cancelled, -⟩
  · refine ⟨completed, corrections.trans ?_⟩
    exact (map_eq_map_of_forall₂ _ Corrected.correction
      (fun span result fits => fits.2.correction_eq.symm) (aligned.forall₂ idle)).symm
  · rw [uncancelled] at cancelled
    cases cancelled

end Runs

section Placing

/-- What becomes of a document and of the undo stack depends on the plan of the corrections alone. -/
theorem place_congr {shown all : List Correction} {start behind last : Workspace σ}
    {placed : Option (List Correction)} {changed : Document}
    (plans : EditPlan.ofCorrections document shown = EditPlan.ofCorrections document all)
    (sameUndo : start.undoStack = behind.undoStack)
    (places : behind.place corrector document all = (placed, changed, last)) :
    ∃ final, start.place corrector document shown = (placed, changed, final) ∧
      final.undoStack = last.undoStack := by
  obtain ⟨startStack, -⟩ := logSkipped_sameRecords (EditPlan.ofCorrections document all) start
  obtain ⟨behindStack, -⟩ := logSkipped_sameRecords (EditPlan.ofCorrections document all) behind
  simp only [place, plans] at places ⊢
  generalize start.logSkipped (EditPlan.ofCorrections document all) = startLogged at startStack ⊢
  generalize behind.logSkipped (EditPlan.ofCorrections document all) = behindLogged
    at behindStack places
  have logged : startLogged.undoStack = behindLogged.undoStack := by
    rw [startStack, behindStack, sameUndo]
  cases empty : (EditPlan.ofCorrections document all).edits.isEmpty with
  | true =>
      rw [empty, if_pos rfl] at places
      cases places
      exact ⟨_, rfl, logged⟩
  | false =>
      rw [empty, if_neg Bool.false_ne_true] at places
      rw [if_neg Bool.false_ne_true]
      cases taken : document.replaceRanges? (EditPlan.ofCorrections document all).edits with
      | none =>
          rw [taken] at places
          cases places
          exact ⟨_, rfl, logged⟩
      | some text =>
          rw [taken] at places
          cases places
          refine ⟨_, rfl, ?_⟩
          exact congrArg (fun stack => (_ :: stack).take corrector.undoLimit) logged

end Placing

section Paths

variable {workspace after : Workspace σ}

theorem correctSpans_spans_error {failure : Failure}
    (harmless : corrector.client.service.IsHarmless) (positive : 0 < corrector.chunkSize)
    (failed : (correctSpans corrector (corrector.spans document) given?
      (workspace.logExtraction corrector document)).1 = .error failure) :
    corrector.client.GivesUp (corrector.callsFor document given?)
      (workspace.CanRank (corrector.spans document).length) failure :=
  (correctSpans_error harmless positive (Prod.ext failed rfl)).mono (List.Subset.refl _)
    fun ranks => ⟨ranks.few, ranks.scores⟩

theorem preview_eq_error_iff {failure : Failure} :
    (preview corrector (some document) given? workspace).1 = .error failure ↔
      (correctSpans corrector (corrector.spans document) given?
        (workspace.logExtraction corrector document)).1 = .error failure := by
  rw [preview]
  generalize correctSpans corrector (corrector.spans document) given?
    (workspace.logExtraction corrector document) = outcome
  rcases outcome with ⟨cause | run, last⟩
  · exact Iff.rfl
  · simp

theorem applyAll_eq_error_iff {failure : Failure} :
    (applyAll corrector (some document) given? workspace).1 = .error failure ↔
      (correctSpans corrector (corrector.spans document) given?
        (workspace.logExtraction corrector document)).1 = .error failure := by
  have course := correctAndPlace_applies corrector document (corrector.spans document) given?
    (workspace.logExtraction corrector document)
  rw [applyAll]
  generalize correctAndPlace corrector document (corrector.spans document) given?
    (workspace.logExtraction corrector document) = result at course ⊢
  cases course with
  | nothing none records =>
      rw [none]
      simp [correctSpans, chunks, chunks.chunksWithin, correctChunks]
  | failed corrects => simp [corrects]
  | cancelled corrects stopped => simp [corrects]
  | placed corrects finished => simp [corrects]

theorem correctSpans_spans_references {run : Run}
    (answers : corrector.client.service.AnswersBy answer) (positive : 0 < corrector.chunkSize)
    (idle : workspace.session.inFlight = [])
    (distinct : HaveOwnDigests (corrector.callsFor document given?))
    (consistent : workspace.IsConsistent corrector.client answer (corrector.callsFor document given?))
    (corrects : correctSpans corrector (corrector.spans document) given?
      (workspace.logExtraction corrector document) = (.ok run, after))
    (uncancelled : after.session.isCancelled = false) :
    run.state = .completed ∧ run.corrections = corrector.references answer document given? ∧
      after.undoStack = workspace.undoStack := by
  have logged : (workspace.logExtraction corrector document).IsConsistent corrector.client answer
      (corrector.callsFor document given?) := consistent
  have quiet : (workspace.logExtraction corrector document).session.inFlight = [] := idle
  obtain ⟨completed, corrections⟩ :=
    corrections_eq_reference answers positive quiet distinct logged corrects uncancelled
  have kept := correctSpans_frame corrector (corrector.spans document) given?
    (workspace.logExtraction corrector document)
  rw [corrects] at kept
  exact ⟨completed, corrections, kept.1.undoStack⟩

theorem preview_shows {shown : Run} (answers : corrector.client.service.AnswersBy answer)
    (positive : 0 < corrector.chunkSize)
    (idle : workspace.session.inFlight = [])
    (distinct : HaveOwnDigests (corrector.callsFor document given?))
    (consistent : workspace.IsConsistent corrector.client answer (corrector.callsFor document given?))
    (previewed : preview corrector (some document) given? workspace = (.ok shown, after))
    (uncancelled : after.session.isCancelled = false) :
    shown.corrections =
        (corrector.references answer document given?).filter Correction.changed ∧
      after.undoStack = workspace.undoStack := by
  rw [preview] at previewed
  generalize corrects : correctSpans corrector (corrector.spans document) given?
    (workspace.logExtraction corrector document) = outcome at previewed
  rcases outcome with ⟨cause | run, last⟩
  · cases previewed
  · cases previewed
    obtain ⟨-, corrections, stack⟩ :=
      correctSpans_spans_references answers positive idle distinct consistent corrects uncancelled
    exact ⟨congrArg (List.filter Correction.changed) corrections, stack⟩

/-- What is applied to a document: its reference corrections, on top of the undo stack as it was. -/
theorem applyAll_placesReferences {application : Application} {changed : Document}
    (answers : corrector.client.service.AnswersBy answer) (positive : 0 < corrector.chunkSize)
    (idle : workspace.session.inFlight = [])
    (distinct : HaveOwnDigests (corrector.callsFor document given?))
    (consistent : workspace.IsConsistent corrector.client answer (corrector.callsFor document given?))
    (applies : applyAll corrector (some document) given? workspace =
      (.ok (application, changed), after))
    (uncancelled : after.session.isCancelled = false) :
    ∃ (behind : Workspace σ) (placed : Option (List Correction)) (last : Workspace σ),
      behind.place corrector document (corrector.references answer document given?) =
        (placed, changed, last) ∧
      behind.undoStack = workspace.undoStack ∧ application.applied = placed.getD [] ∧
        application.succeeded = placed.isSome ∧ after.undoStack = last.undoStack := by
  have course := correctAndPlace_applies corrector document (corrector.spans document) given?
    (workspace.logExtraction corrector document)
  rw [applyAll] at applies
  rw [applies] at course
  cases course with
  | nothing none records =>
      refine ⟨workspace, some [], workspace, ?_, rfl, rfl, rfl, records.undoStack⟩
      rw [Corrector.references, none]
      rfl
  | cancelled corrects stopped =>
      obtain ⟨completed, -⟩ :=
        correctSpans_spans_references answers positive idle distinct consistent corrects uncancelled
      rw [completed] at stopped
      cases stopped
  | placed corrects finished =>
      rw [place_isCancelled] at uncancelled
      obtain ⟨-, corrections, stack⟩ :=
        correctSpans_spans_references answers positive idle distinct consistent corrects uncancelled
      exact ⟨_, _, _, corrections ▸ rfl, stack, rfl, rfl, rfl⟩

/-- For every document and all options, over a service that looks at the prompt alone: of two
workspaces with the same undo stack and consistent caches, one shows the corrections of the document
and then applies those that it has shown, the other applies all of them. Each of the two runs returns
unless its cache gives up, and in one workspace both fail alike. Where both return uncancelled, both
apply the same corrections in the same order, with the same success, and leave the same document and
the same undo stack. -/
theorem applySubset_preview_agrees (corrector : Corrector σ) (answer : Text → Reply)
    (document : Document) (given? : Option CorrectionOptions) (left right : Workspace σ)
    (answers : corrector.client.service.AnswersBy answer) (positive : 0 < corrector.chunkSize)
    (leftIdle : left.session.inFlight = []) (rightIdle : right.session.inFlight = [])
    (distinct : HaveOwnDigests (corrector.callsFor document given?))
    (leftConsistent : left.IsConsistent corrector.client answer (corrector.callsFor document given?))
    (rightConsistent : right.IsConsistent corrector.client answer
      (corrector.callsFor document given?))
    (sameUndo : left.undoStack = right.undoStack) :
    (∀ failure, (preview corrector (some document) given? left).1 = .error failure →
        corrector.client.GivesUp (corrector.callsFor document given?)
          (left.CanRank (corrector.spans document).length) failure) ∧
      (∀ failure, (applyAll corrector (some document) given? right).1 = .error failure →
        corrector.client.GivesUp (corrector.callsFor document given?)
          (right.CanRank (corrector.spans document).length) failure) ∧
      (∀ failure, (preview corrector (some document) given? left).1 = .error failure ↔
        (applyAll corrector (some document) given? left).1 = .error failure) ∧
      ∀ shown seen application changed after,
        preview corrector (some document) given? left = (.ok shown, seen) →
          seen.session.isCancelled = false →
        applyAll corrector (some document) given? right = (.ok (application, changed), after) →
          after.session.isCancelled = false →
        ∃ subset last,
          applySubset corrector (some document) shown.corrections seen =
              (.ok (subset, changed), last) ∧
            subset.applied = application.applied ∧ subset.succeeded = application.succeeded ∧
            last.undoStack = after.undoStack := by
  refine ⟨fun failure failed => correctSpans_spans_error answers.isHarmless positive
      (preview_eq_error_iff.mp failed),
    fun failure failed => correctSpans_spans_error answers.isHarmless positive
      (applyAll_eq_error_iff.mp failed),
    fun failure => preview_eq_error_iff.trans applyAll_eq_error_iff.symm, ?_⟩
  intro shown seen application changed after previewed leftUncancelled applies rightUncancelled
  obtain ⟨corrections, seenStack⟩ :=
    preview_shows answers positive leftIdle distinct leftConsistent previewed leftUncancelled
  obtain ⟨behind, placed, last, places, behindStack, applied, succeeded, stack⟩ :=
    applyAll_placesReferences answers positive rightIdle distinct rightConsistent applies
      rightUncancelled
  have plans : EditPlan.ofCorrections document shown.corrections =
      EditPlan.ofCorrections document (corrector.references answer document given?) := by
    rw [corrections, EditPlan.ofCorrections_filter_changed]
  have before : seen.undoStack = behind.undoStack := by
    rw [seenStack, sameUndo, behindStack]
  obtain ⟨final, placesShown, finalStack⟩ := place_congr plans before places
  refine ⟨⟨placed.getD [], placed.isSome, none⟩, final, ?_, applied.symm, succeeded.symm,
    finalStack.trans stack.symm⟩
  simp only [applySubset, placesShown]

def askingWorkspace : Workspace Unit where
  session := { service := () }

/-- A workspace whose cache holds the answer for the comment of a note. -/
def knowingWorkspace : Workspace Unit where
  session := { service := () }
  now := 1000
  cache :=
    { entries := (catCorrector.callsFor catNote none).filterMap fun call =>
        (Sha256.ofText? call.key).map fun digest => (digest, ⟨"The cat is here.", 500, 3, 16⟩) }

/-- One workspace asks the service and shows the correction before it is applied, the other finds it in
its cache and applies it. -/
theorem applySubset_preview_agrees_catNote :
    ∃ shown seen application changed after subset last,
      preview catCorrector (some catNote) none askingWorkspace = (.ok shown, seen) ∧
      applyAll catCorrector (some catNote) none knowingWorkspace =
        (.ok (application, changed), after) ∧
      applySubset catCorrector (some catNote) shown.corrections seen =
        (.ok (subset, changed), last) ∧
      subset.applied = application.applied ∧ last.undoStack = after.undoStack ∧
      changed.text = "x = 1\n  # The cat is here.\ny = x".toText := by
  have answers : catCorrector.client.service.AnswersBy fun _ => .ok (some "The cat is here.") :=
    ⟨fun _ _ => rfl, fun _ _ replied => by cases replied⟩
  have distinct : HaveOwnDigests (catCorrector.callsFor catNote none) :=
    haveOwnDigests_of_ne (by decide +kernel)
  obtain ⟨-, -, -, agree⟩ :=
    applySubset_preview_agrees catCorrector _ catNote none askingWorkspace knowingWorkspace answers
      (by decide) rfl rfl distinct
      (isConsistent_of_forward (fun _ => Int.le_refl _) (fun _ _ _ member => nomatch member))
      (isConsistent_of_forward (fun _ => Int.le_refl _) (by decide +kernel)) rfl
  have shows : (preview catCorrector (some catNote) none askingWorkspace).1.isOk = true ∧
      (preview catCorrector (some catNote) none askingWorkspace).2.session.isCancelled = false := by
    decide +kernel
  have applied : ((applyAll catCorrector (some catNote) none knowingWorkspace).1.toOption.map
        fun applied => applied.2.text) = some "x = 1\n  # The cat is here.\ny = x".toText ∧
      (applyAll catCorrector (some catNote) none knowingWorkspace).2.session.isCancelled = false := by
    decide +kernel
  rcases previewed : preview catCorrector (some catNote) none askingWorkspace with
    ⟨failure | shown, seen⟩
  · rw [previewed] at shows
    cases shows.1
  rcases applies : applyAll catCorrector (some catNote) none knowingWorkspace with
    ⟨failure | ⟨application, changed⟩, after⟩
  · rw [applies] at applied
    cases applied.1
  rw [previewed] at shows
  rw [applies] at applied
  obtain ⟨subset, last, places, same, -, stack⟩ :=
    agree shown seen application changed after previewed shows.2 applies applied.2
  exact ⟨shown, seen, application, changed, after, subset, last, rfl, rfl, places, same, stack,
    Option.some.inj applied.1⟩

end Paths

end Workspace

end CodeProse
