import CodeProse.Proofs.Correction.Sweep
import CodeProse.Proofs.Run.ApplyAll

/-!
# What applications record

However corrections come to a document, they are put into it in one place, and recorded there. An
application that stops short of it leaves the document, the undo stack and the history alone; any
other one changes the document once and adds one entry to either record.
-/

set_option autoImplicit false

namespace CodeProse

variable {σ : Type}

/-- The ways in which corrections come to a document. -/
inductive Attempt where
  | all (options : Option CorrectionOptions)
  | selection (selection? : Option Range) (options : Option CorrectionOptions)
  | subset (corrections : List Correction)

namespace Attempt

def perform (corrector : Corrector σ) (document? : Option Document) :
    Attempt → Workspace.Action σ Workspace.Applied
  | all options => Workspace.applyAll corrector document? options
  | selection selection? options => Workspace.applySelection corrector document? selection? options
  | subset corrections => Workspace.applySubset corrector document? corrections

/-- The corrections that an attempt has for its document: those at hand, or those of its run. -/
def offered : Attempt → Application → List Correction
  | subset corrections, _ => corrections
  | _, application => (application.run.map Run.corrections).getD []

end Attempt

def Application.IsCancelled (application : Application) : Prop :=
  ∃ run ∈ application.run, run.state = .cancelled

/-- Whether the corrections on offer stay out of a document: the run was cancelled, they change
nothing, or the document refuses their edits. -/
def Application.StopsShort (application : Application) (document : Document)
    (offered : List Correction) : Prop :=
  application.IsCancelled ∨ (EditPlan.ofCorrections document offered).edits = [] ∨
    document.replaceRanges? (EditPlan.ofCorrections document offered).edits = none

namespace Workspace

/-- One more entry on the undo stack, in whose favour a full stack gives up its oldest one, and one
more application at the end of the history. -/
structure AddsRecord (limit : Nat) (before : Workspace σ) (entry : UndoEntry)
    (after : Workspace σ) : Prop where
  spare : before.undoStack.length < limit → after.undoStack = entry :: before.undoStack
  full : before.undoStack.length = limit → after.undoStack = entry :: before.undoStack.dropLast
  history : after.history = before.history ++ [⟨entry.identity, entry.corrections⟩]

/-- What an application with some corrections on offer leaves behind. -/
structure Settles (limit : Nat) (before : Workspace σ) (document : Document)
    (offered : List Correction) (application : Application) (changed : Document)
    (after : Workspace σ) : Prop where
  kept : application.StopsShort document offered →
    application.applied = [] ∧ changed = document ∧ before.SameRecords after
  carried : ¬ application.StopsShort document offered →
    application.succeeded = true ∧ application.applied ≠ [] ∧
      application.applied = (EditPlan.ofCorrections document offered).corrections ∧
      document.replaceRanges? (EditPlan.ofCorrections document offered).edits = some changed ∧
      before.AddsRecord limit ⟨document.identity, application.applied,
        inverseEdits document.text (EditPlan.ofCorrections document offered).edits⟩ after

/-- What an attempt leaves behind, also when it fails; then it hands back no document. -/
def SettlesOrFails (limit : Nat) (before : Workspace σ) (document : Document)
    (offered : Application → List Correction) : Except Failure Applied × Workspace σ → Prop
  | (.ok (application, changed), after) =>
      before.Settles limit document (offered application) application changed after
  | (.error _, after) => before.SameRecords after

section Recording

variable {limit : Nat} {document : Document} {corrections : List Correction}

theorem remember_addsRecord (positive : 0 < limit) (workspace : Workspace σ) (entry : UndoEntry) :
    workspace.AddsRecord limit entry (workspace.remember limit entry) := by
  obtain ⟨room, rfl⟩ : ∃ room, limit = room + 1 := ⟨limit - 1, by omega⟩
  refine ⟨fun spare => ?_, fun full => ?_, rfl⟩
  · exact List.take_of_length_le (Nat.succ_le_of_lt spare)
  · have last : workspace.undoStack.length - 1 = room := by omega
    rw [remember, List.take_succ_cons, List.dropLast_eq_take, last]

theorem AddsRecord.of_sameRecords {entry : UndoEntry} {start before after final : Workspace σ}
    (first : start.SameRecords before) (adds : before.AddsRecord limit entry after)
    (last : after.SameRecords final) : start.AddsRecord limit entry final := by
  obtain ⟨spare, full, history⟩ := adds
  rw [first.undoStack] at spare full
  rw [first.history] at history
  exact ⟨fun room => last.undoStack.trans (spare room), fun none => last.undoStack.trans (full none),
    last.history.trans history⟩

theorem edits_eq_nil_iff : (EditPlan.ofCorrections document corrections).edits = [] ↔
    (EditPlan.ofCorrections document corrections).corrections = [] := by
  have edits := (EditPlan.planOrdered_sweeps document none
    (stableSort (fun left right => left.range.notAfter right.range) corrections)).edits_eq
  rw [EditPlan.ofCorrections, edits, List.map_eq_nil_iff]

/-- Corrections are put into a document and recorded, or they stay out of it and leave no trace. -/
theorem place_settles {corrector : Corrector σ} (limited : 0 < corrector.undoLimit)
    (document : Document) (corrections : List Correction) (workspace : Workspace σ)
    {run? : Option Run} (uncancelled : ∀ run ∈ run?, run.state ≠ .cancelled) :
    workspace.Settles corrector.undoLimit document corrections
      ⟨(workspace.place corrector document corrections).1.getD [],
        (workspace.place corrector document corrections).1.isSome, run?⟩
      (workspace.place corrector document corrections).2.1
      (workspace.place corrector document corrections).2.2 := by
  have puts := place_putsIn corrector document corrections workspace
  generalize workspace.place corrector document corrections = result at puts ⊢
  cases puts with
  | idle empty records =>
      exact ⟨fun _ => ⟨rfl, rfl, rfl, rfl⟩, fun goes => absurd (.inr (.inl empty)) goes⟩
  | refused refused records =>
      exact ⟨fun _ => ⟨rfl, rfl, rfl, rfl⟩, fun goes => absurd (.inr (.inr refused)) goes⟩
  | taken filled taken records =>
      constructor
      · rintro (⟨run, known, cancelled⟩ | idle | refused)
        · exact absurd cancelled (uncancelled run known)
        · exact absurd idle filled
        · rw [taken] at refused
          cases refused
      · intro _
        refine ⟨rfl, fun none => filled (edits_eq_nil_iff.mpr none), rfl, taken, ?_⟩
        exact .of_sameRecords ⟨rfl, rfl⟩ (remember_addsRecord limited workspace _) ⟨rfl, rfl⟩

theorem Settles.of_sameRecords {start before after : Workspace σ} {application : Application}
    {changed : Document} (same : start.SameRecords before)
    (settles : before.Settles limit document corrections application changed after) :
    start.Settles limit document corrections application changed after := by
  refine ⟨fun stops => ?_, fun goes => ?_⟩
  · obtain ⟨nothing, document, records⟩ := settles.kept stops
    exact ⟨nothing, document, same.trans records⟩
  · obtain ⟨succeeded, some, planned, taken, adds⟩ := settles.carried goes
    exact ⟨succeeded, some, planned, taken, .of_sameRecords same adds ⟨rfl, rfl⟩⟩

end Recording

section Attempts

variable {corrector : Corrector σ}

theorem correctAndPlace_settles (limited : 0 < corrector.undoLimit) (document : Document)
    (spans : List Span) (given? : Option CorrectionOptions) {start workspace : Workspace σ}
    (same : start.SameRecords workspace) :
    start.SettlesOrFails corrector.undoLimit document
      (fun application => (application.run.map Run.corrections).getD [])
      (correctAndPlace corrector document spans given? workspace) := by
  have result := correctSpans_frame corrector spans given? workspace
  have course := correctAndPlace_applies corrector document spans given? workspace
  generalize correctAndPlace corrector document spans given? workspace = outcome at course ⊢
  cases course with
  | nothing none records =>
      exact ⟨fun _ => ⟨rfl, rfl, same.trans records⟩, fun goes => absurd (.inr (.inl rfl)) goes⟩
  | failed corrects =>
      rw [corrects] at result
      exact same.trans result
  | @cancelled run _ corrects stopped =>
      rw [corrects] at result
      exact ⟨fun _ => ⟨rfl, rfl, same.trans result.1⟩,
        fun goes => absurd (.inl ⟨run, rfl, stopped⟩) goes⟩
  | @placed run after corrects finished =>
      rw [corrects] at result
      exact .of_sameRecords (same.trans result.1)
        (place_settles limited document run.corrections after (by simpa using finished))

/-- Every attempt at a document ends in one of these ways. -/
theorem perform_settles (limited : 0 < corrector.undoLimit) (document : Document)
    (attempt : Attempt) (workspace : Workspace σ) :
    workspace.SettlesOrFails corrector.undoLimit document attempt.offered
      (attempt.perform corrector (some document) workspace) := by
  cases attempt with
  | all options => exact correctAndPlace_settles limited document _ options ⟨rfl, rfl⟩
  | selection selection? options =>
      cases chosen : selection?.filter fun selection => !selection.isEmpty with
      | none =>
          simp only [Attempt.perform, applySelection, chosen]
          exact ⟨rfl, rfl⟩
      | some selection =>
          simp only [Attempt.perform, applySelection, chosen]
          exact correctAndPlace_settles limited document _ options ⟨rfl, rfl⟩
  | subset corrections =>
      exact place_settles limited document corrections workspace fun run none => by cases none

theorem exists_perform_subset (corrector : Corrector σ) (document : Document)
    (corrections : List Correction) (workspace : Workspace σ) :
    ∃ application changed after,
      (Attempt.subset corrections).perform corrector (some document) workspace =
          (.ok (application, changed), after) ∧
        application.run = none :=
  ⟨_, _, _, rfl, rfl⟩

/-- Whether the latest undo entry is of no use to a document: there is none, it belongs to another
document, or the document refuses its edits. -/
def CannotUndo (workspace : Workspace σ) (document : Document) : Prop :=
  ∀ entry ∈ workspace.undoStack.head?, entry.identity = document.identity →
    document.replaceRanges? entry.edits = none

theorem undo_of_cannotUndo {workspace : Workspace σ} {document : Document}
    (useless : workspace.CannotUndo document) :
    ∃ after, undo (some document) workspace = (.ok none, after) ∧ workspace.SameRecords after := by
  cases stacked : workspace.undoStack with
  | nil =>
      simp only [undo, latestUndo, stacked]
      exact ⟨_, rfl, rfl, rfl⟩
  | cons entry stack =>
      by_cases own : entry.identity = document.identity
      · have refused := useless entry (by rw [stacked]; rfl) own
        simp only [undo, latestUndo, stacked, own, if_true, refused]
        exact ⟨_, rfl, rfl, rfl⟩
      · simp only [undo, latestUndo, stacked, own, if_false]
        exact ⟨_, rfl, rfl, rfl⟩

/-- Whichever way corrections come to a document and whatever the service does: an attempt that fails
hands back no document and leaves the undo stack and the history alone; one that is cancelled, has
nothing to change or is refused leaves the document alone as well; any other changes the document
once and adds one entry to either record. An undo that is of no use to its document changes nothing. -/
theorem perform_records (corrector : Corrector σ) (limited : 0 < corrector.undoLimit)
    (attempt : Attempt) (workspace : Workspace σ) :
    (∃ failure, attempt.perform corrector none workspace = (.error failure, workspace)) ∧
      ∀ document : Document,
        workspace.SettlesOrFails corrector.undoLimit document attempt.offered
          (attempt.perform corrector (some document) workspace) ∧
        (workspace.CannotUndo document → ∃ after,
          undo (some document) workspace = (.ok none, after) ∧ workspace.SameRecords after) := by
  refine ⟨?_, fun document => ⟨perform_settles limited document attempt workspace,
    undo_of_cannotUndo⟩⟩
  cases attempt with
  | all options => exact ⟨_, rfl⟩
  | selection selection? options => exact ⟨_, rfl⟩
  | subset corrections => exact ⟨_, rfl⟩

def catSpelling : Correction where
  text := "The"
  draft := "Teh"
  range := ⟨⟨1, 4⟩, ⟨1, 7⟩⟩
  confidence := 1

/-- Where one application can be undone, a second one takes the place of the first on the stack, and
follows it in the history; a document that takes no edits leaves both as they were. -/
theorem perform_records_catNote :
    let corrector := { catCorrector with undoLimit := 1 }
    let before : Workspace Unit :=
      { session := { service := () }
        undoStack := [⟨"other", [catSpelling], []⟩]
        history := [⟨"other", [catSpelling]⟩] }
    (∃ application changed after,
      (Attempt.subset [catSpelling]).perform corrector (some catNote) before =
          (.ok (application, changed), after) ∧
        after.undoStack.map UndoEntry.identity = ["note".toText] ∧
        after.history.map HistoryEntry.identity = ["other".toText, "note".toText]) ∧
      ∃ application changed after,
        (Attempt.subset [catSpelling]).perform corrector (some { catNote with readOnly := true })
            before = (.ok (application, changed), after) ∧
          before.SameRecords after := by
  intro corrector before
  constructor
  · obtain ⟨-, outcomes⟩ := perform_records corrector Nat.one_pos (.subset [catSpelling]) before
    obtain ⟨settles, -⟩ := outcomes catNote
    obtain ⟨application, changed, after, performs, unrun⟩ :=
      exists_perform_subset corrector catNote [catSpelling] before
    rw [performs] at settles
    have effective : (EditPlan.ofCorrections catNote [catSpelling]).edits ≠ [] ∧
        catNote.replaceRanges? (EditPlan.ofCorrections catNote [catSpelling]).edits ≠ none := by
      decide +kernel
    have goes : ¬ application.StopsShort catNote [catSpelling] := by
      rintro (⟨run, known, -⟩ | idle | refused)
      · rw [unrun] at known
        cases known
      · exact effective.1 idle
      · exact effective.2 refused
    obtain ⟨-, -, -, -, -, full, history⟩ := settles.carried goes
    refine ⟨application, changed, after, performs, ?_, ?_⟩
    · rw [full rfl]
      rfl
    · rw [history]
      rfl
  · obtain ⟨-, outcomes⟩ := perform_records corrector Nat.one_pos (.subset [catSpelling]) before
    obtain ⟨settles, -⟩ := outcomes { catNote with readOnly := true }
    obtain ⟨application, changed, after, performs, -⟩ :=
      exists_perform_subset corrector { catNote with readOnly := true } [catSpelling] before
    rw [performs] at settles
    obtain ⟨-, -, records⟩ := settles.kept (.inr (.inr (if_pos rfl)))
    exact ⟨application, changed, after, performs, records⟩

end Attempts

end Workspace

end CodeProse
