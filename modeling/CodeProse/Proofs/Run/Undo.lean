import CodeProse.Proofs.Run.Apply
import Mathlib.Logic.Function.Basic

/-!
# Undoing applications

Several documents share the undo stack of one corrector. However their applications and undos
follow on one another, undoing the latest entry for its own document gives that document the text
it had just before the application that put the entry there, and every other undo does nothing.
-/

set_option autoImplicit false

namespace CodeProse

/-- Documents with the workspace of one corrector. The journal lists the applications that
changed a document and have not been undone, the latest first: which document it was, and the
text it had just before. -/
structure Desk (σ ι : Type) where
  workspace : Workspace σ
  documents : ι → Document
  journal : List (ι × Text) := []

/-- A call for one of the documents at a desk. -/
inductive DeskCall (ι : Type) where
  | applyAll (index : ι) (options : Option CorrectionOptions)
  | applySelection (index : ι) (selection : Option Range) (options : Option CorrectionOptions)
  | applySubset (index : ι) (corrections : List Correction)
  | undo (index : ι)

/-- Corrections of the caller's own have to be spaced; those of an extraction are. -/
def DeskCall.IsAdmissible {ι : Type} : DeskCall ι → Prop
  | applySubset _ corrections => Spaced (corrections.map Correction.range)
  | _ => True

namespace Desk

variable {σ ι : Type} [DecidableEq ι]

/-- The desk behind an application, which is written into the journal if it applied something. -/
def afterApplication (desk : Desk σ ι) (index : ι) :
    Except Failure Workspace.Applied × Workspace σ → Desk σ ι
  | (.ok (application, changed), workspace) =>
      { workspace
        documents := Function.update desk.documents index changed
        journal :=
          if application.applied = [] then desk.journal
          else (index, (desk.documents index).text) :: desk.journal }
  | (.error _, workspace) => { desk with workspace }

def undo (desk : Desk σ ι) (index : ι) : Bool × Desk σ ι :=
  match Workspace.undo (some (desk.documents index)) desk.workspace with
  | (.ok (some reverted), workspace) =>
      (true,
        { workspace
          documents := Function.update desk.documents index reverted
          journal := desk.journal.tail })
  | (_, workspace) => (false, { desk with workspace })

def perform (corrector : Corrector σ) (desk : Desk σ ι) : DeskCall ι → Desk σ ι
  | .applyAll index options =>
      desk.afterApplication index
        (Workspace.applyAll corrector (some (desk.documents index)) options desk.workspace)
  | .applySelection index selection options =>
      desk.afterApplication index
        (Workspace.applySelection corrector (some (desk.documents index)) selection options
          desk.workspace)
  | .applySubset index corrections =>
      desk.afterApplication index
        (Workspace.applySubset corrector (some (desk.documents index)) corrections desk.workspace)
  | .undo index => (desk.undo index).2

/-- The desks that calls lead to from one without anything to undo. Between the calls everything
but the documents and the undo stack may change: the service, the signal, the clock, the cache. -/
inductive Reachable (corrector : Corrector σ) : Desk σ ι → Prop where
  | start {desk : Desk σ ι} (empty : desk.workspace.undoStack = [])
      (distinct : Function.Injective fun index => (desk.documents index).identity) :
      Reachable corrector desk
  | meanwhile {desk : Desk σ ι} {workspace : Workspace σ} (before : Reachable corrector desk)
      (same : workspace.undoStack = desk.workspace.undoStack) :
      Reachable corrector { desk with workspace }
  | call {desk : Desk σ ι} {call : DeskCall ι} (before : Reachable corrector desk)
      (admissible : call.IsAdmissible) : Reachable corrector (desk.perform corrector call)

/-- An undo stack that leads back through the texts of a journal: the first entry gives its
document the first text, and the other entries lead back from there. -/
def LeadsBack : (ι → Document) → List UndoEntry → List (ι × Text) → Prop
  | _, [], _ => True
  | _, _ :: _, [] => False
  | documents, entry :: stack, (index, text) :: journal =>
      entry.identity = (documents index).identity ∧
        (documents index).replaceRanges? entry.edits = some { documents index with text } ∧
        LeadsBack (Function.update documents index { documents index with text }) stack journal

/-- What holds at every reachable desk. -/
structure IsCoherent (desk : Desk σ ι) : Prop where
  distinct : Function.Injective fun index => (desk.documents index).identity
  leads : LeadsBack desk.documents desk.workspace.undoStack desk.journal

theorem LeadsBack.take {documents : ι → Document} {stack : List UndoEntry}
    {journal : List (ι × Text)} (leads : LeadsBack documents stack journal) (limit : Nat) :
    LeadsBack documents (stack.take limit) journal := by
  induction stack generalizing documents journal limit with
  | nil => simp [LeadsBack]
  | cons entry stack ih =>
      cases limit with
      | zero => simp [LeadsBack]
      | succ limit =>
          cases journal with
          | nil => cases leads
          | cons record journal =>
              obtain ⟨owner, back, further⟩ := leads
              exact ⟨owner, back, ih further limit⟩

theorem injective_update {documents : ι → Document} {index : ι} {changed : Document}
    (distinct : Function.Injective fun index => (documents index).identity)
    (same : changed.identity = (documents index).identity) :
    Function.Injective fun other => (Function.update documents index changed other).identity := by
  have identities : (fun other => (Function.update documents index changed other).identity) =
      fun other => (documents other).identity := by
    funext other
    by_cases here : other = index
    · rw [here, Function.update_self, same]
    · rw [Function.update_of_ne here]
  rw [identities]
  exact distinct

variable {corrector : Corrector σ} {desk : Desk σ ι}

theorem IsCoherent.afterApplication (coherent : desk.IsCoherent) (index : ι)
    {outcome : Except Failure Workspace.Applied × Workspace σ}
    (places : Workspace.PlacesOrFails corrector.undoLimit (desk.documents index)
      desk.workspace.undoStack outcome) :
    (desk.afterApplication index outcome).IsCoherent := by
  obtain ⟨distinct, leads⟩ := coherent
  generalize desk.workspace.undoStack = before at leads places
  rcases outcome with ⟨failure | ⟨⟨applied, succeeded, run⟩, changed⟩, after⟩
  · have same : after.undoStack = before := places
    exact ⟨distinct, same.symm ▸ leads⟩
  · have placing : Workspace.Placing corrector.undoLimit (desk.documents index) before applied
        changed after.undoStack := places
    generalize stacked : after.undoStack = stack at placing
    cases placing with
    | nothing =>
        simp only [Desk.afterApplication, if_true, Function.update_eq_self]
        exact ⟨distinct, stacked ▸ leads⟩
    | @change _ text entry nonempty owner back =>
        simp only [Desk.afterApplication, nonempty, if_false]
        have further : LeadsBack (Function.update desk.documents index
            { desk.documents index with text }) (entry :: before)
            ((index, (desk.documents index).text) :: desk.journal) := by
          simp only [LeadsBack, Function.update_self, Function.update_idem,
            Function.update_eq_self]
          exact ⟨owner, back, leads⟩
        exact ⟨injective_update distinct rfl, stacked ▸ further.take corrector.undoLimit⟩

/-- An undo at a coherent desk for the document of the latest entry. -/
theorem IsCoherent.undo_own (coherent : desk.IsCoherent) {index : ι} {entry : UndoEntry}
    {stack : List UndoEntry} (stacked : desk.workspace.undoStack = entry :: stack)
    (own : entry.identity = (desk.documents index).identity) :
    ∃ text journal, desk.journal = (index, text) :: journal ∧
      (desk.undo index).1 = true ∧ (desk.undo index).2.workspace.undoStack = stack ∧
      (desk.undo index).2.documents =
        Function.update desk.documents index { desk.documents index with text } ∧
      (desk.undo index).2.journal = journal ∧ (desk.undo index).2.IsCoherent := by
  obtain ⟨distinct, leads⟩ := coherent
  rw [stacked] at leads
  cases recorded : desk.journal with
  | nil => simp [recorded, LeadsBack] at leads
  | cons record journal =>
      obtain ⟨owner, text⟩ := record
      rw [recorded] at leads
      obtain ⟨identity, back, further⟩ := leads
      have same : owner = index := distinct (identity.symm.trans own)
      subst same
      have popped : desk.workspace.undoStack.drop 1 = stack := by
        rw [stacked, List.drop_one, List.tail_cons]
      have tail : desk.journal.tail = journal := by
        rw [recorded, List.tail_cons]
      have undone : ∃ workspace : Workspace σ, workspace.undoStack = stack ∧
          Workspace.undo (some (desk.documents owner)) desk.workspace =
            (.ok (some { desk.documents owner with text }), workspace) := by
        simp only [Workspace.undo, Workspace.latestUndo, stacked, own, if_true, back]
        exact ⟨_, rfl, rfl⟩
      obtain ⟨workspace, left, result⟩ := undone
      have shape : desk.undo owner = (true, {
          workspace
          documents := Function.update desk.documents owner { desk.documents owner with text }
          journal }) := by
        simp only [Desk.undo, result, tail]
      rw [shape]
      exact ⟨text, journal, rfl, rfl, left, rfl, rfl, injective_update distinct rfl,
        left ▸ further⟩

theorem undo_other {index : ι} (other : ∀ entry ∈ desk.workspace.undoStack.head?,
      entry.identity ≠ (desk.documents index).identity) :
    (desk.undo index).1 = false ∧
      (desk.undo index).2.workspace.undoStack = desk.workspace.undoStack ∧
      (desk.undo index).2.documents = desk.documents ∧
      (desk.undo index).2.journal = desk.journal := by
  have refused : ∃ workspace : Workspace σ, workspace.undoStack = desk.workspace.undoStack ∧
      Workspace.undo (some (desk.documents index)) desk.workspace = (.ok none, workspace) := by
    cases stacked : desk.workspace.undoStack with
    | nil =>
        simp only [Workspace.undo, Workspace.latestUndo, stacked]
        exact ⟨desk.workspace.log _ _, stacked, rfl⟩
    | cons entry stack =>
        have foreign : entry.identity ≠ (desk.documents index).identity :=
          other entry (by rw [stacked]; rfl)
        simp only [Workspace.undo, Workspace.latestUndo, stacked, foreign, if_false]
        exact ⟨desk.workspace.log _ _, stacked, rfl⟩
  obtain ⟨workspace, same, result⟩ := refused
  have shape : desk.undo index = (false, { desk with workspace }) := by
    simp only [Desk.undo, result]
  rw [shape]
  exact ⟨rfl, same, rfl, rfl⟩

theorem IsCoherent.undo (coherent : desk.IsCoherent) (index : ι) :
    (desk.undo index).2.IsCoherent := by
  by_cases other : ∀ entry ∈ desk.workspace.undoStack.head?,
      entry.identity ≠ (desk.documents index).identity
  · obtain ⟨-, stack, documents, journal⟩ := undo_other other
    exact ⟨documents ▸ coherent.distinct, by rw [stack, documents, journal]; exact coherent.leads⟩
  · cases stacked : desk.workspace.undoStack with
    | nil => simp [stacked] at other
    | cons entry stack =>
        have own : entry.identity = (desk.documents index).identity := by
          simpa [stacked] using other
        obtain ⟨-, -, -, -, -, -, -, after⟩ := coherent.undo_own stacked own
        exact after

theorem IsCoherent.perform (coherent : desk.IsCoherent) (corrector : Corrector σ)
    {call : DeskCall ι} (admissible : call.IsAdmissible) :
    (desk.perform corrector call).IsCoherent := by
  cases call with
  | applyAll index options =>
      exact coherent.afterApplication index
        (Workspace.applyAll_places corrector _ options desk.workspace)
  | applySelection index selection options =>
      exact coherent.afterApplication index
        (Workspace.applySelection_places corrector _ selection options desk.workspace)
  | applySubset index corrections =>
      exact coherent.afterApplication index
        (Workspace.applySubset_places corrector admissible desk.workspace)
  | undo index => exact coherent.undo index

theorem Reachable.coherent (reachable : desk.Reachable corrector) : desk.IsCoherent := by
  induction reachable with
  | start empty distinct =>
      refine ⟨distinct, ?_⟩
      rw [empty]
      exact trivial
  | meanwhile before same ih => exact ⟨ih.distinct, same.symm ▸ ih.leads⟩
  | call before admissible ih => exact ih.perform corrector admissible

/-- However the calls follow on one another: where the latest undo entry belongs to a document,
undoing succeeds, gives it the text it had just before the application that put the entry there,
and takes off that entry alone. For any other document it fails and changes nothing. -/
theorem undo_of_reachable (reachable : desk.Reachable corrector) (index : ι) :
    (∀ entry stack, desk.workspace.undoStack = entry :: stack →
      entry.identity = (desk.documents index).identity →
      ∃ text journal, desk.journal = (index, text) :: journal ∧
        (desk.undo index).1 = true ∧ (desk.undo index).2.workspace.undoStack = stack ∧
        (desk.undo index).2.documents =
          Function.update desk.documents index { desk.documents index with text }) ∧
    ((∀ entry ∈ desk.workspace.undoStack.head?,
        entry.identity ≠ (desk.documents index).identity) →
      (desk.undo index).1 = false ∧
        (desk.undo index).2.workspace.undoStack = desk.workspace.undoStack ∧
        (desk.undo index).2.documents = desk.documents) := by
  constructor
  · intro entry stack stacked own
    obtain ⟨text, journal, recorded, success, popped, documents, -⟩ :=
      reachable.coherent.undo_own stacked own
    exact ⟨text, journal, recorded, success, popped, documents⟩
  · intro other
    obtain ⟨failed, stack, documents, -⟩ := undo_other other
    exact ⟨failed, stack, documents⟩

/-- A corrector whose service never answers. -/
def silentCorrector : Corrector Unit where
  client := { service := { reply := fun state _ => (.ok none, state) }, model := [] }

def twoNotes : Desk Unit Bool where
  workspace := { session := { service := () } }
  documents
    | true => { identity := "left", languageId := "plaintext", text := "teh cat\nsat" }
    | false => { identity := "right", languageId := "plaintext", text := "a dgo" }

/-- The word of a range in the first line, spelled right. -/
def spelling (start stop : Nat) (draft text : String) : Correction where
  text
  draft
  range := ⟨⟨0, start⟩, ⟨0, stop⟩⟩
  confidence := 1

def bothCorrected : Desk Unit Bool :=
  (twoNotes.perform silentCorrector (.applySubset true [spelling 0 3 "teh" "the\nbig"])).perform
    silentCorrector (.applySubset false [spelling 2 5 "dgo" "dog"])

theorem bothCorrected_reachable : bothCorrected.Reachable silentCorrector := by
  have distinct : Function.Injective fun index => (twoNotes.documents index).identity := by
    intro left right same
    revert same
    cases left <;> cases right <;> decide
  have spaced : ∀ range : Range, range.start < range.stop → Spaced [range] := fun range extent =>
    ⟨by simpa using extent, .singleton _⟩
  exact .call (.call (.start rfl distinct) (spaced _ (by decide))) (spaced _ (by decide))

/-- After both were corrected, an undo for the left document fails, and one for the right document
gives it back its text. -/
theorem undo_bothCorrected :
    (bothCorrected.undo true).1 = false ∧ (bothCorrected.undo false).1 = true ∧
      ((bothCorrected.undo false).2.documents false).text = "a dgo".toText ∧
      ((bothCorrected.undo false).2.documents true).text = "the\nbig cat\nsat".toText := by
  obtain ⟨-, foreign⟩ := undo_of_reachable bothCorrected_reachable true
  obtain ⟨own, -⟩ := undo_of_reachable bothCorrected_reachable false
  obtain ⟨text, journal, recorded, success, -, documents⟩ := own _ _ rfl (by decide +kernel)
  have latest : bothCorrected.journal.head? = some (false, "a dgo".toText) := by decide +kernel
  rw [recorded, List.head?_cons, Option.some.injEq, Prod.mk.injEq] at latest
  obtain ⟨refused, -, -⟩ := foreign (by decide +kernel)
  refine ⟨refused, success, ?_, ?_⟩
  · rw [documents, Function.update_self]
    exact latest.2
  · rw [documents, Function.update_of_ne (by decide)]
    decide +kernel

end Desk

end CodeProse
