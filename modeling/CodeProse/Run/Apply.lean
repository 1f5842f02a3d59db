import CodeProse.Run.Correct

/-!
# Applying corrections

Corrections are put into a document as one batch, which can be undone as long as it is the
latest one and belongs to the document at hand. Everything that needs a document fails where
there is none.
-/

set_option autoImplicit false

namespace CodeProse

/-- The failure of a piece of work without the document or the selection that it needs. -/
def noTarget (message : Text) : Failure :=
  .reported .noActiveTarget message

namespace Workspace

variable {σ : Type}

/-- Remembers an application, and how to undo it as far as the limit allows. -/
def remember (workspace : Workspace σ) (limit : Nat) (entry : UndoEntry) : Workspace σ :=
  { workspace with
    undoStack := (entry :: workspace.undoStack).take limit
    history := workspace.history ++ [⟨entry.identity, entry.corrections⟩] }

def logSkipped (plan : EditPlan) (workspace : Workspace σ) : Workspace σ :=
  if plan.skipped.isEmpty then workspace
  else
    workspace.log .debug
      ("Skipped ".toText ++ Text.ofNat plan.skipped.length ++
        " corrections that could not be placed".toText)

/-- Puts corrections into a document. Nothing is remembered of an empty plan or a batch that
the document refuses; the result is the corrections put in, and nothing for a refusal. -/
def place (corrector : Corrector σ) (document : Document) (corrections : List Correction)
    (workspace : Workspace σ) : Option (List Correction) × Document × Workspace σ :=
  let plan := EditPlan.ofCorrections document corrections
  let workspace := workspace.logSkipped plan
  if plan.edits.isEmpty then (some [], document, workspace)
  else
    match document.replaceRanges? plan.edits with
    | none =>
        (none, document,
          workspace.log .warning
            ("Document ".toText ++ document.identity ++ " rejected ".toText ++
              Text.ofNat plan.edits.length ++ " edits".toText))
    | some changed =>
        let entry : UndoEntry :=
          ⟨document.identity, plan.corrections, inverseEdits document.text plan.edits⟩
        (some plan.corrections, changed,
          (workspace.remember corrector.undoLimit entry).log .info
            ("Applied ".toText ++ Text.ofNat plan.corrections.length ++ " corrections to ".toText ++
              document.identity))

/-- An application with the document behind it. -/
abbrev Applied := Application × Document

def applySubset (corrector : Corrector σ) (document? : Option Document)
    (corrections : List Correction) : Action σ Applied := fun workspace =>
  match document? with
  | none => (.error (noTarget "No active document to apply corrections to"), workspace)
  | some document =>
      let (placed, document, workspace) := workspace.place corrector document corrections
      (.ok (⟨placed.getD [], placed.isSome, none⟩, document), workspace)

/-- Corrects spans of a document and puts the corrections into it, unless the run is
cancelled. -/
def correctAndPlace (corrector : Corrector σ) (document : Document) (spans : List Span)
    (options : Option CorrectionOptions) : Action σ Applied := fun workspace =>
  if spans.isEmpty then
    (.ok (⟨[], true, some ⟨[], {}, .completed⟩⟩, document),
      { workspace with state := .completed }.log .info
        ("No text to correct in ".toText ++ document.identity))
  else
    match correctSpans corrector spans options workspace with
    | (.error failure, workspace) => (.error failure, workspace)
    | (.ok run, workspace) =>
        if run.state = .cancelled then (.ok (⟨[], false, some run⟩, document), workspace)
        else
          let (placed, document, workspace) :=
            workspace.place corrector document run.corrections
          (.ok (⟨placed.getD [], placed.isSome, some run⟩, document), workspace)

def applyAll (corrector : Corrector σ) (document? : Option Document)
    (options : Option CorrectionOptions) : Action σ Applied := fun workspace =>
  match document? with
  | none => (.error (noTarget "No active document to correct"), workspace)
  | some document =>
      correctAndPlace corrector document (corrector.spans document) options
        (workspace.logExtraction corrector document)

def applySelection (corrector : Corrector σ) (document? : Option Document)
    (selection? : Option Range) (options : Option CorrectionOptions) : Action σ Applied :=
  fun workspace =>
    match document?, selection?.filter fun selection => !selection.isEmpty with
    | none, _ => (.error (noTarget "No active document to correct"), workspace)
    | some _, none => (.error (noTarget "No text selected"), workspace)
    | some document, some selection =>
        correctAndPlace corrector document (corrector.spansIn document selection) options
          (workspace.logExtractionIn corrector document selection)

/-- Corrects a whole document without changing it, and lists the corrections that differ. -/
def preview (corrector : Corrector σ) (document? : Option Document)
    (options : Option CorrectionOptions) : Action σ Run := fun workspace =>
  match document? with
  | none => (.error (noTarget "No active document to preview"), workspace)
  | some document =>
      match correctSpans corrector (corrector.spans document) options
          (workspace.logExtraction corrector document) with
      | (.error failure, workspace) => (.error failure, workspace)
      | (.ok run, workspace) => (.ok { run with corrections := run.changed }, workspace)

/-- The entry that undoes the latest application, if it belongs to a document. -/
def latestUndo (workspace : Workspace σ) (identity : Text) : Except Failure UndoEntry :=
  match workspace.undoStack with
  | [] => .error (.reported .undoMismatch "Nothing to undo")
  | entry :: _ =>
      if entry.identity = identity then .ok entry
      else .error (.reported .undoMismatch ("Nothing to undo for ".toText ++ identity))

/-- Undoes the latest application, if it belongs to the document and the document takes the
edits. The result is the document changed, or nothing. -/
def undo (document? : Option Document) : Action σ (Option Document) := fun workspace =>
  match document? with
  | none => (.error (noTarget "No active document to undo"), workspace)
  | some document =>
      match workspace.latestUndo document.identity with
      | .error failure => (.ok none, workspace.log .info failure.message)
      | .ok entry =>
          match document.replaceRanges? entry.edits with
          | none =>
              (.ok none,
                workspace.log .warning
                  ("Undo rejected by ".toText ++ document.identity ++
                    "; the document changed since".toText))
          | some reverted =>
              (.ok (some reverted),
                { workspace with undoStack := workspace.undoStack.drop 1 }.log .info
                  ("Reverted ".toText ++ Text.ofNat entry.corrections.length ++
                    " corrections in ".toText ++ document.identity))

def analyze (corrector : Corrector σ) (document? : Option Document) :
    Action σ SpanSummary := fun workspace =>
  match document? with
  | none => (.error (noTarget "No active document to analyze"), workspace)
  | some document =>
      (.ok (.ofSpans (corrector.spans document)), workspace.logExtraction corrector document)

end Workspace

namespace Corrector

variable {σ : Type}

/-- A corrector with chunks of at least one span. A negative limit for undoing is refused. -/
def make (client : Client σ) (settings : Option Settings) (chunkSize : Int)
    (chunkPause : Binary64) (undoLimit : Int) : Except Fault (Corrector σ) :=
  if undoLimit < 0 then .error .negativeLimit
  else
    .ok
      { client, settings, chunkPause
        chunkSize := (max 1 chunkSize).toNat
        undoLimit := undoLimit.toNat }

end Corrector

def Endpoint.client {σ : Type} (endpoint : Endpoint) (service : Service σ) : Client σ where
  service
  model := endpoint.model
  maxTokens := endpoint.maxTokens

/-- The corrector for the settings of a project, with a service of one's own or the one behind
the endpoint, which needs a key. -/
def Settings.corrector {σ : Type} (settings : Settings) (environment : Environment)
    (network : Network σ) (service? : Option (Service σ)) : Except Failure (Corrector σ) :=
  let endpoint := Endpoint.ofSettings environment settings.service.endpoint
  match service?, endpoint.apiKey with
  | some service, _ => .ok { client := endpoint.client service, settings := some settings }
  | none, some _ =>
      .ok { client := endpoint.client (endpoint.service network), settings := some settings }
  | none, none => .error Endpoint.missingKey

/-- The workspace of a corrector for the settings of a project. A cache that holds nothing is
replaced by one under the usual limits. -/
def Settings.workspace {σ : Type} (settings : Settings) (session : Session σ) (now : Int) :
    Workspace σ where
  session
  now
  cache := Cache.orDefault { limits := settings.cache.limits }

end CodeProse
