import CodeProse.Correction.Plan
import CodeProse.Prose.Extraction
import CodeProse.Service.Client
import CodeProse.Settings.Basic

/-!
# Runs

A run takes spans to the service and gives back a correction for each of them. A workspace is
what runs share and leave behind: the session with the service, the cache, what has been
applied to which document, and what can be undone.
-/

set_option autoImplicit false

namespace CodeProse

inductive RunState where
  | pending
  | running
  | completed
  | cancelled
deriving DecidableEq

def RunState.name : RunState → Text
  | pending => "pending"
  | running => "running"
  | completed => "completed"
  | cancelled => "cancelled"

inductive Origin where
  | service
  | cache
  | failure
deriving DecidableEq

/-- How many texts a run was given, and what became of those it finished. -/
structure RunStats where
  totalTexts : Nat := 0
  corrected : Nat := 0
  cached : Nat := 0
  failed : Nat := 0
deriving DecidableEq

/-- The corrections of a run, in the order of its spans. -/
structure Run where
  corrections : List Correction := []
  stats : RunStats := {}
  state : RunState
deriving DecidableEq

/-- The corrections that differ from the text they were made for. -/
def Run.changed (run : Run) : List Correction :=
  run.corrections.filter Correction.changed

/-- The corrections that were put into a document, whether the document took them, and the run
that they come from. -/
structure Application where
  applied : List Correction
  succeeded : Bool
  run : Option Run := none
deriving DecidableEq

/-- What undoes one application: the document, and the edits that lead back. -/
structure UndoEntry where
  identity : Text
  corrections : List Correction
  edits : List Edit
deriving DecidableEq

structure HistoryEntry where
  identity : Text
  corrections : List Correction
deriving DecidableEq

structure Corrector (σ : Type) where
  client : Client σ
  settings : Option Settings := none
  registry : Registry := .builtin
  chunkSize : Nat := 1
  chunkPause : Binary64 := Binary64.ofFraction 5 1
  undoLimit : Nat := 10

/-- What runs share and leave behind. The clock may move, back as well as forth, whenever it is
read: `drift` tells how far it is from `now` at each of its readings. The latest entry of the undo
stack comes first, the history is in the order of the applications. -/
structure Workspace (σ : Type) where
  session : Session σ
  now : Int := 0
  drift : Nat → Int := fun _ => 0
  readings : Nat := 0
  cache : Cache := {}
  state : RunState := .pending
  undoStack : List UndoEntry := []
  history : List HistoryEntry := []

/-- A computation that may fail and leaves a workspace behind in either case. -/
abbrev Workspace.Action (σ α : Type) := Workspace σ → Except Failure α × Workspace σ

namespace Workspace

variable {σ : Type}

/-- What the clock shows when it is read again, behind so many readings from here. -/
def time (workspace : Workspace σ) (ahead : Nat) : Int :=
  workspace.now + workspace.drift (workspace.readings + ahead)

def log (workspace : Workspace σ) (severity : Severity) (message : Text) : Workspace σ :=
  { workspace with session := workspace.session.log "orchestrator" severity message }

def logAll (workspace : Workspace σ) (records : List LogRecord) : Workspace σ :=
  { workspace with
    session := { workspace.session with records := workspace.session.records ++ records } }

/-- The workspace at the start of a new piece of work, with a session of its own. -/
def renew (workspace : Workspace σ) (signal : Option CancelSignal) : Workspace σ :=
  { workspace with session := { service := workspace.session.service, signal } }

/-- The applications to one document, or to all. -/
def historyOf (workspace : Workspace σ) : Option Text → List HistoryEntry
  | some identity => workspace.history.filter fun entry => entry.identity = identity
  | none => workspace.history

end Workspace

namespace Corrector

variable {σ : Type}

def extractionOptions (corrector : Corrector σ) : ExtractionOptions :=
  match corrector.settings with
  | some settings => settings.extractionOptions none
  | none => {}

/-- The options of a correction where none are given. -/
def correctionOptions (corrector : Corrector σ) : CorrectionOptions :=
  match corrector.settings with
  | some settings => settings.correctionOptions none
  | none => {}

def spans (corrector : Corrector σ) (document : Document) : List Span :=
  document.spans corrector.registry corrector.extractionOptions

def spansIn (corrector : Corrector σ) (document : Document) (selection : Range) : List Span :=
  (document.spansIn corrector.registry corrector.extractionOptions selection).filter
    fun span => span.range.intersects selection

end Corrector

namespace Workspace

variable {σ : Type}

def logExtraction (corrector : Corrector σ) (document : Document) (workspace : Workspace σ) :
    Workspace σ :=
  workspace.logAll (document.records corrector.registry corrector.extractionOptions)

def logExtractionIn (corrector : Corrector σ) (document : Document) (selection : Range)
    (workspace : Workspace σ) : Workspace σ :=
  workspace.logAll (document.recordsIn corrector.registry corrector.extractionOptions selection)

end Workspace

end CodeProse
