import CodeProse.CommandLine.Invocation
import CodeProse.CommandLine.Report
import CodeProse.Settings.Load

/-!
# Execution

What the program does at a command line: it finds the file and its settings, does what the
command says, and ends with a code, the lines printed, the messages, and the files as they are
then. Failures of the library's own kinds end it with a message; others escape.
-/

set_option autoImplicit false

namespace CodeProse

/-- What the program works with: the files, the variables that are set, the network with its
state, and a service of one's own in the place of the one behind the network. -/
structure Surroundings (σ : Type) where
  tree : FileTree
  environment : Environment := []
  network : Network σ
  service : Option (Service σ) := none
  state : σ
  now : Int := 0

/-- How the program ends: with a code, or by a failure that nothing catches. -/
inductive Ending where
  | exit (code : Nat)
  | escaped (failure : Failure)
deriving DecidableEq

/-- What the program leaves behind: the lines printed, the messages, the files, and the host
and port at which the web service is to be started. -/
structure Outcome where
  ending : Ending := .exit 0
  output : List Text := []
  messages : Text := []
  tree : FileTree
  served : Option (Option Text × Option Int) := none
deriving DecidableEq

structure CheckResult where
  lines : List Text := []
  records : List LogRecord := []
  tree : FileTree
  failure : Option Failure := none

def endedLines (lines : List Text) : Text :=
  lines.flatMap fun line => line ++ "\n".toText

def settingsEnding : Failure → Ending × Text
  | .reported .configuration message =>
      (.exit 1, "Invalid configuration: ".toText ++ message ++ "\n".toText)
  | failure => (.escaped failure, [])

def checkEnding : Failure → Ending × Text
  | .reported _ message =>
      (.exit 1,
        "textlint-ai check failed: ".toText ++ message ++
          "\nRun with --verbose for more details.\n".toText)
  | failure => (.escaped failure, [])

section

variable {σ : Type}

def applyRun (corrector : Corrector σ) (tree : FileTree) (stored : StoredDocument) (run : Run)
    (workspace : Workspace σ) : CheckResult :=
  match workspace.applySubset corrector (some stored.document) run.corrections with
  | (.error failure, workspace) =>
      { records := workspace.session.records, tree, failure := some failure }
  | (.ok (application, document), workspace) =>
      let records := workspace.session.records
      if application.succeeded then
        let (result, saved, tree) := { stored with document }.save tree
        let records := records ++ saved.saveRecords result
        match result with
        | .unencodable => { records, tree, failure := some (.fault .unencodable) }
        | _ =>
            { records, tree
              lines :=
                ["Applied ".toText ++ Text.ofNat application.applied.length ++
                  " corrections to ".toText ++ tree.shownPath stored.path] }
      else
        { records, tree
          failure :=
            some (.reported .general (stored.path.toText ++ " rejected the corrections".toText)) }

/-- Proposes the corrections of a file, and puts them into it if that is asked for. -/
def checkDocument (corrector : Corrector σ) (tree : FileTree) (stored : StoredDocument)
    (apply : Bool) (workspace : Workspace σ) : CheckResult :=
  match workspace.preview corrector (some stored.document) none with
  | (.error failure, workspace) =>
      { records := workspace.session.records, tree, failure := some failure }
  | (.ok run, workspace) =>
      let lines := runLines (tree.shownPath stored.path) run
      if apply && !run.corrections.isEmpty then
        let result := applyRun corrector tree stored run workspace
        { result with lines := lines ++ result.lines }
      else { lines, records := workspace.session.records, tree }

namespace Surroundings

def check (surroundings : Surroundings σ) (settings : Settings) (stored : StoredDocument)
    (apply : Bool) : CheckResult :=
  match settings.corrector surroundings.environment surroundings.network surroundings.service with
  | .error failure => { tree := surroundings.tree, failure := some failure }
  | .ok corrector =>
      checkDocument corrector surroundings.tree stored (apply || settings.autoCorrect)
        (settings.workspace { service := surroundings.state } surroundings.now)

def checkOutcome (verbose : Bool) (result : CheckResult) : Outcome :=
  let log := endedLines (LogSettings.console { verbose } result.records)
  let (ending, message) := (result.failure.map checkEnding).getD (.exit 0, [])
  { ending, output := result.lines, messages := log ++ message, tree := result.tree }

/-- Does a task with a file that has been read. -/
def work (surroundings : Surroundings σ) (settings : Settings) (stored : StoredDocument)
    (task : Task) (verbose : Bool) : Outcome :=
  let tree := surroundings.tree
  let registry := Registry.builtin
  let options := settings.extractionOptions none
  let spans := stored.document.spans registry options
  let log :=
    endedLines
      (LogSettings.console { verbose } (stored.document.records registry options))
  match task with
  | .scan => { output := spanLines (tree.shownPath stored.path) spans, messages := log, tree }
  | .analyze => { output := summaryLines registry stored.document spans, messages := log, tree }
  | .check apply => checkOutcome verbose (surroundings.check settings stored apply)

/-- The file of a target and the path of its settings; only a path that leads to a file is
worked on. -/
def locate (surroundings : Surroundings σ) (target : Target) :
    Except FileFault (Path × Option Path) := do
  let path ← surroundings.tree.expand (.ofText target.path)
  let config := ((present? target.config).map Path.ofText).getD path.parent
  return (path, if ← surroundings.tree.isFile path then some config else none)

def workOn (surroundings : Surroundings σ) (target : Target) (task : Task) (verbose : Bool) :
    Outcome :=
  let tree := surroundings.tree
  match surroundings.locate target with
  | .error fault => { ending := .escaped (.ofFile fault), tree }
  | .ok (path, none) =>
      { ending := .exit 1, messages := path.toText ++ " is not a file\n".toText, tree }
  | .ok (path, some config) =>
      match Settings.load tree config with
      | .error failure =>
          let (ending, messages) := settingsEnding failure
          { ending, messages, tree }
      | .ok settings =>
          match StoredDocument.load tree .utf8 target.language path with
          | .error fault => { ending := .escaped (.fault fault.toFault), tree }
          | .ok stored => surroundings.work settings stored task verbose

def execute (surroundings : Surroundings σ) (arguments : List Text) : Outcome :=
  let tree := surroundings.tree
  match Invocation.ofArguments arguments with
  | .error .help => { tree }
  | .error (.misuse program message) =>
      { ending := .exit 2, messages := program ++ ": error: ".toText ++ message ++ "\n".toText, tree }
  | .ok ⟨.work task target, verbose⟩ => surroundings.workOn target task verbose
  | .ok ⟨.serve host port, _⟩ => { tree, served := some (host, port) }

end Surroundings

end

end CodeProse
