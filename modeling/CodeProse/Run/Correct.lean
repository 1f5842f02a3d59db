import CodeProse.Run.Chunk
import CodeProse.Service.Detailed

/-!
# Correcting spans

A run goes chunk by chunk. Cancelling it is noticed before and after each chunk; the results
of a chunk during which it happened are dropped. A single span can also be corrected in detail,
with the plain correction where that fails.
-/

set_option autoImplicit false

namespace CodeProse

namespace RunStats

def count (stats : RunStats) (corrected : Corrected) : RunStats :=
  match corrected.origin with
  | .failure => { stats with failed := stats.failed + 1 }
  | origin =>
      { stats with
        cached := if origin = .cache then stats.cached + 1 else stats.cached
        corrected :=
          if corrected.correction.changed then stats.corrected + 1 else stats.corrected }

def message (stats : RunStats) (state : RunState) : Text :=
  "Run ".toText ++ state.name ++ ": ".toText ++ Text.ofNat stats.totalTexts ++
    " texts, ".toText ++ Text.ofNat stats.corrected ++ " corrected, ".toText ++
    Text.ofNat stats.cached ++ " cached, ".toText ++ Text.ofNat stats.failed ++ " failed".toText

end RunStats

namespace Workspace

variable {σ : Type}

/-- Corrects chunk after chunk, behind the spans that are done. The flag of the result tells
whether the work was cancelled. -/
def correctChunks (corrector : Corrector σ) (options : CorrectionOptions) :
    List Corrected → List (List Span) → Action σ (List Corrected × Bool)
  | done, [], workspace => (.ok (done, false), workspace)
  | done, chunk :: rest, workspace =>
      if workspace.session.isCancelled then (.ok (done, true), workspace)
      else
        match correctChunk corrector options chunk workspace with
        | (.error failure, workspace) => (.error failure, workspace)
        | (.ok corrected, workspace) =>
            if workspace.session.isCancelled then
              (.ok (done, true),
                workspace.log .info
                  ("Correction run cancelled after ".toText ++ Text.ofNat done.length ++
                    " spans".toText))
            else
              let workspace :=
                if 1 < corrector.chunkSize && !rest.isEmpty then
                  { workspace with session := workspace.session.pause corrector.chunkPause }
                else workspace
              correctChunks corrector options (done ++ corrected) rest workspace

def finishRun (total : Nat) (corrected : List Corrected) (cancelled : Bool)
    (workspace : Workspace σ) : Run × Workspace σ :=
  let state := if cancelled then RunState.cancelled else .completed
  let stats := corrected.foldl RunStats.count { totalTexts := total }
  (⟨corrected.map Corrected.correction, stats, state⟩,
    { workspace with state }.log .debug (stats.message state))

/-- Corrects spans, under the given options or the usual ones. A run that fails is left in the
running state. -/
def correctSpans (corrector : Corrector σ) (spans : List Span)
    (options : Option CorrectionOptions) : Action σ Run := fun workspace =>
  let options := options.getD corrector.correctionOptions
  let started := { workspace with state := .running }
  match correctChunks corrector options [] (chunks corrector.chunkSize spans) started with
  | (.error failure, workspace) => (.error failure, workspace)
  | (.ok (corrected, cancelled), workspace) =>
      let (run, workspace) := finishRun spans.length corrected cancelled workspace
      (.ok run, workspace)

def detailedCorrection (span : Span) (detailed : DetailedCorrection) : Correction where
  text := unwrap detailed.text span.text
  draft := span.text
  range := span.range
  confidence := detailed.confidence
  changes := detailed.changes

/-- Corrects one span in detail, or plainly where that fails for another reason than the
configuration. No signal can cancel it. -/
def correctDetailed (corrector : Corrector σ) (span : Span)
    (options : Option CorrectionOptions) : Action σ Correction := fun workspace =>
  let call := span.call (options.getD corrector.correctionOptions)
  let (detailed, session) :=
    corrector.client.correctDetailed call { workspace.session with signal := none }
  let workspace := { workspace with session }
  match detailed with
  | .ok detailed => (.ok (detailedCorrection span detailed), workspace)
  | .error failure =>
      if failure.isConfiguration then (.error failure, workspace)
      else
        let workspace :=
          workspace.log .warning
            ("Detailed correction failed, using plain correction: ".toText ++ failure.message)
        match correctSpans corrector [span] options workspace with
        | (.error failure, workspace) => (.error failure, workspace)
        | (.ok run, workspace) =>
            match run.corrections with
            | correction :: _ => (.ok correction, workspace)
            | [] => (.error (.fault .missingItem), workspace)

end Workspace

end CodeProse
