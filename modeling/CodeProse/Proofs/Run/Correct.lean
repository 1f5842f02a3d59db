import CodeProse.Proofs.Run.Continuation
import CodeProse.Proofs.Service.Detailed
import CodeProse.Run.Correct

/-!
# Laws of correcting spans

A run goes through its chunks until none is left, one fails, or it is found cancelled before or behind
one. What every chunk keeps and promises holds of the whole run: a run that is completed has one
correction for each span, in order, and any other run was cancelled or failed in a chunk.
-/

set_option autoImplicit false

namespace CodeProse

variable {σ : Type}

namespace Workspace

section Rounds

/-- How the session goes on behind a chunk: chunks of several spans have a pause between them. -/
inductive Resumes (corrector : Corrector σ) (rest : List (List Span)) (behind : Session σ) :
    Session σ → Prop where
  | straight (none : corrector.chunkSize ≤ 1 ∨ rest = []) : Resumes corrector rest behind behind
  | pause (several : 1 < corrector.chunkSize) (unfinished : rest ≠ []) :
      Resumes corrector rest behind (behind.pause corrector.chunkPause)

/-- How a run goes through chunks, behind the spans that are done, and what it comes to. -/
inductive GoesThrough (corrector : Corrector σ) (options : CorrectionOptions) :
    List Corrected → List (List Span) → Workspace σ →
      Except Failure (List Corrected × Bool) × Workspace σ → Prop where
  | finished {done : List Corrected} {start : Workspace σ} :
      GoesThrough corrector options done [] start (.ok (done, false), start)
  | before {done : List Corrected} {chunk : List Span} {rest : List (List Span)}
      {start : Workspace σ} (cancelled : start.session.isCancelled = true) :
      GoesThrough corrector options done (chunk :: rest) start (.ok (done, true), start)
  | failed {done : List Corrected} {chunk : List Span} {rest : List (List Span)}
      {start behind : Workspace σ} {failure : Failure}
      (before : start.session.isCancelled = false)
      (given : correctChunk corrector options chunk start = (.error failure, behind)) :
      GoesThrough corrector options done (chunk :: rest) start (.error failure, behind)
  | behind {done corrected : List Corrected} {chunk : List Span} {rest : List (List Span)}
      {start behind : Workspace σ} (before : start.session.isCancelled = false)
      (given : correctChunk corrector options chunk start = (.ok corrected, behind))
      (cancelled : behind.session.isCancelled = true) (records : List LogRecord) :
      GoesThrough corrector options done (chunk :: rest) start
        (.ok (done, true), { behind with session := { behind.session with records } })
  | passed {done corrected : List Corrected} {chunk : List Span} {rest : List (List Span)}
      {start behind : Workspace σ} {session : Session σ}
      {result : Except Failure (List Corrected × Bool) × Workspace σ}
      (before : start.session.isCancelled = false)
      (given : correctChunk corrector options chunk start = (.ok corrected, behind))
      (after : behind.session.isCancelled = false)
      (resumes : Resumes corrector rest behind.session session)
      (further : GoesThrough corrector options (done ++ corrected) rest { behind with session }
        result) :
      GoesThrough corrector options done (chunk :: rest) start result

theorem Resumes.inFlight {corrector : Corrector σ} {rest : List (List Span)}
    {behind session : Session σ} (resumes : Resumes corrector rest behind session) :
    session.inFlight = behind.inFlight := by
  cases resumes with
  | straight none => rfl
  | pause several unfinished =>
      rw [Session.pause]
      split
      · rfl
      · rfl

theorem exists_resumes (corrector : Corrector σ) (rest : List (List Span)) (behind : Workspace σ) :
    ∃ session, Resumes corrector rest behind.session session ∧
      (if 1 < corrector.chunkSize && !rest.isEmpty then
        { behind with session := behind.session.pause corrector.chunkPause }
      else behind) = { behind with session } := by
  cases rest with
  | nil => exact ⟨behind.session, .straight (.inr rfl), by simp⟩
  | cons next rest =>
      by_cases several : 1 < corrector.chunkSize
      · exact ⟨_, .pause several (List.cons_ne_nil next rest), by simp [several]⟩
      · exact ⟨behind.session, .straight (.inl (Nat.not_lt.mp several)), by simp [several]⟩

theorem correctChunks_goesThrough (corrector : Corrector σ) (options : CorrectionOptions)
    (done : List Corrected) (chunks : List (List Span)) (start : Workspace σ) :
    GoesThrough corrector options done chunks start
      (correctChunks corrector options done chunks start) := by
  induction chunks generalizing done start with
  | nil => exact .finished
  | cons chunk rest ih =>
      rw [correctChunks]
      cases before : start.session.isCancelled with
      | true => exact .before before
      | false =>
          generalize given : correctChunk corrector options chunk start = outcome
          rcases outcome with ⟨failure | corrected, behind⟩
          · exact .failed before given
          · cases after : behind.session.isCancelled with
            | true =>
                simp only [Bool.false_eq_true, if_false, after, if_true]
                exact .behind before given after _
            | false =>
                simp only [Bool.false_eq_true, if_false, after]
                obtain ⟨session, resumes, same⟩ := exists_resumes corrector rest behind
                rw [same]
                exact .passed before given after resumes (ih _ _)

end Rounds

/-- A property of workspaces that depends neither on the state of the run nor on more of the session
than what is in flight. -/
def IsSteady (holds : Workspace σ → Prop) : Prop :=
  ∀ workspace session state, session.inFlight = workspace.session.inFlight → holds workspace →
    holds { workspace with session, state }

/-- What becomes of a chunk, given what holds before and behind it. -/
def ChunkGives (corrector : Corrector σ) (options : CorrectionOptions)
    (holds : List (List Span) → Workspace σ → Prop) (promised : Span → Corrected → Prop)
    (complete : Prop) (fails : Failure → Workspace σ → Prop) : Prop :=
  ∀ chunk rest workspace, holds (chunk :: rest) workspace →
    match correctChunk corrector options chunk workspace with
    | (.ok corrected, after) => holds rest after ∧ PartlyAligned promised complete chunk corrected
    | (.error failure, after) => fails failure after

variable {corrector : Corrector σ} {options : CorrectionOptions}
  {holds : List (List Span) → Workspace σ → Prop} {promised : Span → Corrected → Prop}
  {complete : Prop} {fails : Failure → Workspace σ → Prop}

/-- Results for the spans of some chunks, in order, behind those that are done. -/
def Continues (promised : Span → Corrected → Prop) (complete : Prop) (done : List Corrected)
    (chunks : List (List Span)) (all : List Corrected) : Prop :=
  ∃ corrected, all = done ++ corrected ∧
    PartlyAligned promised complete chunks.flatten corrected

theorem Continues.nothing {done : List Corrected} : Continues promised complete done [] done :=
  ⟨[], (List.append_nil done).symm, .nil⟩

theorem Continues.chunk {done corrected all : List Corrected} {chunk : List Span}
    {rest : List (List Span)} (aligned : PartlyAligned promised complete chunk corrected)
    (later : Continues promised complete (done ++ corrected) rest all) :
    Continues promised complete done (chunk :: rest) all := by
  obtain ⟨further, rfl, furtherAligned⟩ := later
  refine ⟨corrected ++ further, List.append_assoc _ _ _, ?_⟩
  rw [List.flatten_cons]
  exact aligned.append furtherAligned

theorem correctChunks_spec (steady : ∀ rest, IsSteady (holds rest))
    (gives : ChunkGives corrector options holds promised complete fails) (done : List Corrected)
    (chunks : List (List Span)) (workspace : Workspace σ) (start : holds chunks workspace) :
    match correctChunks corrector options done chunks workspace with
    | (.ok (all, false), after) => holds [] after ∧ Continues promised complete done chunks all
    | (.ok (all, true), after) => after.session.isCancelled = true ∧
        (∃ rest, holds rest after) ∧
        ∃ passed, passed <+: chunks ∧ Continues promised complete done passed all
    | (.error failure, after) => fails failure after := by
  have through := correctChunks_goesThrough corrector options done chunks workspace
  generalize correctChunks corrector options done chunks workspace = result at through ⊢
  induction through with
  | finished => exact ⟨start, .nothing⟩
  | before cancelled => exact ⟨cancelled, ⟨_, start⟩, [], List.nil_prefix, .nothing⟩
  | failed before given =>
      have kept := gives _ _ _ start
      rw [given] at kept
      exact kept
  | behind before given cancelled records =>
      have kept := gives _ _ _ start
      rw [given] at kept
      exact ⟨cancelled, ⟨_, steady _ _ _ _ rfl kept.1⟩, [], List.nil_prefix, .nothing⟩
  | @passed done corrected chunk rest workspace behind session result before given after resumes
      further ih =>
      have kept := gives chunk rest workspace start
      rw [given] at kept
      obtain ⟨held, aligned⟩ := kept
      have later := ih (steady rest behind _ _ resumes.inFlight held)
      rcases result with ⟨failure | ⟨all, _ | _⟩, last⟩
      · exact later
      · exact ⟨later.1, .chunk aligned later.2⟩
      · obtain ⟨cancelled, kept, passed, front, continues⟩ := later
        exact ⟨cancelled, kept, chunk :: passed, List.cons_prefix_cons.mpr ⟨rfl, front⟩,
          .chunk aligned continues⟩

/-- What becomes of a run: it is completed with corrections for its spans, it was cancelled, or it
failed in a chunk. A run that was cancelled has corrections for the spans of its first chunks. -/
theorem correctSpans_spec (spans : List Span) {given? : Option CorrectionOptions}
    {workspace : Workspace σ} (steady : ∀ rest, IsSteady (holds rest))
    (gives : ChunkGives corrector (given?.getD corrector.correctionOptions) holds promised complete
      fails)
    (start : holds (chunks corrector.chunkSize spans) workspace) :
    match correctSpans corrector spans given? workspace with
    | (.ok run, after) =>
        (run.state = .completed ∧ holds [] after ∧ ∃ corrected : List Corrected,
          run.corrections = corrected.map Corrected.correction ∧
            PartlyAligned promised complete (chunks corrector.chunkSize spans).flatten corrected) ∨
        (run.state = .cancelled ∧ after.session.isCancelled = true ∧ (∃ rest, holds rest after) ∧
          ∃ passed corrected, passed <+: chunks corrector.chunkSize spans ∧
            run.corrections = corrected.map Corrected.correction ∧
            PartlyAligned promised complete passed.flatten corrected)
    | (.error failure, after) => fails failure after := by
  have result := correctChunks_spec steady gives [] (chunks corrector.chunkSize spans)
    { workspace with state := .running } (steady _ workspace _ _ rfl start)
  simp only [correctSpans]
  generalize correctChunks corrector _ [] _ { workspace with state := .running } = outcome
    at result ⊢
  rcases outcome with ⟨failure | ⟨all, _ | _⟩, after⟩
  · exact result
  · obtain ⟨held, corrected, same, aligned⟩ := result
    exact .inl ⟨rfl, steady [] after _ _ rfl held, corrected, congrArg (List.map _) same, aligned⟩
  · obtain ⟨cancelled, ⟨rest, held⟩, passed, front, corrected, same, aligned⟩ := result
    exact .inr ⟨rfl, cancelled, ⟨rest, steady rest after _ _ rfl held⟩, passed, corrected, front,
      congrArg (List.map _) same, aligned⟩

/-- How a span is corrected in detail: by a structured reply, or else plainly, unless the
configuration is at fault. -/
inductive CorrectsInDetail (corrector : Corrector σ) (span : Span)
    (given? : Option CorrectionOptions) (workspace : Workspace σ) :
    Except Failure Correction × Workspace σ → Prop where
  | structured {detailed : DetailedCorrection} {session : Session σ}
      (given : corrector.client.correctDetailed
        (span.call (given?.getD corrector.correctionOptions))
          { workspace.session with signal := none } = (.ok detailed, session))
      (quiet : session.inFlight = workspace.session.inFlight) :
      CorrectsInDetail corrector span given? workspace
        (.ok (detailedCorrection span detailed), { workspace with session })
  | refused {failure : Failure} (session : Session σ)
      (configuration : failure.isConfiguration = true)
      (quiet : session.inFlight = workspace.session.inFlight) :
      CorrectsInDetail corrector span given? workspace (.error failure, { workspace with session })
  | plain {session : Session σ} {run : Run} {correction : Correction} {more : List Correction}
      {after : Workspace σ}
      (given : correctSpans corrector [span] given? { workspace with session } = (.ok run, after))
      (quiet : session.inFlight = workspace.session.inFlight)
      (first : run.corrections = correction :: more) :
      CorrectsInDetail corrector span given? workspace (.ok correction, after)
  | nothing {session : Session σ} {run : Run} {after : Workspace σ}
      (given : correctSpans corrector [span] given? { workspace with session } = (.ok run, after))
      (quiet : session.inFlight = workspace.session.inFlight)
      (none : run.corrections = []) :
      CorrectsInDetail corrector span given? workspace (.error (.fault .missingItem), after)
  | failed {session : Session σ} {failure : Failure} {after : Workspace σ}
      (given : correctSpans corrector [span] given? { workspace with session } =
        (.error failure, after))
      (quiet : session.inFlight = workspace.session.inFlight) :
      CorrectsInDetail corrector span given? workspace (.error failure, after)

theorem correctDetailed_correctsInDetail (corrector : Corrector σ) (span : Span)
    (given? : Option CorrectionOptions) (workspace : Workspace σ) :
    CorrectsInDetail corrector span given? workspace
      (correctDetailed corrector span given? workspace) := by
  simp only [correctDetailed]
  have quiet := corrector.client.inFlight_correctDetailed
    (span.call (given?.getD corrector.correctionOptions)) { workspace.session with signal := none }
  generalize replied : corrector.client.correctDetailed
    (span.call (given?.getD corrector.correctionOptions))
    { workspace.session with signal := none } = outcome at quiet
  rcases outcome with ⟨failure | detailed, session⟩
  · cases configuration : failure.isConfiguration with
    | true =>
        simp only [configuration, if_true]
        exact .refused session configuration quiet
    | false =>
        simp only [configuration, Bool.false_eq_true, if_false]
        generalize corrects : correctSpans corrector [span] given? _ = plain
        rcases plain with ⟨second | run, after⟩
        · exact .failed corrects quiet
        · cases first : run.corrections with
          | nil =>
              simp only [first]
              exact .nothing corrects quiet first
          | cons correction more =>
              simp only [first]
              exact .plain corrects quiet first
  · exact .structured replied quiet

end Workspace

end CodeProse
