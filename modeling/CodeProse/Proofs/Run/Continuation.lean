import CodeProse.Proofs.Run.Chunk

/-!
# How the session goes on in a chunk

A chunk leaves the session to the calls that find nothing in the cache. Looking up and taking up
what they lead to only adds records to the log.
-/

set_option autoImplicit false

namespace CodeProse

variable {σ : Type}

namespace Workspace

open Session (Continues)

/-- The calls of a chunk that find nothing in the cache. -/
def missingCalls (options : CorrectionOptions) (chunk : List Span) (workspace : Workspace σ) :
    List Call :=
  ((workspace.lookUp options chunk).1.filter fun lookup => lookup.isMissing).map Lookup.call

theorem lookUp_session (options : CorrectionOptions) (chunk : List Span)
    (workspace : Workspace σ) :
    (workspace.lookUp options chunk).2.session = workspace.session := by
  obtain ⟨cache, readings, same⟩ := lookUp_frame options chunk workspace
  rw [same]

theorem missingCalls_subset (options : CorrectionOptions) (chunk : List Span)
    (workspace : Workspace σ) :
    workspace.missingCalls options chunk ⊆ chunk.map (Span.call options) := by
  intro call member
  obtain ⟨lookup, missing, rfl⟩ := List.mem_map.mp member
  have listed := List.mem_of_mem_filter missing
  obtain ⟨span, known, -, same⟩ :=
    exists_aligned_of_mem_right (lookUp_aligned options chunk workspace) listed
  exact same ▸ List.mem_map_of_mem known

theorem takeUp_session (lookup : Lookup) (outcome : Except Failure Text)
    (workspace : Workspace σ) :
    ∃ records, (workspace.takeUp lookup outcome).2.session =
      { workspace.session with records } := by
  obtain ⟨records, cache, readings, same⟩ := takeUp_frame lookup outcome workspace
  exact ⟨records, congrArg Workspace.session same⟩

theorem takeUpAll_session (outcome : Except Failure Text) (entries : List (Nat × Lookup))
    (workspace : Workspace σ) :
    ∃ records, (workspace.takeUpAll outcome entries).2.session =
      { workspace.session with records } := by
  induction entries generalizing workspace with
  | nil => exact ⟨_, rfl⟩
  | cons entry rest ih =>
      obtain ⟨first, taken⟩ := workspace.takeUp_session entry.2 outcome
      obtain ⟨records, later⟩ := ih (workspace.takeUp entry.2 outcome).2
      rw [taken] at later
      exact ⟨records, later⟩

theorem takeUpSettled_session (waiting : List (Nat × Lookup)) (settled : List Settled)
    (workspace : Workspace σ) :
    ∃ records, (workspace.takeUpSettled waiting settled).2.session =
      { workspace.session with records } := by
  induction settled generalizing workspace with
  | nil => exact ⟨_, rfl⟩
  | cons outcome rest ih =>
      obtain ⟨first, taken⟩ := workspace.takeUpAll_session outcome.outcome
        (waiting.filter fun entry => entry.2.call.key = outcome.key)
      obtain ⟨records, later⟩ := ih (workspace.takeUpAll outcome.outcome
        (waiting.filter fun entry => entry.2.call.key = outcome.key)).2
      rw [taken] at later
      exact ⟨records, later⟩

theorem map_waiting (lookups : List Lookup) :
    ((((List.range lookups.length).zip lookups).filter fun entry => entry.2.isMissing).map
      fun entry => entry.2.call) =
      (lookups.filter fun lookup => lookup.isMissing).map Lookup.call := by
  have numbered : ((List.range lookups.length).zip lookups).map Prod.snd = lookups :=
    List.map_snd_zip (by simp)
  conv_rhs => rw [← numbered, List.filter_map, List.map_map]
  rfl

/-- Behind a chunk the session is the one in which its missing calls have settled, with some more
records. -/
theorem correctChunk_session (corrector : Corrector σ) (options : CorrectionOptions)
    (chunk : List Span) (workspace : Workspace σ) :
    ∃ records, (correctChunk corrector options chunk workspace).2.session =
      { (corrector.client.settle (workspace.missingCalls options chunk) workspace.session).2 with
        records } := by
  have looked := lookUp_session options chunk workspace
  rw [missingCalls]
  simp only [correctChunk]
  generalize workspace.lookUp options chunk = looking at looked
  obtain ⟨lookups, found⟩ := looking
  dsimp only at looked ⊢
  rw [map_waiting, looked]
  generalize ((List.range lookups.length).zip lookups).filter
    (fun entry => entry.2.isMissing) = waiting
  generalize corrector.client.settle ((lookups.filter fun lookup => lookup.isMissing).map
    Lookup.call) workspace.session = outcome
  obtain ⟨settled, session⟩ := outcome
  obtain ⟨records, taken⟩ := takeUpSettled_session waiting settled { found with session }
  dsimp only
  refine ⟨records, ?_⟩
  split
  · exact taken
  · exact taken

theorem correctChunk_continues (corrector : Corrector σ) (options : CorrectionOptions)
    (chunk : List Span) (workspace : Workspace σ) :
    Continues (corrector.client.requests (chunk.map (Span.call options))) workspace.session
      (correctChunk corrector options chunk workspace).2.session := by
  obtain ⟨records, same⟩ := correctChunk_session corrector options chunk workspace
  have settles := corrector.client.settle_continues (workspace.missingCalls options chunk)
    workspace.session
  have known : corrector.client.requests (workspace.missingCalls options chunk) ⊆
      corrector.client.requests (chunk.map (Span.call options)) :=
    List.map_subset _ (missingCalls_subset options chunk workspace)
  have logged : ∀ behind : Session σ, Continues [] behind { behind with records } :=
    fun behind => .of_frame rfl rfl
  rw [same]
  exact (settles.mono known).trans ((logged _).mono (List.nil_subset _))

/-- Behind a chunk the same keys are in flight as before. -/
theorem correctChunk_inFlight (corrector : Corrector σ) (options : CorrectionOptions)
    (chunk : List Span) (workspace : Workspace σ) :
    (correctChunk corrector options chunk workspace).2.session.inFlight =
      workspace.session.inFlight := by
  obtain ⟨records, same⟩ := correctChunk_session corrector options chunk workspace
  rw [same]
  exact corrector.client.settle_inFlight _ workspace.session

end Workspace

end CodeProse
