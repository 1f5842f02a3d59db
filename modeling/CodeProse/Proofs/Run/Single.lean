import CodeProse.Proofs.Run.Continuation
import CodeProse.Proofs.Run.Expectation
import CodeProse.Proofs.Service.Exchanges

/-!
# Runs over a single span

The cache answers for a span, or the service is asked about it and nothing else. A run over one span
that nothing can cancel comes to the one result of its chunk.
-/

set_option autoImplicit false

namespace CodeProse

variable {σ : Type}

/-- How the plain correction of a span comes about: from the cache, or from the attempts at its
request where the cache holds nothing. What the attempts fail to correct is left as it is, without
confidence. Nothing comes of a span where the cache cannot write down its key or its correction. -/
inductive RetryPolicy.PlainCourse (policy : RetryPolicy) (span : Span) :
    Except CacheFault (Option Text) → List Reply → Except Failure Correction → Prop where
  | refused : PlainCourse policy span (.error .unencodable) [] (.error (.fault .unencodable))
  | stored {text : Text} : PlainCourse policy span (.ok (some text)) []
      (.ok (span.correctedBy text span.confidence))
  | answered {replies : List Reply} {text : Text}
      (attempts : policy.Attempts 1 replies (.ok text))
      (whole : Text.IsWhole (unwrap text span.text)) :
      PlainCourse policy span (.ok none) replies
        (.ok (span.correctedBy (unwrap text span.text) span.confidence))
  | lost {replies : List Reply} {text : Text}
      (attempts : policy.Attempts 1 replies (.ok text))
      (foreign : ¬ Text.IsWhole (unwrap text span.text)) :
      PlainCourse policy span (.ok none) replies (.error (.fault .unencodable))
  | failed {replies : List Reply} {failure : Failure}
      (attempts : policy.Attempts 1 replies (.error failure)) :
      PlainCourse policy span (.ok none) replies (.ok (span.correctedBy span.text 0))

namespace RetryPolicy.PlainCourse

variable {policy : RetryPolicy} {span : Span} {cached : Except CacheFault (Option Text)}
variable {replies : List Reply} {correction : Correction}

theorem corrects (course : policy.PlainCourse span cached replies (.ok correction)) :
    ∃ text confidence, correction = span.correctedBy text confidence := by
  cases course with
  | stored => exact ⟨_, _, rfl⟩
  | answered attempts whole => exact ⟨_, _, rfl⟩
  | failed attempts => exact ⟨_, _, rfl⟩

theorem isShare (course : policy.PlainCourse span cached replies (.ok correction))
    (share : span.confidence.IsShare) : correction.confidence.IsShare := by
  cases course with
  | stored => exact share
  | answered attempts whole => exact share
  | failed attempts => exact Binary64.isShare_zero

theorem length_le {result : Except Failure Correction}
    (course : policy.PlainCourse span cached replies result) :
    replies.length ≤ policy.attempts.toNat := by
  cases course with
  | refused => exact Nat.zero_le _
  | stored => exact Nat.zero_le _
  | answered attempts whole => exact attempts.length_le
  | lost attempts foreign => exact attempts.length_le
  | failed attempts => exact attempts.length_le

theorem error_eq {failure : Failure}
    (course : policy.PlainCourse span cached replies (.error failure)) :
    failure = .fault .unencodable := by
  cases course with
  | refused => rfl
  | lost attempts foreign => rfl

end RetryPolicy.PlainCourse

namespace Workspace

open Session (Exchanges)

variable {corrector : Corrector σ} {options : CorrectionOptions} {span : Span}
variable {workspace : Workspace σ}

theorem lookUp_singleton (options : CorrectionOptions) (span : Span) (workspace : Workspace σ) :
    workspace.lookUp options [span] =
      ([⟨span, span.call options,
          (workspace.cache.get (workspace.time 0) (span.call options).key).1⟩],
        workspace.behindLookUp (span.call options).key workspace.session) := rfl

/-- Where the cache gives up on the key, the chunk fails without a request. -/
theorem correctChunk_refused (corrector : Corrector σ) {fault : CacheFault}
    (refused : (workspace.cache.get (workspace.time 0) (span.call options).key).1 = .error fault) :
    correctChunk corrector options [span] workspace =
      (.error (.fault fault.toFault),
        workspace.behindLookUp (span.call options).key workspace.session) := by
  simp [correctChunk, lookUp_singleton, refused, Lookup.isMissing, Client.settle_nil,
    behindLookUp_with_session, List.range_succ, takeUpSettled, firstFailure?, foundInCache]

theorem correctChunk_found (corrector : Corrector σ) {text : Text}
    (found : (workspace.cache.get (workspace.time 0) (span.call options).key).1 =
      .ok (some text)) :
    correctChunk corrector options [span] workspace =
      (.ok [⟨span.correctedBy text span.confidence, .cache⟩],
        workspace.behindLookUp (span.call options).key workspace.session) := by
  simp [correctChunk, lookUp_singleton, found, Lookup.isMissing, Client.settle_nil,
    behindLookUp_with_session, List.range_succ, takeUpSettled, firstFailure?, corrected?,
    foundInCache, Except.toOption]

/-- Where the cache holds nothing, the chunk takes up what the call comes to. -/
theorem correctChunk_missing {call : Call} {outcome : Except Failure Text} {session : Session σ}
    {result : Except Failure Corrected} {after : Workspace σ} (asks : span.call options = call)
    (missing : (workspace.cache.get (workspace.time 0) call.key).1 = .ok none)
    (settles : corrector.client.settle [call] workspace.session = ([⟨call.key, outcome⟩], session))
    (taken : (workspace.behindLookUp call.key session).takeUp ⟨span, call, .ok none⟩ outcome =
      (result, after)) :
    correctChunk corrector options [span] workspace =
      (result.map fun corrected => [corrected], after) := by
  cases result <;>
    simp [correctChunk, lookUp_singleton, asks, missing, Lookup.isMissing, settles,
      behindLookUp_with_session, List.range_succ, takeUpSettled, takeUpAll, taken, firstFailure?,
      corrected?, foundInCache, List.filterMap_cons, Except.toOption, Except.map]

/-- What the attempts come to is taken up, unless the failure lies in the configuration or the cache
cannot rank its entries. It is lost only if it is a text that cannot be written down. -/
theorem takeUp_course {policy : RetryPolicy} {replies : List Reply}
    {outcome : Except Failure Text} (workspace : Workspace σ) (lookup : Lookup)
    (key : Text.IsWhole lookup.call.key) (attempts : policy.Attempts 1 replies outcome)
    (other : ∀ failure, outcome = .error failure → failure.isConfiguration = false)
    (scored : ∀ entry ∈ workspace.cache.entries,
      (Cache.score? (workspace.time 0) entry.2).isSome) :
    policy.PlainCourse lookup.span (.ok none) replies
        ((workspace.takeUp lookup outcome).1.map Corrected.correction) ∧
      ((∀ text, outcome = .ok text → Text.IsWhole (unwrap text lookup.span.text)) →
        (workspace.takeUp lookup outcome).1.isOk = true) := by
  have takes := takeUp_takesUp lookup outcome workspace
  generalize workspace.takeUp lookup outcome = result at takes ⊢
  cases takes with
  | passedOn configuration => exact absurd configuration (ne_true_of_eq_false (other _ rfl))
  | leftAsItIs outside records => exact ⟨.failed attempts, fun _ => rfl⟩
  | taken stored => exact ⟨.answered attempts (Cache.isWhole_of_store stored).2, fun _ => rfl⟩
  | lost refused =>
      rcases Cache.store_eq_error refused with ⟨rfl, foreign⟩ | ⟨-, entry, member, unscored⟩
      · exact ⟨.lost attempts fun whole => foreign ⟨key, whole⟩,
          fun whole => absurd ⟨key, whole _ rfl⟩ foreign⟩
      · exact absurd (scored entry member) (ne_true_of_eq_false unscored)

/-- A chunk of one span comes to one result, and the service sees no more than the attempts at its
plain request. It fails only where the cache cannot write down the call. -/
theorem correctChunk_singleton (options : CorrectionOptions) (span : Span)
    (workspace : Workspace σ) (harmless : corrector.client.service.IsHarmless)
    (idle : workspace.session.inFlight = []) (unsignalled : workspace.session.signal = none)
    (ranks : ∀ entry ∈ workspace.cache.entries,
      (Cache.score? (workspace.time 1) entry.2).isSome) :
    ∃ (result : Except Failure Corrected) (after : Workspace σ) (replies : List Reply),
      correctChunk corrector options [span] workspace =
        (result.map fun corrected => [corrected], after) ∧
        Exchanges corrector.client.service
          ((corrector.client.job (span.call options)).request.exchanges replies)
          workspace.session after.session ∧
        corrector.client.policy.PlainCourse span
          (workspace.cache.get (workspace.time 0) (span.call options).key).1 replies
          (result.map Corrected.correction) ∧
        (corrector.client.IsWritable (span.call options) → result.isOk = true) := by
  cases cached : (workspace.cache.get (workspace.time 0) (span.call options).key).1 with
  | error fault =>
      obtain ⟨foreign, rfl⟩ := Cache.get_eq_error_iff.mp cached
      exact ⟨.error (.fault .unencodable), _, [], correctChunk_refused corrector cached,
        (Exchanges.refl _ _).framed rfl rfl rfl, .refused,
        fun writable => absurd writable.1 foreign⟩
  | ok answer =>
    cases answer with
    | some text =>
        exact ⟨.ok _, _, [], correctChunk_found corrector cached,
          (Exchanges.refl _ _).framed rfl rfl rfl, .stored, fun _ => rfl⟩
    | none =>
        obtain ⟨replies, outcome, session, settles, attempts, exchanges⟩ :=
          corrector.client.settle_attempts (span.call options) idle unsignalled
        let lookup : Lookup := ⟨span, span.call options, .ok none⟩
        let behind := workspace.behindLookUp (span.call options).key session
        have other : ∀ failure, outcome = .error failure → failure.isConfiguration = false := by
          rintro failure rfl
          exact attempts.isConfiguration_eq_false harmless exchanges
        have key : Text.IsWhole (span.call options).key := Decidable.byContradiction fun foreign => by
          rw [Cache.get_eq_error_iff.mpr ⟨foreign, rfl⟩] at cached
          cases cached
        -- The cache has read the clock once already, so the entries are ranked at its next reading.
        have scored : ∀ entry ∈ behind.cache.entries,
            (Cache.score? (behind.time 0) entry.2).isSome :=
          fun entry member => ranks entry (Cache.mem_entries_of_get_eq_none cached member)
        obtain ⟨course, kept⟩ := takeUp_course behind lookup key attempts other scored
        obtain ⟨records, logged⟩ := behind.takeUp_session lookup outcome
        refine ⟨(behind.takeUp lookup outcome).1, (behind.takeUp lookup outcome).2, replies,
          correctChunk_missing rfl cached settles rfl,
          exchanges.framed (by rw [logged]; rfl) (by rw [logged]; rfl) (by rw [logged]; rfl),
          course, fun writable => kept ?_⟩
        rintro text rfl
        have settled : (⟨(span.call options).key, .ok text⟩ : Settled) ∈
            (corrector.client.settle [span.call options] workspace.session).1 := by
          rw [settles]
          exact List.mem_singleton_self _
        obtain ⟨asked, known, -, possible⟩ := Client.settled_outcome settled
        rw [List.mem_singleton.mp known] at possible
        exact writable.2 text possible

theorem correctSpans_singleton (given? : Option CorrectionOptions) (workspace : Workspace σ)
    {result : Except Failure Corrected} {behind : Workspace σ} (positive : 0 < corrector.chunkSize)
    (unsignalled : workspace.session.signal = none)
    (ran : correctChunk corrector (given?.getD corrector.correctionOptions) [span]
      { workspace with state := .running } = (result.map fun corrected => [corrected], behind)) :
    workspace.correctSpans corrector [span] given? =
      match result with
      | .ok corrected => (.ok (finishRun 1 [corrected] false behind).1,
          (finishRun 1 [corrected] false behind).2)
      | .error failure => (.error failure, behind) := by
  have start : ({ workspace with state := .running } : Workspace σ).session.isCancelled = false :=
    Session.isCancelled_of_signal_eq_none unsignalled
  have continues := correctChunk_continues corrector (given?.getD corrector.correctionOptions) [span]
    { workspace with state := .running }
  rw [ran] at continues
  have quiet : behind.session.isCancelled = false := by
    refine Session.isCancelled_of_signal_eq_none (Option.not_isSome_iff_eq_none.mp ?_)
    rw [continues.signal, unsignalled]
    exact Bool.false_ne_true
  cases result with
  | ok corrected =>
      simp [correctSpans, chunks_singleton positive, correctChunks, start, ran, quiet, Except.map]
  | error failure =>
      simp [correctSpans, chunks_singleton positive, correctChunks, start, ran, Except.map]

end Workspace

end CodeProse
