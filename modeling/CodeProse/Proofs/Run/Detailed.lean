import CodeProse.Proofs.Run.Reference
import CodeProse.Proofs.Run.Single

/-!
# Corrections in detail

A span is corrected by a structured reply, or plainly where the attempts at one fail. So a harmless
service leads to a correction of the span, behind no more requests of either kind than the retries
allow, unless it comes to the plain correction and the cache cannot write that down.
-/

set_option autoImplicit false

namespace CodeProse

variable {σ : Type}

/-- How the correction of a span in detail comes about: from the attempts at the structured request,
or plainly, once these have failed. -/
inductive Client.DetailedCourse (client : Client σ) (call : Call) (span : Span)
    (cached : Except CacheFault (Option Text)) :
    List Reply → List Reply → Except Failure Correction → Prop where
  | structured {replies : List Reply} {outcome : Except Failure Text}
      {detailed : DetailedCorrection} (attempts : client.policy.Attempts 1 replies outcome)
      (read : client.detailedOf call outcome = .ok detailed) :
      DetailedCourse client call span cached replies []
        (.ok (Workspace.detailedCorrection span detailed))
  | plain {replies further : List Reply} {outcome : Except Failure Text} {failure : Failure}
      {result : Except Failure Correction} (attempts : client.policy.Attempts 1 replies outcome)
      (failed : client.detailedOf call outcome = .error failure)
      (course : client.policy.PlainCourse span cached further result) :
      DetailedCourse client call span cached replies further result

namespace Client

variable {client : Client σ} {call : Call} {replies : List Reply} {outcome : Except Failure Text}

theorem isShare_detailedOf {detailed : DetailedCorrection}
    (attempts : client.policy.Attempts 1 replies outcome)
    (read : client.detailedOf call outcome = .ok detailed) : detailed.confidence.IsShare := by
  cases outcome with
  | error failure => cases read
  | ok response =>
      have written : response ≠ [] := by
        rintro rfl
        cases attempts.isBlank_eq_false
      rcases ofResponse_cases client.nesting client.model call.text written with
        ⟨correction, given, isOf, -⟩ | ⟨fault, given, -⟩
      · rw [detailedOf, Except.bind, given] at read
        cases read
        exact isOf.confidence
      · rw [detailedOf, Except.bind, given] at read
        cases read

/-- A response from which nothing can be computed is no failure of the configuration either. -/
theorem isConfiguration_detailedOf {request : Request} {before after : Session σ} {failure : Failure}
    (harmless : client.service.IsHarmless) (attempts : client.policy.Attempts 1 replies outcome)
    (exchanges : Session.Exchanges client.service (request.exchanges replies) before after)
    (failed : client.detailedOf call outcome = .error failure) :
    failure.isConfiguration = false := by
  cases outcome with
  | error cause =>
      cases failed
      exact attempts.isConfiguration_eq_false harmless exchanges
  | ok response =>
      rw [detailedOf, Except.bind] at failed
      cases given : DetailedCorrection.ofResponse client.nesting client.model call.text response with
      | error fault =>
          rw [given] at failed
          cases failed
          rfl
      | ok correction =>
          rw [given] at failed
          cases failed

namespace DetailedCourse

variable {span : Span} {cached : Except CacheFault (Option Text)} {further : List Reply}
variable {correction : Correction}

theorem draft_eq
    (course : client.DetailedCourse call span cached replies further (.ok correction)) :
    correction.draft = span.text := by
  cases course with
  | structured attempts read => rfl
  | plain attempts failed course =>
      obtain ⟨text, confidence, rfl⟩ := course.corrects
      rfl

theorem range_eq
    (course : client.DetailedCourse call span cached replies further (.ok correction)) :
    correction.range = span.range := by
  cases course with
  | structured attempts read => rfl
  | plain attempts failed course =>
      obtain ⟨text, confidence, rfl⟩ := course.corrects
      rfl

theorem isShare
    (course : client.DetailedCourse call span cached replies further (.ok correction))
    (share : span.confidence.IsShare) : correction.confidence.IsShare := by
  cases course with
  | structured attempts read => exact isShare_detailedOf attempts read
  | plain attempts failed course => exact course.isShare share

theorem length_le {result : Except Failure Correction}
    (course : client.DetailedCourse call span cached replies further result) :
    replies.length ≤ client.policy.attempts.toNat ∧
      further.length ≤ client.policy.attempts.toNat := by
  cases course with
  | structured attempts read => exact ⟨attempts.length_le, Nat.zero_le _⟩
  | plain attempts failed course => exact ⟨attempts.length_le, course.length_le⟩

theorem error_eq {failure : Failure}
    (course : client.DetailedCourse call span cached replies further (.error failure)) :
    failure = .fault .unencodable := by
  cases course with
  | plain attempts failed course => exact course.error_eq

end DetailedCourse

end Client

namespace Workspace

open Session (Exchanges)

variable (corrector : Corrector σ) (span : Span) (given? : Option CorrectionOptions)
variable (workspace : Workspace σ)

theorem correctSpans_course (positive : 0 < corrector.chunkSize)
    (harmless : corrector.client.service.IsHarmless) (idle : workspace.session.inFlight = [])
    (unsignalled : workspace.session.signal = none)
    (ranks : ∀ entry ∈ workspace.cache.entries,
      (Cache.score? (workspace.time 1) entry.2).isSome) :
    let call := span.call (given?.getD corrector.correctionOptions)
    ∃ (result : Except Failure Correction) (after : Workspace σ) (replies : List Reply),
      (match result with
        | .ok correction => ∃ run, workspace.correctSpans corrector [span] given? =
            (.ok run, after) ∧ run.corrections = [correction]
        | .error failure => workspace.correctSpans corrector [span] given? =
            (.error failure, after)) ∧
        Exchanges corrector.client.service ((corrector.client.job call).request.exchanges replies)
          workspace.session after.session ∧
        corrector.client.policy.PlainCourse span
          (workspace.cache.get (workspace.time 0) call.key).1 replies result ∧
        (corrector.client.IsWritable call → result.isOk = true) := by
  obtain ⟨result, behind, replies, ran, exchanges, course, writable⟩ :=
    correctChunk_singleton (given?.getD corrector.correctionOptions) span
      { workspace with state := .running } harmless idle unsignalled ranks
  have runs := correctSpans_singleton given? workspace positive unsignalled ran
  cases result with
  | error failure => exact ⟨.error failure, behind, replies, runs, exchanges, course, writable⟩
  | ok corrected =>
      exact ⟨.ok corrected.correction, _, replies, ⟨_, runs, rfl⟩, exchanges.framed rfl rfl rfl,
        course, fun _ => rfl⟩

theorem exists_detailedCourse (positive : 0 < corrector.chunkSize)
    (harmless : corrector.client.service.IsHarmless) (idle : workspace.session.inFlight = [])
    (ranks : ∀ entry ∈ workspace.cache.entries,
      (Cache.score? (workspace.time 1) entry.2).isSome) :
    let call := span.call (given?.getD corrector.correctionOptions)
    ∃ result after structured plain,
      workspace.correctDetailed corrector span given? = (result, after) ∧
        Exchanges corrector.client.service
          ((corrector.client.detailedJob call).request.exchanges structured ++
            (corrector.client.job call).request.exchanges plain)
          { workspace.session with signal := none } after.session ∧
        corrector.client.DetailedCourse call span
          (workspace.cache.get (workspace.time 0) call.key).1 structured plain result ∧
        (corrector.client.IsWritable call → result.isOk = true) := by
  intro call
  let quiet : Session σ := { workspace.session with signal := none }
  have calls := corrector.client.inFlight_correctDetailed call quiet
  obtain ⟨structured, outcome, session, corrects, attempts, asked⟩ :=
    corrector.client.correctDetailed_attempts call quiet rfl
  rw [corrects] at calls
  cases read : corrector.client.detailedOf call outcome with
  | ok detailed =>
      refine ⟨.ok (detailedCorrection span detailed), { workspace with session }, structured, [], ?_,
        ?_, .structured attempts read, fun _ => rfl⟩
      · simp only [correctDetailed, call, quiet, corrects, read]
      · rw [Request.exchanges_nil, List.append_nil]
        exact asked
  | error failure =>
      have other := Client.isConfiguration_detailedOf harmless attempts asked read
      -- Nothing but a warning stands between the two kinds of attempts.
      let reported := ({ workspace with session } : Workspace σ).log .warning
        ("Detailed correction failed, using plain correction: ".toText ++ failure.message)
      have logged : Exchanges corrector.client.service _ quiet reported.session :=
        asked.framed rfl rfl rfl
      obtain ⟨result, after, plain, ran, exchanges, course, writable⟩ :=
        correctSpans_course corrector span given? reported positive harmless (calls.trans idle)
          logged.signal ranks
      refine ⟨result, after, structured, plain, ?_, logged.trans exchanges,
        .plain attempts read course, writable⟩
      cases result with
      | ok correction =>
          obtain ⟨run, runs, single⟩ := ran
          simp only [reported] at runs
          simp only [correctDetailed, call, quiet, corrects, read, other, Bool.false_eq_true,
            if_false, runs, single]
      | error cause =>
          simp only [reported] at ran
          simp only [correctDetailed, call, quiet, corrects, read, other, Bool.false_eq_true,
            if_false, ran]

/-- A correction in detail comes back where the service is harmless, the cache can rank its entries
and can write down the plain call. It stands for the span, with a confidence from zero to one. The
service sees the attempts at the structured request, and behind them, where these fail, the attempts
at the plain one. Where both fail the text stays as it is, without confidence. Only where the cache
cannot write down the key or the text of the plain correction nothing comes back. -/
theorem correctDetailed_course (positive : 0 < corrector.chunkSize)
    (harmless : corrector.client.service.IsHarmless) (idle : workspace.session.inFlight = [])
    (share : span.confidence.IsShare)
    (ranks : ∀ entry ∈ workspace.cache.entries,
      (Cache.score? (workspace.time 1) entry.2).isSome) :
    let call := span.call (given?.getD corrector.correctionOptions)
    ∃ result after structured plain,
      workspace.correctDetailed corrector span given? = (result, after) ∧
        Exchanges corrector.client.service
          ((corrector.client.detailedJob call).request.exchanges structured ++
            (corrector.client.job call).request.exchanges plain)
          { workspace.session with signal := none } after.session ∧
        structured.length ≤ corrector.client.policy.attempts.toNat ∧
        plain.length ≤ corrector.client.policy.attempts.toNat ∧
        corrector.client.DetailedCourse call span
          (workspace.cache.get (workspace.time 0) call.key).1 structured plain result ∧
        ((∃ correction, result = .ok correction ∧ correction.draft = span.text ∧
            correction.range = span.range ∧ correction.confidence.IsShare) ∨
          result = .error (.fault .unencodable) ∧ ¬ corrector.client.IsWritable call) := by
  intro call
  obtain ⟨result, after, structured, plain, ran, exchanges, course, writable⟩ :=
    exists_detailedCourse corrector span given? workspace positive harmless idle ranks
  obtain ⟨structuredLength, plainLength⟩ := course.length_le
  refine ⟨result, after, structured, plain, ran, exchanges, structuredLength, plainLength, course,
    ?_⟩
  cases result with
  | ok correction =>
      exact .inl ⟨correction, rfl, course.draft_eq, course.range_eq, course.isShare share⟩
  | error failure =>
      refine .inr ⟨by rw [course.error_eq], fun known => ?_⟩
      cases writable known

def plainSpokenCorrector : Corrector Unit where
  client :=
    { service :=
        { reply := fun state request =>
            (if request.jsonMode then .error (.reported .transient "busy") else .ok (some "the"),
              state) }
      model := [] }

/-- A workspace with one popular text in its cache. -/
def popularWorkspace : Workspace Unit where
  session := { service := () }
  now := 1000
  cache := { entries := [("digest", ⟨"dog", 0, 7, 3⟩)] }

/-- Three structured requests fail, and the first plain one is answered. -/
theorem correctDetailed_course_plainSpokenCorrector :
    ∃ correction after structured plain,
      popularWorkspace.correctDetailed plainSpokenCorrector (wordSpan 0 "teh") (some {}) =
        (.ok correction, after) ∧ correction.text = "the" ∧ correction.confidence.IsShare ∧
      structured.length ≤ 3 ∧ plain.length ≤ 3 ∧ after.session.requests.length = 4 ∧
      plainSpokenCorrector.client.DetailedCourse ((wordSpan 0 "teh").call {}) (wordSpan 0 "teh")
        (.ok none) structured plain (.ok correction) := by
  have harmless : plainSpokenCorrector.client.service.IsHarmless := by
    intro state request failure replied
    simp only [plainSpokenCorrector] at replied
    split at replied
    · cases replied
      rfl
    · cases replied
  have missing : (popularWorkspace.cache.get (popularWorkspace.time 0)
      ((wordSpan 0 "teh").call {}).key).1 = .ok none := by decide +kernel
  have answer : (fun outcome : Except Failure Correction × Workspace Unit =>
        (outcome.1.toOption.map Correction.text, outcome.2.session.requests.length))
      (popularWorkspace.correctDetailed plainSpokenCorrector (wordSpan 0 "teh") (some {})) =
        (some "the".toText, 4) := by decide +kernel
  obtain ⟨result, after, structured, plain, ran, -, first, second, course, comes⟩ :=
    correctDetailed_course plainSpokenCorrector (wordSpan 0 "teh") (some {}) popularWorkspace
      (by decide) harmless rfl Binary64.isShare_one (by decide +kernel)
  rw [ran] at answer
  obtain ⟨text, requests⟩ := Prod.mk.inj answer
  rcases comes with ⟨correction, rfl, -, -, share⟩ | ⟨rfl, -⟩
  · rw [Option.getD_some, missing] at course
    exact ⟨correction, after, structured, plain, ran, Option.some.inj text, share, first, second,
      requests, course⟩
  · cases text

/-- A service that is too busy for structured requests, with halved replies to plain ones. -/
def halfSpokenCorrector : Corrector Unit where
  client :=
    { service :=
        { reply := fun state request =>
            (if request.jsonMode then .error (.reported .transient "busy")
              else halvedReply request.prompt, state) }
      model := [] }

/-- Three structured requests fail, and the cache cannot write down the text that the plain one
brings. -/
theorem not_forall_correctDetailed_isOk :
    ¬ ∀ (corrector : Corrector Unit) (span : Span) (options : CorrectionOptions)
      (workspace : Workspace Unit),
      0 < corrector.chunkSize → corrector.client.service.IsHarmless → span.confidence.IsShare →
      (∀ entry ∈ workspace.cache.entries, (Cache.score? (workspace.time 1) entry.2).isSome) →
      (workspace.correctDetailed corrector span (some options)).1.isOk = true := by
  intro claimed
  have harmless : halfSpokenCorrector.client.service.IsHarmless := by
    intro state request failure replied
    simp only [halfSpokenCorrector] at replied
    split at replied
    · cases replied
      rfl
    · cases replied
  have fails : (popularWorkspace.correctDetailed halfSpokenCorrector (wordSpan 0 "teh")
      (some {})).1.isOk = false := by
    decide +kernel
  have runs := claimed halfSpokenCorrector (wordSpan 0 "teh") {} popularWorkspace (by decide)
    harmless Binary64.isShare_one (by decide +kernel)
  rw [fails] at runs
  cases runs

end Workspace

end CodeProse
