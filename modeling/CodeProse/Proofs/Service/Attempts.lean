import CodeProse.Proofs.Numeric.Doubling
import CodeProse.Service.Retry

/-!
# Attempts

A request is made again until a reply decides what becomes of it, or the attempts are spent. What
comes of it is what the service has said, or a failure that does not lie in the configuration.
-/

set_option autoImplicit false

namespace CodeProse

variable {σ : Type}

section Replies

/-- A reply that decides what becomes of a request: a text that is not blank, or a failure of the
configuration. -/
inductive Decides : Reply → Except Failure Text → Prop where
  | text {text : Text} (written : text.isBlank = false) : Decides (.ok (some text)) (.ok text)
  | failure {failure : Failure} (configuration : failure.isConfiguration = true) :
      Decides (.error failure) (.error failure)

/-- A reply that is worth another attempt, with the failure that it stands for. -/
inductive Fails : Reply → Failure → Prop where
  | nothing : Fails (.ok none) .emptyReply
  | blank {text : Text} (blank : text.isBlank = true) : Fails (.ok (some text)) .emptyReply
  | failure {failure : Failure} (other : failure.isConfiguration = false) :
      Fails (.error failure) failure

theorem Fails.isConfiguration_eq_false {reply : Reply} {failure : Failure}
    (fails : Fails reply failure) : failure.isConfiguration = false := by
  cases fails with
  | nothing => rfl
  | blank blank => rfl
  | failure other => exact other

theorem judge_of_decides {reply : Reply} {outcome : Except Failure Text}
    (decides : Decides reply outcome) : judge reply = .ok outcome := by
  cases decides with
  | text written => simp [judge, written]
  | failure configuration => simp [judge, configuration]

theorem judge_of_fails {reply : Reply} {failure : Failure} (fails : Fails reply failure) :
    judge reply = .error failure := by
  cases fails with
  | nothing => rfl
  | blank blank => simp [judge, blank]
  | failure other => simp [judge, other]

theorem decides_or_fails (reply : Reply) :
    (∃ outcome, Decides reply outcome) ∨ ∃ failure, Fails reply failure := by
  cases reply with
  | error failure =>
      cases configuration : failure.isConfiguration with
      | true => exact .inl ⟨_, .failure configuration⟩
      | false => exact .inr ⟨_, .failure configuration⟩
  | ok answer =>
      cases answer with
      | none => exact .inr ⟨_, .nothing⟩
      | some text =>
          cases blank : text.isBlank with
          | true => exact .inr ⟨_, .blank blank⟩
          | false => exact .inl ⟨_, .text blank⟩

theorem judge_eq_ok_iff {reply : Reply} {outcome : Except Failure Text} :
    judge reply = .ok outcome ↔ Decides reply outcome := by
  refine ⟨fun judged => ?_, judge_of_decides⟩
  rcases decides_or_fails reply with ⟨other, decides⟩ | ⟨failure, fails⟩
  · rw [judge_of_decides decides] at judged
    cases judged
    exact decides
  · rw [judge_of_fails fails] at judged
    cases judged

theorem judge_eq_ok_ok_iff {reply : Reply} {text : Text} :
    judge reply = .ok (.ok text) ↔ reply = .ok (some text) ∧ text.isBlank = false := by
  rw [judge_eq_ok_iff]
  constructor
  · intro decides
    cases decides with
    | text written => exact ⟨rfl, written⟩
  · rintro ⟨rfl, written⟩
    exact .text written

/-- What a policy can make of a request: the outcome that a reply decides, some failure outside
the configuration where a reply asks for another attempt, or nothing where no attempt is
allowed. -/
inductive RetryPolicy.Outcome (policy : RetryPolicy) (service : Service σ) (request : Request) :
    Except Failure Text → Prop where
  | decided {outcome : Except Failure Text} (state : σ) (asked : 0 < policy.attempts)
      (reply : judge (service.reply state request).1 = .ok outcome) :
      Outcome policy service request outcome
  | failed {failure cause : Failure} (state : σ)
      (reply : judge (service.reply state request).1 = .error cause)
      (retried : failure.isConfiguration = false) :
      Outcome policy service request (.error failure)
  | unasked (attempts : policy.attempts ≤ 0) :
      Outcome policy service request (.error .exhausted)

/-- A service whose failures lie outside the configuration. -/
def Service.IsHarmless (service : Service σ) : Prop :=
  ∀ state request failure, (service.reply state request).1 = .error failure →
    failure.isConfiguration = false

theorem RetryPolicy.Outcome.isConfiguration_eq_false_of {policy : RetryPolicy}
    {service : Service σ} {request : Request} {failure : Failure}
    (harmless : ∀ state cause, (service.reply state request).1 = .error cause →
      cause.isConfiguration = false)
    (outcome : policy.Outcome service request (.error failure)) :
    failure.isConfiguration = false := by
  cases outcome with
  | decided state asked reply =>
      have given : (service.reply state request).1 = .error failure := by
        generalize (service.reply state request).1 = given at reply
        cases judge_eq_ok_iff.mp reply with
        | failure configuration => rfl
      exact harmless state failure given
  | failed state reply retried => exact retried
  | unasked attempts => rfl

/-- No outcome of a harmless service is a failure of the configuration. -/
theorem RetryPolicy.Outcome.isConfiguration_eq_false {policy : RetryPolicy} {service : Service σ}
    {request : Request} (harmless : service.IsHarmless) {failure : Failure}
    (outcome : policy.Outcome service request (.error failure)) :
    failure.isConfiguration = false :=
  outcome.isConfiguration_eq_false_of fun state => harmless state request

/-- The service that always answers with one text. -/
def Service.always (text : Text) : Service Unit where
  reply state _ := (.ok (some text), state)

/-- A service has a text for a request, in some state of it. -/
def Service.Answers (service : Service σ) (request : Request) (reply : Text) : Prop :=
  ∃ state, (service.reply state request).1 = .ok (some reply) ∧ reply.isBlank = false

/-- A text comes of a request only if one may be made, and the service has it. -/
theorem RetryPolicy.Outcome.answers {policy : RetryPolicy} {service : Service σ}
    {request : Request} {text : Text} (outcome : policy.Outcome service request (.ok text)) :
    0 < policy.attempts ∧ service.Answers request text := by
  cases outcome with
  | decided state asked reply => exact ⟨asked, state, judge_eq_ok_ok_iff.mp reply⟩

theorem RetryPolicy.afterFailure_isConfiguration {policy : RetryPolicy} {attempt : Nat}
    {cancelled : Bool} {failure final : Failure} (other : failure.isConfiguration = false)
    (ended : policy.afterFailure attempt cancelled failure = some final) :
    final.isConfiguration = false := by
  unfold RetryPolicy.afterFailure at ended
  split at ended
  · cases ended
    exact other
  · split at ended
    · cases ended
      rfl
    · split at ended
      · cases ended
        exact other
      · cases ended

end Replies

namespace RetryPolicy

variable {policy : RetryPolicy}

/-- The pause behind an attempt is the delay, doubled for every earlier attempt. -/
theorem pauseAfter_one_add (policy : RetryPolicy) {retry : Nat} (small : retry < 1024) :
    policy.pauseAfter (1 + retry) = policy.delay.scaled retry := by
  rw [pauseAfter, delayAfter?, Nat.add_sub_cancel_left, policy.delay.doubled?_map_toBinary64 small,
    Option.getD_some]

/-- The reply to an attempt that is the last one, with what becomes of the request: the reply
decides it, or no attempt is left, or the next pause would be longer than any number. -/
inductive Ends (policy : RetryPolicy) (attempt : Nat) : Reply → Except Failure Text → Prop where
  | decided {reply : Reply} {outcome : Except Failure Text} (decides : Decides reply outcome) :
      Ends policy attempt reply outcome
  | spent {reply : Reply} {failure : Failure} (last : policy.attempts ≤ attempt)
      (fails : Fails reply failure) : Ends policy attempt reply (.error failure)
  | unpaused {reply : Reply} {failure : Failure} (more : (attempt : Int) < policy.attempts)
      (fails : Fails reply failure) (beyond : policy.delayAfter? attempt = none) :
      Ends policy attempt reply (.error (.fault .integerTooLarge))

/-- The reply to an attempt that is followed by another one. -/
structure Retries (policy : RetryPolicy) (attempt : Nat) (reply : Reply) : Prop where
  more : (attempt : Int) < policy.attempts
  fails : ∃ failure, Fails reply failure
  pause : (policy.delayAfter? attempt).isSome

/-- The replies to the attempts at a request, from the one with a number on, and what becomes of the
request. -/
inductive Attempts (policy : RetryPolicy) : Nat → List Reply → Except Failure Text → Prop where
  | unasked {attempt : Nat} (none : policy.attempts < attempt) :
      Attempts policy attempt [] (.error .exhausted)
  | last {attempt : Nat} {reply : Reply} {outcome : Except Failure Text}
      (allowed : attempt ≤ policy.attempts) (ends : policy.Ends attempt reply outcome) :
      Attempts policy attempt [reply] outcome
  | again {attempt : Nat} {reply : Reply} {replies : List Reply} {outcome : Except Failure Text}
      (retries : policy.Retries attempt reply)
      (further : Attempts policy (attempt + 1) replies outcome) :
      Attempts policy attempt (reply :: replies) outcome

theorem afterFailure_cases (policy : RetryPolicy) (attempt : Nat) {reply : Reply}
    {failure : Failure} (fails : Fails reply failure) :
    match policy.afterFailure attempt false failure with
    | some final => policy.Ends attempt reply (.error final)
    | none => policy.Retries attempt reply := by
  rw [afterFailure]
  by_cases last : policy.attempts ≤ attempt
  · rw [if_pos last]
    exact .spent last fails
  · rw [if_neg last]
    have more := Int.not_le.mp last
    cases pause : policy.delayAfter? attempt with
    | none => exact .unpaused more fails pause
    | some delay => exact ⟨more, ⟨failure, fails⟩, by rw [pause]; rfl⟩

theorem Attempts.ne_nil {attempt : Nat} {replies : List Reply} {outcome : Except Failure Text}
    (attempts : policy.Attempts attempt replies outcome) (allowed : attempt ≤ policy.attempts) :
    replies ≠ [] := by
  cases attempts with
  | unasked none => exact absurd allowed (Int.not_le.mpr none)
  | last allowed ends => exact List.cons_ne_nil _ _
  | again retries further => exact List.cons_ne_nil _ _

theorem Attempts.add_length_le {attempt : Nat} {replies : List Reply}
    {outcome : Except Failure Text} (attempts : policy.Attempts attempt replies outcome)
    (some : replies ≠ []) : (attempt + replies.length : Int) ≤ policy.attempts + 1 := by
  induction attempts with
  | unasked none => exact absurd rfl some
  | last allowed ends => simpa using allowed
  | @again attempt reply replies outcome retries further ih =>
      have more := retries.more
      have later := ih (further.ne_nil (by omega))
      rw [List.length_cons]
      omega

theorem Attempts.length_le {replies : List Reply} {outcome : Except Failure Text}
    (attempts : policy.Attempts 1 replies outcome) :
    replies.length ≤ policy.attempts.toNat := by
  by_cases none : replies = []
  · rw [none]
    exact Nat.zero_le _
  · have length := attempts.add_length_le none
    omega

theorem isSome_delayAfter? (policy : RetryPolicy) {attempt : Nat} (small : attempt ≤ 1024) :
    (policy.delayAfter? attempt).isSome := by
  have below : attempt - 1 < 1024 := by omega
  have doubled := policy.delay.doubled?_map_toBinary64 below
  cases pause : policy.delayAfter? attempt with
  | none =>
      rw [delayAfter?] at pause
      rw [pause] at doubled
      cases doubled
  | some delay => rfl

/-- Of the replies to the attempts that are made all but the last fail. The last one decides the
request, or it fails at the last attempt that is allowed. -/
theorem Attempts.exists_last {attempt : Nat} {replies : List Reply} {outcome : Except Failure Text}
    (attempts : policy.Attempts attempt replies outcome) (allowed : attempt ≤ policy.attempts)
    (few : policy.attempts ≤ 1025) :
    ∃ failed last, replies = failed ++ [last] ∧ (∀ reply ∈ failed, ∃ failure, Fails reply failure) ∧
      (attempt + failed.length : Int) ≤ policy.attempts ∧
      (Decides last outcome ∨ (attempt + failed.length : Int) = policy.attempts ∧
        ∃ failure, Fails last failure ∧ outcome = .error failure) := by
  induction attempts with
  | unasked none => exact absurd allowed (Int.not_le.mpr none)
  | @last attempt reply outcome allowed ends =>
      refine ⟨[], reply, rfl, by simp, by simpa using allowed, ?_⟩
      cases ends with
      | decided decides => exact .inl decides
      | @spent failure spent fails =>
          refine .inr ⟨?_, failure, fails, rfl⟩
          rw [List.length_nil]
          omega
      | unpaused more fails beyond =>
          -- A pause beyond all numbers takes more attempts than there are.
          have small : attempt ≤ 1024 := by omega
          have pause := policy.isSome_delayAfter? small
          rw [beyond] at pause
          cases pause
  | @again attempt reply replies outcome retries _ ih =>
      have more := retries.more
      obtain ⟨failed, last, same, fails, length, ends⟩ := ih (by omega)
      refine ⟨reply :: failed, last, congrArg (reply :: ·) same,
        List.forall_mem_cons.mpr ⟨retries.fails, fails⟩, ?_,
        ends.imp_right fun spent => ⟨?_, spent.2⟩⟩
      · rw [List.length_cons]
        omega
      · have spent := spent.1
        rw [List.length_cons]
        omega

end RetryPolicy

/-- The replies that a service gives to requests, one after the other. -/
inductive Service.Serves (service : Service σ) : σ → List (Request × Reply) → σ → Prop where
  | nothing {state : σ} : Serves service state [] state
  | reply {state next final : σ} {request : Request} {reply : Reply}
      {rest : List (Request × Reply)} (given : service.reply state request = (reply, next))
      (further : Serves service next rest final) :
      Serves service state ((request, reply) :: rest) final

theorem Service.Serves.append {service : Service σ} {first middle last : σ}
    {front rest : List (Request × Reply)} (serves : service.Serves first front middle)
    (further : service.Serves middle rest last) : service.Serves first (front ++ rest) last := by
  induction serves with
  | nothing => exact further
  | reply given _ ih => exact .reply given (ih further)

end CodeProse
