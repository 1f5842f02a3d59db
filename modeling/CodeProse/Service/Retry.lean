import CodeProse.Service.Session

/-!
# Retrying

A job is a prompt that has to be answered. It is asked again, after a pause that doubles every
time, until a reply has text, the failure lies in the configuration, or the attempts are used
up. It goes on step by step: it asks, takes up the reply, pauses, and asks again. Where it finds
the work cancelled before or behind a pause, it ends with its last failure.
-/

set_option autoImplicit false

namespace CodeProse

/-- How often and at which intervals a request is repeated. -/
structure RetryPolicy where
  attempts : Int := 3
  delay : Number := .real 1
deriving DecidableEq

/-- A prompt that has to be answered, known by a key. -/
structure Job where
  key : Text
  request : Request
deriving DecidableEq

/-- What a job does next: it takes up a reply, or pauses after a failure, or asks again behind the
pause. -/
inductive Phase where
  | answered (reply : Reply)
  | pausing (failure : Failure)
  | rested (failure : Failure)

/-- A job under way, with the number of its latest attempt. -/
structure ActiveJob where
  job : Job
  attempt : Nat
  phase : Phase

/-- What becomes of a job in a step: it goes on, or it has an outcome. -/
inductive Progress where
  | running (active : ActiveJob)
  | settled (outcome : Except Failure Text)

/-- What a reply means for a job: its outcome, or a failure that may be retried. -/
def judge : Reply → Except Failure (Except Failure Text)
  | .error failure => if failure.isConfiguration then .ok (.error failure) else .error failure
  | .ok (some text) => if text.isBlank then .error .emptyReply else .ok (.ok text)
  | .ok none => .error .emptyReply

namespace RetryPolicy

def delayAfter? (policy : RetryPolicy) (attempt : Nat) : Option Number :=
  policy.delay.doubled? (attempt - 1)

def pauseAfter (policy : RetryPolicy) (attempt : Nat) : Binary64 :=
  ((policy.delayAfter? attempt).map Number.toBinary64).getD 0

def attemptMessage (policy : RetryPolicy) (attempt : Nat) (failure : Failure) : Text :=
  "Correction attempt ".toText ++ Text.ofNat attempt ++ .scalar '/' :: Text.ofInt policy.attempts ++
    " failed: ".toText ++ failure.message

/-- How a job goes on after a failed attempt: with an outcome, or not yet. -/
def afterFailure (policy : RetryPolicy) (attempt : Nat) (cancelled : Bool) (failure : Failure) :
    Option Failure :=
  if policy.attempts ≤ attempt then some failure
  else
    match policy.delayAfter? attempt with
    | none => some (.fault .integerTooLarge)
    | some _ => if cancelled then some failure else none

variable {σ : Type}

/-- Makes the request of a job, as the attempt with a number. -/
def ask (service : Service σ) (job : Job) (attempt : Nat) (session : Session σ) :
    Progress × Session σ :=
  let (reply, session) := session.ask service job.request
  (.running ⟨job, attempt, .answered reply⟩, session)

/-- The first step of a job. -/
def start (policy : RetryPolicy) (service : Service σ) (job : Job) (session : Session σ) :
    Progress × Session σ :=
  if policy.attempts ≤ 0 then (.settled (.error .exhausted), session)
  else ask service job 1 session

/-- Takes up the reply to an attempt. -/
def takeUp (policy : RetryPolicy) (job : Job) (attempt : Nat) (reply : Reply)
    (session : Session σ) : Progress × Session σ :=
  match judge reply with
  | .ok outcome => (.settled outcome, session)
  | .error failure =>
      let session := session.log "client" .warning (policy.attemptMessage attempt failure)
      match policy.afterFailure attempt session.isCancelled failure with
      | some failure => (.settled (.error failure), session)
      | none => (.running ⟨job, attempt, .pausing failure⟩, session)

/-- The next step of a job under way. -/
def advance (policy : RetryPolicy) (service : Service σ) (active : ActiveJob)
    (session : Session σ) : Progress × Session σ :=
  match active.phase with
  | .answered reply => policy.takeUp active.job active.attempt reply session
  | .pausing failure =>
      (.running { active with phase := .rested failure },
        session.sleep (policy.pauseAfter active.attempt))
  | .rested failure =>
      if session.isCancelled then (.settled (.error failure), session)
      else ask service active.job (active.attempt + 1) session

end RetryPolicy

end CodeProse
