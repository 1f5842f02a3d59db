import CodeProse.Proofs.Sequence
import CodeProse.Proofs.Service.Attempts
import CodeProse.Proofs.Service.Continuation
import CodeProse.Service.Flight
import Mathlib.Data.List.Perm.Basic

/-!
# Flights

Jobs that are under way together land, whoever's turn it is: each of them settles once, with what the
service made of its request or with a failure that does not lie in the configuration. Its key is
then in flight no longer.
-/

set_option autoImplicit false

namespace CodeProse

variable {σ : Type}

open Session (Continues)

/-- A job of a flight that has not settled: it has not started, or it is under way. -/
inductive Stage where
  | queued (job : Job)
  | active (current : ActiveJob)

namespace Stage

def job : Stage → Job
  | .queued job => job
  | .active current => current.job

def key (stage : Stage) : Text :=
  stage.job.key

end Stage

def Flight.stages (flight : Flight σ) : List Stage :=
  flight.active.map .active ++ flight.queue.map .queued

def Flight.keys (flight : Flight σ) : List Text :=
  flight.stages.map Stage.key

section Moves

variable {policy : RetryPolicy} {service : Service σ} {session : Session σ} {stage : Stage}
  {result : Progress × Session σ}

/-- The step of a job, with what it leads to. -/
inductive RetryPolicy.Moves (policy : RetryPolicy) (service : Service σ) (session : Session σ) :
    Stage → Progress × Session σ → Prop where
  | barred {job : Job} (none : policy.attempts ≤ 0) :
      Moves policy service session (.queued job) (.settled (.error .exhausted), session)
  | asks {job : Job} (some : 0 < policy.attempts) :
      Moves policy service session (.queued job)
        (.running ⟨job, 1, .answered (session.ask service job.request).1⟩,
          (session.ask service job.request).2)
  | decided {job : Job} {attempt : Nat} {reply : Reply} {outcome : Except Failure Text}
      (decides : Decides reply outcome) :
      Moves policy service session (.active ⟨job, attempt, .answered reply⟩)
        (.settled outcome, session)
  | ends {job : Job} {attempt : Nat} {reply : Reply} {failure final : Failure}
      (fails : Fails reply failure)
      (ended : policy.afterFailure attempt session.isCancelled failure = some final) :
      Moves policy service session (.active ⟨job, attempt, .answered reply⟩)
        (.settled (.error final),
          session.log "client" .warning (policy.attemptMessage attempt failure))
  | waits {job : Job} {attempt : Nat} {reply : Reply} {failure : Failure}
      (fails : Fails reply failure)
      (goesOn : policy.afterFailure attempt session.isCancelled failure = none) :
      Moves policy service session (.active ⟨job, attempt, .answered reply⟩)
        (.running ⟨job, attempt, .pausing failure⟩,
          session.log "client" .warning (policy.attemptMessage attempt failure))
  | pauses {job : Job} {attempt : Nat} {failure : Failure} :
      Moves policy service session (.active ⟨job, attempt, .pausing failure⟩)
        (.running ⟨job, attempt, .rested failure⟩, session.sleep (policy.pauseAfter attempt))
  | withdraws {job : Job} {attempt : Nat} {failure : Failure}
      (cancelled : session.isCancelled = true) :
      Moves policy service session (.active ⟨job, attempt, .rested failure⟩)
        (.settled (.error failure), session)
  | retries {job : Job} {attempt : Nat} {failure : Failure}
      (uncancelled : session.isCancelled = false) :
      Moves policy service session (.active ⟨job, attempt, .rested failure⟩)
        (.running ⟨job, attempt + 1, .answered (session.ask service job.request).1⟩,
          (session.ask service job.request).2)

theorem moves_start (policy : RetryPolicy) (service : Service σ) (job : Job)
    (session : Session σ) :
    policy.Moves service session (.queued job) (policy.start service job session) := by
  rw [RetryPolicy.start]
  split
  · next none => exact .barred none
  · next some => exact .asks (Int.not_le.mp some)

theorem moves_advance (policy : RetryPolicy) (service : Service σ) (active : ActiveJob)
    (session : Session σ) :
    policy.Moves service session (.active active) (policy.advance service active session) := by
  obtain ⟨job, attempt, phase⟩ := active
  cases phase with
  | answered reply =>
      simp only [RetryPolicy.advance, RetryPolicy.takeUp]
      rcases decides_or_fails reply with ⟨outcome, decides⟩ | ⟨failure, fails⟩
      · rw [judge_of_decides decides]
        exact .decided decides
      · simp only [judge_of_fails fails]
        split
        · next ended => exact .ends fails ended
        · next goesOn => exact .waits fails goesOn
  | pausing failure => exact .pauses
  | rested failure =>
      simp only [RetryPolicy.advance]
      split
      · next cancelled => exact .withdraws cancelled
      · next uncancelled => exact .retries (eq_false_of_ne_true uncancelled)

/-- A step makes the request of its job, or none. -/
theorem RetryPolicy.Moves.continues (moves : policy.Moves service session stage result) :
    Continues [stage.job.request] session result.2 := by
  cases moves with
  | barred none => exact (Continues.refl session).mono (List.nil_subset _)
  | asks some => exact session.continues_ask service _
  | decided decides => exact (Continues.refl session).mono (List.nil_subset _)
  | ends fails ended => exact (session.continues_log _ _ _).mono (List.nil_subset _)
  | waits fails goesOn => exact (session.continues_log _ _ _).mono (List.nil_subset _)
  | pauses => exact (session.continues_sleep _).mono (List.nil_subset _)
  | withdraws cancelled => exact (Continues.refl session).mono (List.nil_subset _)
  | retries uncancelled => exact session.continues_ask service _

theorem RetryPolicy.Moves.inFlight (moves : policy.Moves service session stage result) :
    result.2.inFlight = session.inFlight := by
  cases moves <;> rfl

/-- A failure behind which a job is asked again. -/
structure IsRetried (service : Service σ) (job : Job) (failure : Failure) : Prop where
  other : failure.isConfiguration = false
  asked : ∃ state cause, judge (service.reply state job.request).1 = .error cause

/-- What is known of a job under way: its attempts are within the policy, and its replies are those
of the service. -/
inductive Stage.IsSound (policy : RetryPolicy) (service : Service σ) : Stage → Prop where
  | queued {job : Job} : IsSound policy service (.queued job)
  | answered {job : Job} {attempt : Nat} {reply : Reply} (allowed : attempt ≤ policy.attempts)
      (some : 0 < attempt) (given : ∃ state, (service.reply state job.request).1 = reply) :
      IsSound policy service (.active ⟨job, attempt, .answered reply⟩)
  | pausing {job : Job} {attempt : Nat} {failure : Failure} (more : attempt < policy.attempts)
      (retried : IsRetried service job failure) :
      IsSound policy service (.active ⟨job, attempt, .pausing failure⟩)
  | rested {job : Job} {attempt : Nat} {failure : Failure} (more : attempt < policy.attempts)
      (retried : IsRetried service job failure) :
      IsSound policy service (.active ⟨job, attempt, .rested failure⟩)

/-- How many steps of a job are left at most. -/
def Stage.stepsLeft (policy : RetryPolicy) : Stage → Nat
  | .queued _ => 3 * policy.attempts.toNat + 1
  | .active ⟨_, attempt, .answered _⟩ => 3 * (policy.attempts.toNat - attempt) + 1
  | .active ⟨_, attempt, .pausing _⟩ => 3 * (policy.attempts.toNat - attempt)
  | .active ⟨_, attempt, .rested _⟩ => 3 * (policy.attempts.toNat - attempt) - 1

theorem RetryPolicy.lt_of_afterFailure {attempt : Nat} {cancelled : Bool} {failure : Failure}
    (goesOn : policy.afterFailure attempt cancelled failure = none) : attempt < policy.attempts := by
  by_contra spent
  rw [afterFailure, if_pos (Int.not_lt.mp spent)] at goesOn
  cases goesOn

theorem isRetried_of_fails {job : Job} {reply : Reply} {failure : Failure}
    (fails : Fails reply failure) (given : ∃ state, (service.reply state job.request).1 = reply) :
    IsRetried service job failure := by
  obtain ⟨state, rfl⟩ := given
  exact ⟨fails.isConfiguration_eq_false, state, failure, judge_of_fails fails⟩

/-- What a step leads to: the job has fewer steps left, or an outcome. -/
inductive RetryPolicy.Leaves (policy : RetryPolicy) (service : Service σ) (stage : Stage) :
    Progress → Prop where
  | running {active : ActiveJob} (job : active.job = stage.job)
      (sound : (Stage.active active).IsSound policy service)
      (fewer : (Stage.active active).stepsLeft policy < stage.stepsLeft policy) :
      Leaves policy service stage (.running active)
  | settled {outcome : Except Failure Text}
      (reached : policy.Outcome service stage.job.request outcome) :
      Leaves policy service stage (.settled outcome)

theorem RetryPolicy.Moves.leaves (moves : policy.Moves service session stage result)
    (sound : stage.IsSound policy service) : policy.Leaves service stage result.1 := by
  cases moves with
  | barred none => exact .settled (.unasked none)
  | asks some =>
      refine .running rfl (.answered (by omega) Nat.one_pos ⟨session.service, rfl⟩) ?_
      simp only [Stage.stepsLeft]
      omega
  | decided decides =>
      cases sound with
      | answered allowed some given =>
          obtain ⟨state, rfl⟩ := given
          exact .settled (.decided state (by omega) (judge_of_decides decides))
  | ends fails ended =>
      cases sound with
      | answered allowed some given =>
          obtain ⟨other, state, cause, judged⟩ := isRetried_of_fails fails given
          exact .settled (.failed state judged (afterFailure_isConfiguration other ended))
  | waits fails goesOn =>
      cases sound with
      | answered allowed some given =>
          have more := lt_of_afterFailure goesOn
          refine .running rfl (.pausing more (isRetried_of_fails fails given)) ?_
          simp only [Stage.stepsLeft]
          omega
  | pauses =>
      cases sound with
      | pausing more retried =>
          refine .running rfl (.rested more retried) ?_
          simp only [Stage.stepsLeft]
          omega
  | withdraws cancelled =>
      cases sound with
      | rested more retried =>
          obtain ⟨other, state, cause, judged⟩ := retried
          exact .settled (.failed state judged other)
  | retries uncancelled =>
      cases sound with
      | rested more retried =>
          refine .running rfl (.answered (by omega) (Nat.succ_pos _) ⟨session.service, rfl⟩) ?_
          simp only [Stage.stepsLeft]
          omega

end Moves

namespace Flight

section Steps

variable {policy : RetryPolicy} {service : Service σ} {flight next : Flight σ} {stage : Stage}
  {result : Progress × Session σ}

/-- A step of a flight: the first job in the queue starts, or one of the active jobs goes on. -/
inductive Steps (policy : RetryPolicy) (service : Service σ) (flight : Flight σ) :
    Stage → Progress × Session σ → Flight σ → Prop where
  | starts {job : Job} {queue : List Job} {result : Progress × Session σ}
      (first : flight.queue = job :: queue)
      (moves : policy.Moves service flight.session (.queued job) result) :
      Steps policy service flight (.queued job) result ({ flight with queue }.take job.key result)
  | advances {active : ActiveJob} {rest : List ActiveJob} {result : Progress × Session σ}
      (picked : flight.active.Perm (active :: rest))
      (moves : policy.Moves service flight.session (.active active) result) :
      Steps policy service flight (.active active) result
        ({ flight with active := rest }.take active.job.key result)

/-- The job whose turn it is after a choice. -/
def moving? (choice : Nat) (flight : Flight σ) : Option Stage :=
  match flight.active[flight.chosen choice]?, flight.queue with
  | some active, _ => some (.active active)
  | none, job :: _ => some (.queued job)
  | none, [] => none

theorem steps_step (policy : RetryPolicy) (service : Service σ) (choice : Nat)
    (flying : flight.hasLanded = false) :
    ∃ stage result, flight.moving? choice = some stage ∧
      flight.Steps policy service stage result (flight.step policy service choice) := by
  cases found : flight.active[flight.chosen choice]? with
  | some active =>
      have picked :
          flight.active.Perm (active :: flight.active.eraseIdx (flight.chosen choice)) := by
        obtain ⟨inside, rfl⟩ := List.getElem?_eq_some_iff.mp found
        exact (List.getElem_cons_eraseIdx_perm inside).symm
      refine ⟨.active active, policy.advance service active flight.session, ?_, ?_⟩
      · simp only [moving?, found]
      · simp only [step, found]
        exact .advances picked (moves_advance policy service _ _)
  | none =>
      cases first : flight.queue with
      | cons job queue =>
          refine ⟨.queued job, policy.start service job flight.session, ?_, ?_⟩
          · simp only [moving?, found, first]
          · simp only [step, found, first]
            exact .starts first (moves_start policy service job _)
      | nil =>
          -- With an empty queue the choice means an active job, so that none is left.
          have inside := List.getElem?_eq_none_iff.mp found
          have few : flight.active.length = 0 := by
            simp only [chosen, first, List.isEmpty_nil, if_true] at inside
            omega
          simp [hasLanded, first, List.length_eq_zero_iff.mp few] at flying

theorem Steps.moves (steps : flight.Steps policy service stage result next) :
    policy.Moves service flight.session stage result := by
  cases steps with
  | starts first moves => exact moves
  | advances picked moves => exact moves

/-- A flight behind a step of a job, beside the other jobs: the job goes on, or it has settled. -/
inductive Takes (flight next : Flight σ) (stage : Stage) (rest : List Stage) :
    Progress × Session σ → Prop where
  | running {active : ActiveJob} (stages : next.stages.Perm (.active active :: rest))
      (settled : next.settled = flight.settled) :
      Takes flight next stage rest (.running active, next.session)
  | settled {outcome : Except Failure Text} {session : Session σ} (stages : next.stages.Perm rest)
      (settled : next.settled = flight.settled ++ [⟨stage.key, outcome⟩])
      (released : next.session = session.release stage.key) :
      Takes flight next stage rest (.settled outcome, session)

theorem takes_take (flight behind : Flight σ) (settled : behind.settled = flight.settled)
    (stage : Stage) (result : Progress × Session σ) :
    flight.Takes (behind.take stage.key result) stage behind.stages result := by
  obtain ⟨progress, session⟩ := result
  cases progress with
  | running active =>
      refine .running ?_ settled
      simp only [Flight.stages, take, List.map_append, List.append_assoc]
      exact List.perm_middle
  | settled outcome => exact .settled (.refl _) (by rw [← settled]; rfl) rfl

/-- A step takes one job out of a flight and puts it back, as it goes on, or as settled. -/
theorem Steps.exists_rest (steps : flight.Steps policy service stage result next) :
    ∃ rest, flight.stages.Perm (stage :: rest) ∧ flight.Takes next stage rest result := by
  cases steps with
  | @starts job queue result first moves =>
      refine ⟨flight.active.map .active ++ queue.map .queued, ?_, ?_⟩
      · rw [stages, first]
        exact List.perm_middle
      · exact flight.takes_take { flight with queue } rfl (.queued job) result
  | @advances active rest result picked moves =>
      refine ⟨rest.map .active ++ flight.queue.map .queued, ?_, ?_⟩
      · exact (picked.map Stage.active).append_right _
      · exact flight.takes_take { flight with active := rest } rfl (.active active) result

/-- What every step keeps, a run keeps. -/
theorem run_keeps (holds : Flight σ → Prop)
    (step : ∀ flight stage result next, flight.Steps policy service stage result next →
      holds flight → holds next)
    (schedule : Schedule σ) (steps : Nat) (start : holds flight) :
    holds (flight.run policy service schedule steps) := by
  induction steps generalizing flight with
  | zero => exact start
  | succ steps ih =>
      rw [run]
      split
      · exact start
      · next flying =>
          obtain ⟨stage, result, -, moved⟩ := flight.steps_step policy service (schedule flight)
            (eq_false_of_ne_true flying)
          exact ih (step _ _ _ _ moved start)

end Steps

section Landing

variable {policy : RetryPolicy} {service : Service σ} {flight next : Flight σ} {stage : Stage}
  {result : Progress × Session σ} {jobs : List Job}

/-- What is known of a flight of some jobs: each is under way or has settled, with what the service
has made of its request. -/
structure IsOf (policy : RetryPolicy) (service : Service σ) (jobs : List Job)
    (flight : Flight σ) : Prop where
  keys : (flight.settled.map Settled.key ++ flight.keys).Perm (jobs.map Job.key)
  stages : ∀ stage ∈ flight.stages, stage.job ∈ jobs ∧ stage.IsSound policy service
  settled : ∀ entry ∈ flight.settled, ∃ job ∈ jobs, entry.key = job.key ∧
    policy.Outcome service job.request entry.outcome

theorem isOf_start (policy : RetryPolicy) (service : Service σ) (jobs : List Job)
    (session : Session σ) : IsOf policy service jobs { session, queue := jobs } where
  keys := by
    simp only [keys, stages, List.map_nil, List.nil_append, List.map_map]
    exact .refl _
  stages := by
    intro stage member
    obtain ⟨job, known, rfl⟩ := List.mem_map.mp member
    exact ⟨known, .queued⟩
  settled := by simp

theorem IsOf.step (known : flight.IsOf policy service jobs)
    (steps : flight.Steps policy service stage result next) : next.IsOf policy service jobs := by
  obtain ⟨rest, before, behind⟩ := steps.exists_rest
  obtain ⟨keys, stages, settled⟩ := known
  obtain ⟨member, sound⟩ := stages stage (before.mem_iff.mpr List.mem_cons_self)
  have others : ∀ other ∈ rest, other.job ∈ jobs ∧ other.IsSound policy service :=
    fun other listed => stages other (before.mem_iff.mpr (List.mem_cons_of_mem stage listed))
  have listed : flight.keys.Perm (stage.key :: rest.map Stage.key) := before.map Stage.key
  have leaves := steps.moves.leaves sound
  cases behind with
  | @running active shape same =>
      obtain ⟨own, ownSound, fewer⟩ := leaves
      have behindKeys : next.keys.Perm (stage.key :: rest.map Stage.key) := by
        have mapped := shape.map Stage.key
        rw [List.map_cons, show (Stage.active active).key = stage.key from congrArg Job.key own]
          at mapped
        exact mapped
      refine ⟨?_, fun other listed => ?_, same ▸ settled⟩
      · rw [same]
        exact ((behindKeys.trans listed.symm).append_left _).trans keys
      · rcases List.mem_cons.mp (shape.mem_iff.mp listed) with rfl | further
        · refine ⟨?_, ownSound⟩
          rw [show (Stage.active active).job = stage.job from own]
          exact member
        · exact others other further
  | @settled outcome session shape same released =>
      have reached : policy.Outcome service stage.job.request outcome := by
        cases leaves
        assumption
      have behindKeys : next.keys.Perm (rest.map Stage.key) := shape.map Stage.key
      refine ⟨?_, fun other listed => others other (shape.mem_iff.mp listed), ?_⟩
      · rw [same, List.map_append, List.append_assoc]
        exact ((behindKeys.cons stage.key).trans listed.symm |>.append_left _).trans keys
      · intro entry listed
        rw [same] at listed
        rcases List.mem_append.mp listed with old | new
        · exact settled entry old
        · rw [List.mem_singleton.mp new]
          exact ⟨stage.job, member, rfl, reached⟩

def stepsLeft (policy : RetryPolicy) (flight : Flight σ) : Nat :=
  total (flight.stages.map (Stage.stepsLeft policy))

theorem IsOf.stepsLeft_lt (known : flight.IsOf policy service jobs)
    (steps : flight.Steps policy service stage result next) :
    next.stepsLeft policy < flight.stepsLeft policy := by
  obtain ⟨rest, before, behind⟩ := steps.exists_rest
  have sound := (known.stages stage (before.mem_iff.mpr List.mem_cons_self)).2
  have leaves := steps.moves.leaves sound
  have sum : flight.stepsLeft policy =
      stage.stepsLeft policy + total (rest.map (Stage.stepsLeft policy)) :=
    total_perm (before.map _)
  cases behind with
  | @running active shape same =>
      obtain ⟨own, ownSound, fewer⟩ := leaves
      have behindSum : next.stepsLeft policy = (Stage.active active).stepsLeft policy +
          total (rest.map (Stage.stepsLeft policy)) := total_perm (shape.map _)
      omega
  | settled shape same released =>
      have behindSum : next.stepsLeft policy = total (rest.map (Stage.stepsLeft policy)) :=
        total_perm (shape.map _)
      have some : 0 < stage.stepsLeft policy := by
        cases sound with
        | queued => exact Nat.succ_pos _
        | answered allowed some given => exact Nat.succ_pos _
        | pausing more retried =>
            simp only [Stage.stepsLeft]
            omega
        | rested more retried =>
            simp only [Stage.stepsLeft]
            omega
      omega

theorem hasLanded_iff : flight.hasLanded = true ↔ flight.stages = [] := by
  simp [hasLanded, stages, and_comm]

/-- A run with enough steps lands. -/
theorem IsOf.hasLanded_run (known : flight.IsOf policy service jobs) (schedule : Schedule σ)
    {steps : Nat} (enough : flight.stepsLeft policy ≤ steps) :
    (flight.run policy service schedule steps).hasLanded = true := by
  induction steps generalizing flight with
  | zero =>
      by_contra flying
      obtain ⟨stage, result, -, moved⟩ :=
        flight.steps_step policy service 0 (eq_false_of_ne_true flying)
      have fewer := known.stepsLeft_lt moved
      omega
  | succ steps ih =>
      rw [run]
      split
      · next landed => exact landed
      · next flying =>
          obtain ⟨stage, result, -, moved⟩ := flight.steps_step policy service (schedule flight)
            (eq_false_of_ne_true flying)
          have fewer := known.stepsLeft_lt moved
          exact ih (known.step moved) (by omega)

/-- A run makes no requests but those of the jobs of the flight. -/
theorem IsOf.continues_run (known : flight.IsOf policy service jobs) (schedule : Schedule σ)
    (steps : Nat) :
    Continues (jobs.map Job.request) flight.session
      (flight.run policy service schedule steps).session := by
  have kept : (flight.run policy service schedule steps).IsOf policy service jobs ∧
      Continues (jobs.map Job.request) flight.session
        (flight.run policy service schedule steps).session := by
    refine run_keeps (fun next => next.IsOf policy service jobs ∧
      Continues (jobs.map Job.request) flight.session next.session) ?_ schedule steps
      ⟨known, (Continues.refl flight.session).mono (List.nil_subset _)⟩
    intro middle stage result next steps ⟨of, continues⟩
    refine ⟨of.step steps, continues.trans ?_⟩
    obtain ⟨rest, before, behind⟩ := steps.exists_rest
    have own := (of.stages stage (before.mem_iff.mpr List.mem_cons_self)).1
    have moved : Continues (jobs.map Job.request) middle.session result.2 :=
      steps.moves.continues.mono (by simpa using ⟨stage.job, own, rfl⟩)
    cases behind with
    | running shape same => exact moved
    | @settled outcome session shape same released =>
        rw [released]
        exact moved.trans ((session.continues_release _).mono (List.nil_subset _))
  exact kept.2

theorem stepsLeft_start (policy : RetryPolicy) (jobs : List Job) (session : Session σ) :
    stepsLeft policy { session, queue := jobs } =
      jobs.length * (3 * policy.attempts.toNat + 1) := by
  simp only [stepsLeft, stages, List.map_nil, List.nil_append, List.map_map]
  induction jobs with
  | nil => simp
  | cons job rest ih =>
      rw [List.map_cons, total_cons, ih, List.length_cons, Nat.add_mul, Nat.one_mul]
      exact Nat.add_comm _ _

end Landing

end Flight

section Flying

/-- What settling makes of some jobs: an outcome for each. -/
structure SettledOf (policy : RetryPolicy) (service : Service σ) (jobs : List Job)
    (settled : List Settled) : Prop where
  keys : (settled.map Settled.key).Perm (jobs.map Job.key)
  outcome : ∀ entry ∈ settled, ∃ job ∈ jobs, entry.key = job.key ∧
    policy.Outcome service job.request entry.outcome

theorem fly_isOf (policy : RetryPolicy) (service : Service σ) (schedule : Schedule σ)
    (jobs : List Job) (session : Session σ) :
    (policy.fly service schedule jobs session).IsOf policy service jobs :=
  Flight.run_keeps _ (fun _ _ _ _ steps known => known.step steps) schedule _
    (Flight.isOf_start policy service jobs session)

theorem fly_stages (policy : RetryPolicy) (service : Service σ) (schedule : Schedule σ)
    (jobs : List Job) (session : Session σ) :
    (policy.fly service schedule jobs session).stages = [] :=
  Flight.hasLanded_iff.mp ((Flight.isOf_start policy service jobs session).hasLanded_run schedule
    (Flight.stepsLeft_start policy jobs session).le)

/-- Every job of a flight settles once, with what the service made of its request. -/
theorem fly_settledOf (policy : RetryPolicy) (service : Service σ) (schedule : Schedule σ)
    (jobs : List Job) (session : Session σ) :
    SettledOf policy service jobs (policy.fly service schedule jobs session).settled := by
  obtain ⟨keys, -, settled⟩ := fly_isOf policy service schedule jobs session
  rw [Flight.keys, fly_stages, List.map_nil, List.append_nil] at keys
  exact ⟨keys, settled⟩

/-- A flight makes no requests but those of its jobs. -/
theorem fly_continues (policy : RetryPolicy) (service : Service σ) (schedule : Schedule σ)
    (jobs : List Job) (session : Session σ) :
    Continues (jobs.map Job.request) session (policy.fly service schedule jobs session).session :=
  (Flight.isOf_start policy service jobs session).continues_run schedule _

/-- The keys of jobs that have landed are in flight no longer, and all others still are. -/
theorem fly_inFlight (policy : RetryPolicy) (service : Service σ) (schedule : Schedule σ)
    (jobs : List Job) (session : Session σ) :
    (policy.fly service schedule jobs session).session.inFlight =
      session.inFlight.filter fun key => key ∉ jobs.map Job.key := by
  have kept : (policy.fly service schedule jobs session).session.inFlight =
      session.inFlight.filter fun key =>
        key ∉ (policy.fly service schedule jobs session).settled.map Settled.key := by
    refine Flight.run_keeps (fun flight => flight.session.inFlight =
      session.inFlight.filter fun key => key ∉ flight.settled.map Settled.key) ?_ schedule _ ?_
    · intro flight stage result next steps known
      obtain ⟨rest, before, behind⟩ := steps.exists_rest
      have moved := steps.moves.inFlight
      cases behind with
      | running shape same => rw [same, moved, known]
      | @settled outcome session shape same released =>
          rw [released, same, Session.release, moved, known, List.filter_filter]
          refine List.filter_congr fun key _ => ?_
          simp [Bool.and_comm]
    · exact (List.filter_eq_self.mpr (by simp)).symm
  rw [kept]
  have keys := (fly_settledOf policy service schedule jobs session).keys
  exact List.filter_congr fun key _ => by simp only [keys.mem_iff]

end Flying

end CodeProse
