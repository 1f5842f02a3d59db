import CodeProse.Proofs.Service.Flights

/-!
# The course of a flight

Each job of a flight that nothing cancels goes through a loop of its own: it makes its request, and
pauses, up to the reply that decides it or to the last attempt. The loops may overlap in any way, but
nothing else takes place in the flight. The loop of a single request makes its attempts with pauses
that double.
-/

set_option autoImplicit false

namespace CodeProse

variable {σ : Type}

/-- What takes place in a session: a request and the reply to it, or a pause before a retry. -/
inductive Event where
  | asked (request : Request) (reply : Reply)
  | slept (delay : Binary64)

namespace Event

def exchange? : Event → Option (Request × Reply)
  | .asked request reply => some (request, reply)
  | .slept _ => none

def delay? : Event → Option Binary64
  | .asked _ _ => none
  | .slept delay => some delay

end Event

section Undergoing

/-- A session that nothing has cancelled when all these events have taken place. -/
structure Session.Undergoes (service : Service σ) (events : List Event) (before after : Session σ) :
    Prop where
  serves : service.Serves before.service (events.filterMap Event.exchange?) after.service
  requests :
    after.requests = before.requests ++ (events.filterMap Event.exchange?).map Prod.fst
  sleeps : after.sleeps = before.sleeps ++ events.filterMap Event.delay?
  signal : after.signal = before.signal
  pauses : after.pauses = before.pauses

namespace Session

variable {service : Service σ} {before middle after session : Session σ} {events more : List Event}

theorem Undergoes.refl (service : Service σ) (session : Session σ) :
    Undergoes service [] session session :=
  ⟨.nothing, by simp, by simp, rfl, rfl⟩

theorem Undergoes.trans (first : Undergoes service events before middle)
    (second : Undergoes service more middle after) :
    Undergoes service (events ++ more) before after where
  serves := by
    rw [List.filterMap_append]
    exact first.serves.append second.serves
  requests := by
    rw [second.requests, first.requests, List.filterMap_append, List.map_append,
      List.append_assoc]
  sleeps := by rw [second.sleeps, first.sleeps, List.filterMap_append, List.append_assoc]
  signal := second.signal.trans first.signal
  pauses := second.pauses.trans first.pauses

/-- A signal that is not raised behind an event was not changed by it. -/
theorem map_raiseIf_of_isCancelled {signal : Option CancelSignal} {hit : CancelSignal → Bool}
    (calm : (signal.map fun signal => signal.raiseIf (hit signal)).any CancelSignal.raised = false) :
    signal.map (fun signal => signal.raiseIf (hit signal)) = signal := by
  cases signal with
  | none => rfl
  | some signal =>
      obtain ⟨-, unhit⟩ := Bool.or_eq_false_iff.mp calm
      simp [CancelSignal.raiseIf, unhit]

theorem ask_undergoes (request : Request)
    (uncancelled : (session.ask service request).2.isCancelled = false) :
    Undergoes service [.asked request (session.ask service request).1] session
      (session.ask service request).2 where
  serves := .reply rfl .nothing
  requests := rfl
  sleeps := (List.append_nil _).symm
  signal := map_raiseIf_of_isCancelled uncancelled
  pauses := rfl

theorem log_undergoes (component : Text) (severity : Severity) (message : Text) :
    Undergoes service [] session (session.log component severity message) :=
  ⟨.nothing, by simp [log], by simp [log], rfl, rfl⟩

theorem release_undergoes (key : Text) :
    Undergoes service [] session (session.release key) :=
  ⟨.nothing, by simp [release], by simp [release], rfl, rfl⟩

theorem sleep_undergoes (delay : Binary64)
    (uncancelled : (session.sleep delay).isCancelled = false) :
    Undergoes service [.slept delay] session (session.sleep delay) where
  serves := .nothing
  requests := (List.append_nil _).symm
  sleeps := rfl
  signal := map_raiseIf_of_isCancelled uncancelled
  pauses := rfl

end Session

end Undergoing

open Session (Undergoes)

section Loops

namespace RetryPolicy

/-- What takes place in a loop of attempts, from the one with a number on: a request for each reply,
and a pause behind all but the last of them. -/
def events (policy : RetryPolicy) (request : Request) : Nat → List Reply → List Event
  | _, [] => []
  | _, [reply] => [.asked request reply]
  | attempt, reply :: next :: replies =>
      .asked request reply :: .slept (policy.pauseAfter attempt) ::
        events policy request (attempt + 1) (next :: replies)

variable {policy : RetryPolicy}

theorem events_cons {replies : List Reply} (some : replies ≠ []) (request : Request) (attempt : Nat)
    (reply : Reply) :
    policy.events request attempt (reply :: replies) =
      .asked request reply :: .slept (policy.pauseAfter attempt) ::
        policy.events request (attempt + 1) replies := by
  cases replies with
  | nil => exact absurd rfl some
  | cons next replies => rfl

theorem exchanges_events (policy : RetryPolicy) (request : Request) (attempt : Nat)
    (replies : List Reply) :
    (policy.events request attempt replies).filterMap Event.exchange? =
      replies.map fun reply => (request, reply) := by
  induction replies generalizing attempt with
  | nil => rfl
  | cons reply replies ih =>
      by_cases none : replies = []
      · rw [none]
        rfl
      · rw [events_cons none, List.map_cons, ← ih (attempt + 1)]
        rfl

theorem delays_events (policy : RetryPolicy) (request : Request) (attempt : Nat)
    (replies : List Reply) :
    (policy.events request attempt replies).filterMap Event.delay? =
      (List.range (replies.length - 1)).map fun retry => policy.pauseAfter (attempt + retry) := by
  induction replies generalizing attempt with
  | nil => rfl
  | cons reply replies ih =>
      cases replies with
      | nil => rfl
      | cons next replies =>
          have later := ih (attempt + 1)
          refine (congrArg (policy.pauseAfter attempt :: ·) later).trans ?_
          show _ = (List.range (replies.length + 1)).map _
          rw [List.range_succ_eq_map, List.map_cons, List.map_map]
          refine congrArg (policy.pauseAfter attempt :: ·) ?_
          refine List.map_congr_left fun retry _ => ?_
          exact congrArg policy.pauseAfter (Nat.add_right_comm attempt 1 retry)

end RetryPolicy

/-- What takes place from a stage of a job on, and the outcome that it comes to: what is left of the
loop of the job. -/
def Stage.Concludes (policy : RetryPolicy) (events : List Event) (outcome : Except Failure Text) :
    Stage → Prop
  | .queued job =>
      ∃ replies, policy.Attempts 1 replies outcome ∧ events = policy.events job.request 1 replies
  | .active ⟨job, attempt, .answered reply⟩ =>
      ∃ replies, policy.Attempts attempt (reply :: replies) outcome ∧
        .asked job.request reply :: events = policy.events job.request attempt (reply :: replies)
  | .active ⟨job, attempt, .pausing _⟩ =>
      ∃ replies, policy.Attempts (attempt + 1) replies outcome ∧
        events = .slept (policy.pauseAfter attempt) ::
          policy.events job.request (attempt + 1) replies
  | .active ⟨job, attempt, .rested _⟩ =>
      ∃ replies, policy.Attempts (attempt + 1) replies outcome ∧
        events = policy.events job.request (attempt + 1) replies

variable {policy : RetryPolicy} {service : Service σ} {session : Session σ} {stage : Stage}
  {result : Progress × Session σ}

/-- What a step contributes to the loop of its job: the job goes on behind it, or the loop is
over. -/
inductive Stage.Contributes (policy : RetryPolicy) (stage : Stage) (events : List Event) :
    Progress → Prop where
  | running {active : ActiveJob}
      (further : ∀ later outcome, (Stage.active active).Concludes policy later outcome →
        stage.Concludes policy (events ++ later) outcome) :
      Contributes policy stage events (.running active)
  | settled {outcome : Except Failure Text} (concludes : stage.Concludes policy events outcome) :
      Contributes policy stage events (.settled outcome)

/-- A step behind which nothing is cancelled is a part of the loop of its job. -/
theorem RetryPolicy.Moves.contributes (moves : policy.Moves service session stage result)
    (sound : stage.IsSound policy service) (uncancelled : result.2.isCancelled = false) :
    ∃ events, Undergoes service events session result.2 ∧
      stage.Contributes policy events result.1 ∧
      (0 < policy.attempts → ∀ job, stage = .queued job → events ≠ []) := by
  cases moves with
  | barred none =>
      exact ⟨[], .refl service session, .settled ⟨[], .unasked (by omega), rfl⟩,
        fun some => absurd some (Int.not_lt.mpr none)⟩
  | asks some =>
      refine ⟨_, Session.ask_undergoes _ uncancelled, .running fun later outcome further => ?_,
        fun _ _ _ => List.cons_ne_nil _ _⟩
      obtain ⟨replies, attempts, same⟩ := further
      exact ⟨_ :: replies, attempts, same⟩
  | decided decides =>
      cases sound with
      | answered allowed some given =>
          exact ⟨[], .refl service session, .settled ⟨[], .last allowed (.decided decides), rfl⟩,
            by simp⟩
  | @ends job attempt reply failure final fails ended =>
      cases sound with
      | answered allowed some given =>
          have next := policy.afterFailure_cases attempt fails
          rw [show session.isCancelled = false from uncancelled] at ended
          rw [ended] at next
          exact ⟨[], Session.log_undergoes _ _ _, .settled ⟨[], .last allowed next, rfl⟩, by simp⟩
  | @waits job attempt reply failure fails goesOn =>
      have next := policy.afterFailure_cases attempt fails
      rw [show session.isCancelled = false from uncancelled] at goesOn
      rw [goesOn] at next
      refine ⟨[], Session.log_undergoes _ _ _, .running fun later outcome further => ?_, by simp⟩
      obtain ⟨replies, attempts, rfl⟩ := further
      have some := attempts.ne_nil next.more
      exact ⟨replies, .again next attempts, (policy.events_cons some _ _ _).symm⟩
  | pauses =>
      refine ⟨_, Session.sleep_undergoes _ uncancelled, .running fun later outcome further => ?_,
        by simp⟩
      obtain ⟨replies, attempts, rfl⟩ := further
      exact ⟨replies, attempts, rfl⟩
  | withdraws cancelled => exact absurd cancelled (ne_true_of_eq_false uncancelled)
  | retries before =>
      refine ⟨_, Session.ask_undergoes _ uncancelled, .running fun later outcome further => ?_,
        by simp⟩
      obtain ⟨replies, attempts, same⟩ := further
      exact ⟨_ :: replies, attempts, same⟩

end Loops

section Flying

/-- Events of several jobs, each with the key of its job. -/
abbrev Chronicle := List (Text × Event)

namespace Chronicle

/-- The events of the job with a key. -/
def of (key : Text) (chronicle : Chronicle) : List Event :=
  chronicle.filterMap fun entry => if entry.1 = key then some entry.2 else none

def keys (chronicle : Chronicle) : List Text :=
  chronicle.map Prod.fst

def events (chronicle : Chronicle) : List Event :=
  chronicle.map Prod.snd

/-- Events of one job. -/
def tagged (key : Text) (events : List Event) : Chronicle :=
  events.map fun event => (key, event)

variable {key other : Text} {chronicle : Chronicle} {events : List Event}

theorem of_tagged_append (key : Text) (events : List Event) (chronicle : Chronicle) :
    of key (tagged key events ++ chronicle) = events ++ of key chronicle := by
  simp [of, tagged]

theorem of_tagged_append_of_ne (differs : key ≠ other) (events : List Event) (chronicle : Chronicle) :
    of other (tagged key events ++ chronicle) = of other chronicle := by
  simp [of, tagged, differs]

theorem of_eq_nil (foreign : key ∉ chronicle.keys) : of key chronicle = [] := by
  refine List.filterMap_eq_nil_iff.mpr fun entry member => if_neg fun same => foreign ?_
  exact List.mem_map.mpr ⟨entry, member, same⟩

theorem of_eq_events (all : chronicle.keys ⊆ [key]) : of key chronicle = chronicle.events := by
  have own : ∀ entry ∈ chronicle,
      (if entry.1 = key then some entry.2 else none) = some entry.2 := fun entry member =>
    if_pos (List.mem_singleton.mp (all (List.mem_map_of_mem member)))
  rw [of, List.filterMap_congr own, List.filterMap_eq_map']
  rfl

theorem events_tagged_append (key : Text) (events : List Event) (chronicle : Chronicle) :
    Chronicle.events (tagged key events ++ chronicle) = events ++ chronicle.events := by
  simp [Chronicle.events, tagged, Function.comp_def]

theorem keys_tagged_append (key : Text) (events : List Event) (chronicle : Chronicle) :
    keys (tagged key events ++ chronicle) = (events.map fun _ => key) ++ chronicle.keys := by
  simp [keys, tagged, Function.comp_def]

/-- The first events among those of some jobs are those of the first job. -/
theorem eraseDups_keys_tagged_append {queue : List Text} (fresh : key ∉ queue) (some : events ≠ [])
    (later : (chronicle.keys.filter (· ∈ queue)).eraseDups = queue) :
    ((keys (tagged key events ++ chronicle)).filter (· ∈ key :: queue)).eraseDups = key :: queue := by
  obtain ⟨event, more, rfl⟩ := List.exists_cons_of_ne_nil some
  have others : ((chronicle.keys.filter (· ∈ key :: queue)).filter fun name => !name == key) =
      chronicle.keys.filter (· ∈ queue) := by
    rw [List.filter_filter]
    refine List.filter_congr fun name _ => ?_
    by_cases same : name = key
    · simp [same, fresh]
    · simp [same]
  have own : ((more.map fun _ => key).filter fun name => !name == key) = [] := by simp
  rw [keys_tagged_append, List.filter_append, List.filter_eq_self.mpr (by simp), List.map_cons,
    List.cons_append, List.eraseDups_cons, List.filter_append, own, others, List.nil_append, later]

end Chronicle

namespace Flight

variable {policy : RetryPolicy} {service : Service σ} {flight next final : Flight σ}
  {stage : Stage} {result : Progress × Session σ} {jobs : List Job} {chronicle : Chronicle}

/-- A flight lands after what a chronicle tells: every job comes to the end of its loop, and nothing
else takes place. The jobs in the queue start in its order. -/
structure Lands (policy : RetryPolicy) (service : Service σ) (flight : Flight σ) (chronicle : Chronicle)
    (final : Flight σ) : Prop where
  undergoes : Undergoes service chronicle.events flight.session final.session
  keys : chronicle.keys ⊆ flight.keys
  concludes : ∀ stage ∈ flight.stages, ∃ outcome, ⟨stage.key, outcome⟩ ∈ final.settled ∧
    stage.Concludes policy (chronicle.of stage.key) outcome
  order : 0 < policy.attempts →
    (chronicle.keys.filter (· ∈ flight.queue.map Job.key)).eraseDups = flight.queue.map Job.key

theorem lands_of_stages_eq_nil (landed : flight.stages = []) :
    flight.Lands policy service [] flight where
  undergoes := .refl service flight.session
  keys := List.nil_subset _
  concludes := by simp [landed]
  order := by
    have none : flight.queue = [] := by simpa [stages] using (List.append_eq_nil_iff.mp landed).2
    simp [none, Chronicle.keys]

theorem settled_subset_run (policy : RetryPolicy) (service : Service σ) (schedule : Schedule σ)
    (steps : Nat) (flight : Flight σ) :
    flight.settled ⊆ (flight.run policy service schedule steps).settled := by
  refine run_keeps (fun next => flight.settled ⊆ next.settled) ?_ schedule steps
    (List.Subset.refl _)
  intro middle stage result next steps known
  obtain ⟨rest, before, behind⟩ := steps.exists_rest
  cases behind with
  | running shape same => rwa [same]
  | settled shape same released =>
      rw [same]
      exact List.Subset.trans known (List.subset_append_left _ _)

/-- A job that takes a step leaves the queue, or was not in it. -/
theorem Steps.queue (steps : flight.Steps policy service stage result next) :
    (∃ job, stage = .queued job ∧ flight.queue = job :: next.queue) ∨
      (∃ active, stage = .active active) ∧ next.queue = flight.queue := by
  cases steps with
  | @starts job queue result first moves =>
      refine .inl ⟨job, rfl, ?_⟩
      rw [first]
      cases result with
      | mk progress session => cases progress <;> rfl
  | @advances active rest result picked moves =>
      refine .inr ⟨⟨active, rfl⟩, ?_⟩
      cases result with
      | mk progress session => cases progress <;> rfl

theorem keys_eq (flight : Flight σ) :
    flight.keys = (flight.active.map fun active => active.job.key) ++ flight.queue.map Job.key := by
  simp [keys, stages, Function.comp_def, Stage.key, Stage.job]

theorem IsOf.nodup_keys (known : flight.IsOf policy service jobs)
    (unique : (jobs.map Job.key).Nodup) : flight.keys.Nodup :=
  (List.nodup_append.mp (known.keys.nodup_iff.mpr unique)).2.1

theorem not_mem_queue_of_active {active : ActiveJob} (distinct : flight.keys.Nodup)
    (known : .active active ∈ flight.stages) : active.job.key ∉ flight.queue.map Job.key := by
  have listed : active ∈ flight.active := by simpa [stages] using known
  rw [keys_eq] at distinct
  exact fun waiting => (List.nodup_append.mp distinct).2.2 _
    (List.mem_map.mpr ⟨active, listed, rfl⟩) _ waiting rfl

theorem Takes.keys_subset {rest : List Stage} (behind : flight.Takes next stage rest result)
    (own : policy.Leaves service stage result.1) :
    next.keys ⊆ stage.key :: rest.map Stage.key := by
  cases behind with
  | @running active shape same =>
      cases own with
      | running job sound fewer =>
          have key : (Stage.active active).key = stage.key := congrArg Job.key job
          have listed := (shape.map Stage.key).subset
          rwa [List.map_cons, key] at listed
  | settled shape same released =>
      exact List.Subset.trans (shape.map Stage.key).subset (List.subset_cons_self _ _)

/-- The job of a step comes to the end of its loop. -/
theorem Takes.concludes {rest : List Stage} {events : List Event}
    (behind : flight.Takes next stage rest result)
    (own : policy.Leaves service stage result.1)
    (contributes : stage.Contributes policy events result.1) (alone : stage.key ∉ rest.map Stage.key)
    (kept : next.settled ⊆ final.settled) (lands : next.Lands policy service chronicle final) :
    ∃ outcome, ⟨stage.key, outcome⟩ ∈ final.settled ∧
      stage.Concludes policy (events ++ chronicle.of stage.key) outcome := by
  cases behind with
  | @running active shape same =>
      obtain ⟨outcome, settled, further⟩ :=
        lands.concludes (.active active) (shape.mem_iff.mpr List.mem_cons_self)
      cases own with
      | running job sound fewer =>
          have key : (Stage.active active).key = stage.key := congrArg Job.key job
          rw [key] at settled further
          cases contributes with
          | running goesOn => exact ⟨outcome, settled, goesOn _ _ further⟩
  | @settled outcome session shape same released =>
      have gone : stage.key ∉ chronicle.keys := fun known =>
        alone ((shape.map Stage.key).mem_iff.mp (lands.keys known))
      rw [Chronicle.of_eq_nil gone, List.append_nil]
      cases contributes with
      | settled concludes => exact ⟨outcome, kept (by simp [same]), concludes⟩

/-- A step that nothing cancels comes before what is left of the chronicle. -/
theorem Steps.exists_lands (known : flight.IsOf policy service jobs)
    (unique : (jobs.map Job.key).Nodup) (steps : flight.Steps policy service stage result next)
    (uncancelled : next.session.isCancelled = false) (kept : next.settled ⊆ final.settled)
    (lands : next.Lands policy service chronicle final) :
    ∃ longer, flight.Lands policy service longer final := by
  obtain ⟨rest, before, behind⟩ := steps.exists_rest
  have sound := (known.stages stage (before.mem_iff.mpr List.mem_cons_self)).2
  have distinct := known.nodup_keys unique
  -- No other job has the key of the one that takes the step.
  have keys : flight.keys.Perm (stage.key :: rest.map Stage.key) := before.map Stage.key
  have alone : stage.key ∉ rest.map Stage.key :=
    (List.nodup_cons.mp (keys.nodup_iff.mp distinct)).1
  obtain ⟨events, undergone, contributes, asks⟩ :
      ∃ events, Undergoes service events flight.session next.session ∧
        stage.Contributes policy events result.1 ∧
        (0 < policy.attempts → ∀ job, stage = .queued job → events ≠ []) := by
    cases behind with
    | running shape same => exact steps.moves.contributes sound uncancelled
    | @settled outcome session shape same released =>
        have calm : session.isCancelled = false := by
          rw [released] at uncancelled
          exact uncancelled
        obtain ⟨events, undergone, contributes, asks⟩ := steps.moves.contributes sound calm
        have landed := undergone.trans (Session.release_undergoes stage.key)
        rw [List.append_nil, ← released] at landed
        exact ⟨events, landed, contributes, asks⟩
  have leaves := steps.moves.leaves sound
  have own := behind.concludes leaves contributes alone kept lands
  have others : ∀ other ∈ rest, other ∈ next.stages := by
    intro other member
    cases behind with
    | running shape same => exact shape.mem_iff.mpr (List.mem_cons_of_mem _ member)
    | settled shape same released => exact shape.mem_iff.mpr member
  refine ⟨Chronicle.tagged stage.key events ++ chronicle, ?_, ?_, ?_, ?_⟩
  · rw [Chronicle.events_tagged_append]
    exact undergone.trans lands.undergoes
  · rw [Chronicle.keys_tagged_append]
    refine List.append_subset.mpr ⟨?_, ?_⟩
    · intro key member
      obtain ⟨event, -, rfl⟩ := List.mem_map.mp member
      exact keys.mem_iff.mpr List.mem_cons_self
    · exact List.Subset.trans lands.keys
        (List.Subset.trans (behind.keys_subset leaves) keys.symm.subset)
  · intro other member
    rcases List.mem_cons.mp (before.mem_iff.mp member) with rfl | further
    · rw [Chronicle.of_tagged_append]
      exact own
    · have differs : stage.key ≠ other.key := fun same =>
        alone (List.mem_map.mpr ⟨other, further, same.symm⟩)
      rw [Chronicle.of_tagged_append_of_ne differs]
      exact lands.concludes other (others other further)
  · intro some
    rcases steps.queue with ⟨job, rfl, queue⟩ | ⟨⟨active, rfl⟩, queue⟩
    · rw [keys_eq, queue] at distinct
      have fresh : job.key ∉ next.queue.map Job.key :=
        (List.nodup_cons.mp (List.nodup_append.mp distinct).2.1).1
      rw [queue]
      exact Chronicle.eraseDups_keys_tagged_append fresh (asks some job rfl) (lands.order some)
    · have foreign : (Stage.active active).key ∉ flight.queue.map Job.key :=
        not_mem_queue_of_active distinct (before.mem_iff.mpr List.mem_cons_self)
      have none : ((events.map fun _ => (Stage.active active).key).filter
          (· ∈ flight.queue.map Job.key)) = [] := by
        refine List.filter_eq_nil_iff.mpr fun key member => ?_
        obtain ⟨event, -, rfl⟩ := List.mem_map.mp member
        simpa only [decide_eq_true_eq] using foreign
      rw [Chronicle.keys_tagged_append, List.filter_append, none, List.nil_append, ← queue]
      exact lands.order some

/-- A run that lands uncancelled takes every job of the flight to the end of its loop. -/
theorem exists_lands_run (known : flight.IsOf policy service jobs)
    (unique : (jobs.map Job.key).Nodup) (schedule : Schedule σ) (steps : Nat)
    (landed : (flight.run policy service schedule steps).stages = [])
    (uncancelled : (flight.run policy service schedule steps).session.isCancelled = false) :
    ∃ chronicle, flight.Lands policy service chronicle (flight.run policy service schedule steps) := by
  induction steps generalizing flight with
  | zero => exact ⟨[], lands_of_stages_eq_nil landed⟩
  | succ steps ih =>
      rw [run] at landed uncancelled ⊢
      split
      · next landed' => exact ⟨[], lands_of_stages_eq_nil (hasLanded_iff.mp landed')⟩
      · next flying =>
          rw [if_neg flying] at landed uncancelled
          obtain ⟨stage, result, -, moved⟩ := flight.steps_step policy service (schedule flight)
            (eq_false_of_ne_true flying)
          have behind := known.step moved
          obtain ⟨chronicle, lands⟩ := ih behind landed uncancelled
          exact moved.exists_lands known unique
            ((behind.continues_run schedule steps).uncancelled uncancelled)
            (settled_subset_run policy service schedule steps _) lands

end Flight

end Flying

section Loops

variable {policy : RetryPolicy} {service : Service σ} {schedule : Schedule σ} {jobs : List Job}
  {session : Session σ}

/-- What became of a job: the replies to its requests, and its outcome. -/
structure Loop where
  key : Text
  request : Request
  replies : List Reply
  outcome : Except Failure Text

namespace Loop

/-- What a loop is about: the key and the request of its job. -/
def subject (loop : Loop) : Text × Request :=
  (loop.key, loop.request)

def settled (loop : Loop) : Settled :=
  ⟨loop.key, loop.outcome⟩

def events (policy : RetryPolicy) (loop : Loop) : List Event :=
  policy.events loop.request 1 loop.replies

end Loop

def Job.subject (job : Job) : Text × Request :=
  (job.key, job.request)

/-- The loops of some jobs, with the outcomes that they come to and the chronicle of them all. Each
of them is a part of the chronicle, which tells of nothing else, and they start in the order of the
jobs. -/
structure RetryPolicy.Loops (policy : RetryPolicy) (jobs : List Job) (settled : List Settled)
    (chronicle : Chronicle) (loops : List Loop) : Prop where
  subjects : loops.map Loop.subject = jobs.map Job.subject
  attempts : ∀ loop ∈ loops, policy.Attempts 1 loop.replies loop.outcome
  settled : settled.Perm (loops.map Loop.settled)
  events : ∀ loop ∈ loops, chronicle.of loop.key = loop.events policy
  only : chronicle.keys ⊆ loops.map Loop.key
  order : 0 < policy.attempts → chronicle.keys.eraseDups = loops.map Loop.key

/-- The loop of a job of a flight. -/
structure Job.HasLoop (policy : RetryPolicy) (settled : List Settled) (chronicle : Chronicle)
    (job : Job) (loop : Loop) : Prop where
  subject : loop.subject = job.subject
  attempts : policy.Attempts 1 loop.replies loop.outcome
  settled : loop.settled ∈ settled
  events : chronicle.of loop.key = loop.events policy

/-- Jobs with different keys that take off together, and that nothing cancels, go through their
loops. -/
theorem fly_loops (unique : (jobs.map Job.key).Nodup)
    (uncancelled : (policy.fly service schedule jobs session).session.isCancelled = false) :
    ∃ chronicle loops,
      policy.Loops jobs (policy.fly service schedule jobs session).settled chronicle loops ∧
        Undergoes service chronicle.events session
          (policy.fly service schedule jobs session).session := by
  obtain ⟨chronicle, lands⟩ :=
    Flight.exists_lands_run (Flight.isOf_start policy service jobs session) unique schedule _
      (fly_stages policy service schedule jobs session) uncancelled
  have each : ∀ job ∈ jobs, ∃ loop, job.HasLoop policy
      (policy.fly service schedule jobs session).settled chronicle loop := by
    intro job member
    obtain ⟨outcome, settled, replies, attempts, events⟩ :=
      lands.concludes (.queued job) (by simpa [Flight.stages] using member)
    exact ⟨⟨job.key, job.request, replies, outcome⟩, rfl, attempts, settled, events⟩
  obtain ⟨loops, aligned⟩ := exists_forall₂ each
  have mine : ∀ loop ∈ loops, ∃ job ∈ jobs, job.HasLoop policy
      (policy.fly service schedule jobs session).settled chronicle loop :=
    fun loop member => exists_aligned_of_mem_right aligned member
  have subjects : loops.map Loop.subject = jobs.map Job.subject :=
    (map_eq_map_of_forall₂ Job.subject Loop.subject (fun _ _ has => has.subject.symm) aligned).symm
  have keys : loops.map Loop.key = jobs.map Job.key := by
    have firsts := congrArg (List.map Prod.fst) subjects
    rwa [List.map_map, List.map_map] at firsts
  have listed : Flight.keys { session, queue := jobs } = jobs.map Job.key := by
    rw [Flight.keys_eq]
    rfl
  have within : chronicle.keys ⊆ jobs.map Job.key := listed ▸ lands.keys
  refine ⟨chronicle, loops, ⟨subjects, ?_, ?_, ?_, ?_, ?_⟩, lands.undergoes⟩
  · intro loop member
    obtain ⟨job, -, has⟩ := mine loop member
    exact has.attempts
  · have distinct : (loops.map Loop.settled).Nodup := by
      refine List.Nodup.of_map Settled.key ?_
      rw [List.map_map]
      exact keys ▸ unique
    have some : loops.map Loop.settled ⊆ (policy.fly service schedule jobs session).settled := by
      intro entry member
      obtain ⟨loop, known, rfl⟩ := List.mem_map.mp member
      obtain ⟨job, -, has⟩ := mine loop known
      exact has.settled
    have lengths := (fly_settledOf policy service schedule jobs session).keys.length_eq
    refine ((List.subperm_of_subset distinct some).perm_of_length_le ?_).symm
    rw [List.length_map, List.length_map] at lengths
    rw [List.length_map, lengths, aligned.length_eq]
  · intro loop member
    obtain ⟨job, -, has⟩ := mine loop member
    exact has.events
  · exact keys ▸ within
  · intro some
    have order := lands.order some
    rw [List.filter_eq_self.mpr fun key member => decide_eq_true (within member)] at order
    exact order.trans keys.symm

/-- The loop of a job that takes off alone. -/
theorem fly_loop (policy : RetryPolicy) (service : Service σ) (schedule : Schedule σ) (job : Job)
    (session : Session σ)
    (uncancelled : (policy.fly service schedule [job] session).session.isCancelled = false) :
    ∃ replies outcome, policy.Attempts 1 replies outcome ∧
      (policy.fly service schedule [job] session).settled = [⟨job.key, outcome⟩] ∧
      Undergoes service (policy.events job.request 1 replies) session
        (policy.fly service schedule [job] session).session := by
  have unique : ([job].map Job.key).Nodup := List.nodup_singleton job.key
  obtain ⟨chronicle, loops, known, undergone⟩ := fly_loops unique uncancelled
  obtain ⟨loop, rfl, subject⟩ := List.map_eq_singleton_iff.mp known.subjects
  obtain ⟨loopKey, loopRequest, replies, outcome⟩ := loop
  obtain ⟨rfl, rfl⟩ := Prod.mk.inj subject
  have events := known.events _ List.mem_cons_self
  rw [Chronicle.of_eq_events known.only] at events
  rw [events] at undergone
  exact ⟨replies, outcome, known.attempts _ List.mem_cons_self,
    List.perm_singleton.mp known.settled, undergone⟩

end Loops

/-- The course of a request that is made until a reply decides it: all replies but the last one
fail, and the last one decides the request or fails at the last attempt. There is one request for
each reply and, between them, pauses of which each is twice as long as the last. -/
structure RetryPolicy.Course (policy : RetryPolicy) (service : Service σ) (request : Request)
    (before : Session σ) (failed : List Reply) (last : Reply) (outcome : Except Failure Text)
    (after : Session σ) : Prop where
  undergoes : Undergoes service (policy.events request 1 (failed ++ [last])) before after
  requests : after.requests = before.requests ++ List.replicate (failed.length + 1) request
  sleeps : after.sleeps = before.sleeps ++ (List.range failed.length).map policy.delay.scaled
  fails : ∀ reply ∈ failed, ∃ failure, Fails reply failure
  allowed : (failed.length + 1 : Int) ≤ policy.attempts
  ends : Decides last outcome ∨ (failed.length + 1 : Int) = policy.attempts ∧
    ∃ failure, Fails last failure ∧ outcome = .error failure

/-- A request that nothing cancels is made up to the first reply that decides it, or as often as is
allowed, and settles with what the last reply stands for. Where no attempt is allowed, nothing is
done. -/
theorem RetryPolicy.fly_course (policy : RetryPolicy) (service : Service σ) (schedule : Schedule σ)
    (key : Text) (request : Request) (session : Session σ) (few : policy.attempts ≤ 1025)
    (uncancelled :
      (policy.fly service schedule [⟨key, request⟩] session).session.isCancelled = false) :
    (policy.attempts ≤ 0 →
      (policy.fly service schedule [⟨key, request⟩] session).settled = [⟨key, .error .exhausted⟩] ∧
        (policy.fly service schedule [⟨key, request⟩] session).session = session.release key) ∧
    (0 < policy.attempts → ∃ failed last outcome,
      (policy.fly service schedule [⟨key, request⟩] session).settled = [⟨key, outcome⟩] ∧
        policy.Course service request session failed last outcome
          (policy.fly service schedule [⟨key, request⟩] session).session) := by
  constructor
  · intro none
    have spent : policy.attempts.toNat = 0 := Int.toNat_of_nonpos none
    simp [fly, spent, Flight.run, Flight.hasLanded, Flight.step, Flight.chosen, Flight.take, start,
      none]
  · intro some
    obtain ⟨replies, outcome, attempts, settled, undergone⟩ :=
      fly_loop policy service schedule ⟨key, request⟩ session uncancelled
    obtain ⟨failed, last, rfl, fails, length, ends⟩ := attempts.exists_last some few
    refine ⟨failed, last, outcome, settled, undergone, ?_, ?_, fails, by omega, ?_⟩
    · rw [undergone.requests, policy.exchanges_events, List.map_map]
      simp [Function.comp_def, List.replicate_succ']
    · rw [undergone.sleeps, policy.delays_events, List.length_append, List.length_singleton,
        Nat.add_sub_cancel]
      refine congrArg (session.sleeps ++ ·) (List.map_congr_left fun retry member => ?_)
      have before := List.mem_range.mp member
      exact policy.pauseAfter_one_add (by omega)
    · exact ends.imp_right fun spent => ⟨by omega, spent.2⟩

/-- A service that fails, then has nothing to say, and answers from then on. -/
def hesitantService : Service Nat where
  reply := fun calls _ =>
    (match calls with
      | 0 => .error (.reported .transient "busy")
      | 1 => .ok (some " ")
      | _ => .ok (some "the"), calls + 1)

/-- The flight of a misspelt word that the hesitant service is asked about up to four times. -/
def hesitantFlight : Flight Nat :=
  RetryPolicy.fly { attempts := 4 } hesitantService .inTurn [⟨"teh", ⟨"teh", false, none⟩⟩]
    { service := 0 }

/-- The third of four attempts has an answer, behind a pause and one that is twice as long. -/
theorem RetryPolicy.fly_course_hesitantFlight :
    ∃ failed last, hesitantFlight.settled = [⟨"teh", .ok "the"⟩] ∧
      RetryPolicy.Course { attempts := 4 } hesitantService ⟨"teh", false, none⟩ { service := 0 }
        failed last (.ok "the") hesitantFlight.session ∧
      failed.length = 2 ∧ hesitantFlight.session.sleeps = [1, 2] := by
  have ran : (hesitantFlight.settled.map fun entry => entry.outcome.toOption,
      hesitantFlight.session.sleeps) = ([some "the".toText], [1, 2]) := by
    decide +kernel
  obtain ⟨answer, slept⟩ := Prod.mk.inj ran
  obtain ⟨failed, last, outcome, settled, course⟩ :=
    (RetryPolicy.fly_course { attempts := 4 } hesitantService .inTurn "teh" ⟨"teh", false, none⟩
      { service := 0 } (by decide) (by decide +kernel)).2 (by decide)
  have same : hesitantFlight.settled = [⟨"teh", outcome⟩] := settled
  rw [same] at answer
  have pauses := course.sleeps
  rw [← hesitantFlight, slept] at pauses
  have two := congrArg List.length pauses
  cases outcome with
  | error failure => cases answer
  | ok text =>
      cases answer
      refine ⟨failed, last, same, course, ?_, slept⟩
      simpa using two.symm

end CodeProse
