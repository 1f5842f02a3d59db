import CodeProse.Proofs.Service.Courses
import CodeProse.Proofs.Service.Settling

/-!
# The turns of a session

What is done in a session comes turn by turn: a job asks, or pauses, or the work pauses as a whole.
The turns lead from one session to another, so that every request is made in one of them. Among the
turns of jobs that settle together, one that finds the work cancelled asks for nothing unless it is
the first one of its job.
-/

set_option autoImplicit false

namespace CodeProse

open Session (Continues)

variable {σ : Type}

/-- One turn in the work on a chunk: that of the job with a key, or the pause behind the chunk. -/
structure Turn (σ : Type) where
  chunk : Nat
  key : Option Text
  before : Session σ
  behind : Session σ

def Turn.made (turn : Turn σ) : List Request :=
  turn.behind.requests.drop turn.before.requests.length

/-- Sessions that differ at most in what is in flight and what has been logged. -/
structure Session.IsLike (left right : Session σ) : Prop where
  requests : right.requests = left.requests
  signal : right.signal = left.signal

/-- Turns that lead from one session to another. -/
inductive Leads : Session σ → List (Turn σ) → Session σ → Prop where
  | nothing {start final : Session σ} (same : start.IsLike final) : Leads start [] final
  | turn {start final : Session σ} {turn : Turn σ} {rest : List (Turn σ)}
      (same : start.IsLike turn.before) (continues : Continues turn.made turn.before turn.behind)
      (further : Leads turn.behind rest final) : Leads start (turn :: rest) final

namespace Session

variable {left middle right : Session σ}

theorem IsLike.refl (session : Session σ) : session.IsLike session :=
  ⟨rfl, rfl⟩

theorem IsLike.trans (first : left.IsLike middle) (second : middle.IsLike right) :
    left.IsLike right :=
  ⟨second.requests.trans first.requests, second.signal.trans first.signal⟩

theorem IsLike.isCancelled (same : left.IsLike right) : right.isCancelled = left.isCancelled := by
  rw [Session.isCancelled, Session.isCancelled, same.signal]

/-- What was made on the way is what has come behind the earlier requests. -/
theorem Continues.drop {listed : List Request} {before after : Session σ}
    (continues : Continues listed before after) :
    after.requests.drop before.requests.length ⊆ listed ∧
      Continues (after.requests.drop before.requests.length) before after := by
  obtain ⟨⟨made, requests, known⟩, cancelled, signal⟩ := continues
  have same : after.requests.drop before.requests.length = made := by
    rw [requests, List.drop_left]
  rw [same]
  exact ⟨known, ⟨made, requests, List.Subset.refl made⟩, cancelled, signal⟩

end Session

section Leading

variable {start middle final : Session σ} {turns more : List (Turn σ)}

theorem Turn.requests_behind {turn : Turn σ}
    (continues : Continues turn.made turn.before turn.behind) :
    turn.behind.requests = turn.before.requests ++ turn.made := by
  obtain ⟨made, requests, -⟩ := continues.requests
  rw [Turn.made, requests, List.drop_left]

theorem Leads.append (first : Leads start turns middle) (second : Leads middle more final) :
    Leads start (turns ++ more) final := by
  induction first with
  | @nothing start middle same =>
      cases second with
      | nothing further => exact .nothing (same.trans further)
      | turn further continues later => exact .turn (same.trans further) continues later
  | turn same continues further ih => exact .turn same continues (ih second)

theorem Leads.from_like (same : start.IsLike middle) (leads : Leads middle turns final) :
    Leads start turns final :=
  (Leads.nothing same).append leads

theorem Leads.to_like (leads : Leads start turns middle) (same : middle.IsLike final) :
    Leads start turns final := by
  have ended := leads.append (.nothing same)
  rwa [List.append_nil] at ended

theorem Leads.requests (leads : Leads start turns final) :
    final.requests = start.requests ++ turns.flatMap Turn.made := by
  induction leads with
  | nothing same => rw [same.requests, List.flatMap_nil, List.append_nil]
  | turn same continues further ih =>
      rw [ih, Turn.requests_behind continues, same.requests, List.flatMap_cons, List.append_assoc]

theorem Leads.signal (leads : Leads start turns final) :
    final.signal.isSome = start.signal.isSome := by
  induction leads with
  | nothing same => rw [same.signal]
  | turn same continues further ih => rw [ih, continues.signal, same.signal]

theorem Leads.stays (leads : Leads start turns final) (cancelled : start.isCancelled = true) :
    final.isCancelled = true ∧ ∀ turn ∈ turns, turn.before.isCancelled = true := by
  induction leads with
  | nothing same => exact ⟨same.isCancelled.trans cancelled, by simp⟩
  | turn same continues further ih =>
      have before := same.isCancelled.trans cancelled
      obtain ⟨last, later⟩ := ih (continues.cancelled before)
      exact ⟨last, List.forall_mem_cons.mpr ⟨before, later⟩⟩

/-- Turns behind one that leaves the work cancelled find it so. -/
theorem Leads.stays_behind {front late : List (Turn σ)} {turn : Turn σ}
    (leads : Leads start (front ++ turn :: late) final)
    (cancelled : turn.behind.isCancelled = true) :
    final.isCancelled = true ∧ ∀ next ∈ late, next.before.isCancelled = true := by
  induction front generalizing start with
  | nil =>
      cases leads with
      | turn same continues further => exact further.stays cancelled
  | cons first front ih =>
      cases leads with
      | turn same continues further => exact ih further

theorem Leads.isCancelled_of_mem (leads : Leads start turns final) {turn : Turn σ}
    (member : turn ∈ turns) (cancelled : turn.behind.isCancelled = true) :
    final.isCancelled = true := by
  obtain ⟨front, late, rfl⟩ := List.append_of_mem member
  exact (leads.stays_behind cancelled).1

/-- The work is cancelled in one of the turns, if it was not before. -/
theorem Leads.exists_raised (leads : Leads start turns final)
    (cancelled : final.isCancelled = true) :
    start.isCancelled = true ∨ ∃ turn ∈ turns, turn.behind.isCancelled = true := by
  induction leads with
  | nothing same => exact .inl (same.isCancelled.symm.trans cancelled)
  | turn same continues further ih =>
      refine .inr ?_
      rcases ih cancelled with here | ⟨later, member, raised⟩
      · exact ⟨_, List.mem_cons_self, here⟩
      · exact ⟨later, List.mem_cons_of_mem _ member, raised⟩

end Leading

/-- A later turn that finds the work cancelled and asks all the same belongs to another job. -/
def Turn.Spares (turn next : Turn σ) : Prop :=
  next.before.isCancelled = true → next.made ≠ [] → turn.key ≠ next.key

section Flying

variable {policy : RetryPolicy} {service : Service σ} {schedule : Schedule σ} {session : Session σ}
  {stage : Stage} {result : Progress × Session σ}

/-- A step asks once or not at all, and where the work is cancelled only if its job has not
started. -/
theorem RetryPolicy.Moves.made (moves : policy.Moves service session stage result) :
    result.2.requests = session.requests ∨
      result.2.requests = session.requests ++ [stage.job.request] ∧
        (session.isCancelled = true → ∃ job, stage = .queued job) := by
  cases moves with
  | barred none => exact .inl rfl
  | asks some => exact .inr ⟨rfl, fun _ => ⟨_, rfl⟩⟩
  | decided decides => exact .inl rfl
  | ends fails ended => exact .inl rfl
  | waits fails goesOn => exact .inl rfl
  | pauses => exact .inl rfl
  | withdraws cancelled => exact .inl rfl
  | retries uncancelled =>
      exact .inr ⟨rfl, fun cancelled => absurd cancelled (ne_true_of_eq_false uncancelled)⟩

namespace Flight

variable {flight next : Flight σ} {jobs : List Job} {chunk : Nat}

/-- The turns of a flight, in the work on a chunk. -/
def turns (policy : RetryPolicy) (service : Service σ) (schedule : Schedule σ) (chunk : Nat) :
    Nat → Flight σ → List (Turn σ)
  | 0, _ => []
  | steps + 1, flight =>
      if flight.hasLanded then []
      else
        let next := flight.step policy service (schedule flight)
        ⟨chunk, (flight.moving? (schedule flight)).map Stage.key, flight.session, next.session⟩ ::
          turns policy service schedule chunk steps next

theorem Steps.continues (steps : flight.Steps policy service stage result next) :
    Continues [stage.job.request] flight.session next.session := by
  obtain ⟨rest, before, behind⟩ := steps.exists_rest
  have moved := steps.moves.continues
  cases behind with
  | running shape same => exact moved
  | @settled outcome session shape same released =>
      rw [released]
      exact moved.trans ((session.continues_release _).mono (List.nil_subset _))

theorem Steps.made (steps : flight.Steps policy service stage result next) {turn : Turn σ}
    (before : turn.before = flight.session) (behind : turn.behind = next.session) :
    turn.made = [] ∨ turn.made = [stage.job.request] ∧
      (turn.before.isCancelled = true → stage.job.key ∈ flight.queue.map Job.key) := by
  have asked : next.session.requests = result.2.requests := by
    obtain ⟨rest, -, takes⟩ := steps.exists_rest
    cases takes with
    | running shape same => rfl
    | settled shape same released => rw [released]; rfl
  rw [Turn.made, before, behind, asked]
  rcases steps.moves.made with none | ⟨some, queued⟩
  · exact .inl (by rw [none, List.drop_length])
  · refine .inr ⟨by rw [some, List.drop_left], fun cancelled => ?_⟩
    obtain ⟨job, rfl⟩ := queued cancelled
    rcases steps.queue with ⟨other, same, queue⟩ | ⟨⟨active, impossible⟩, -⟩
    · cases same
      rw [queue]
      exact List.mem_map_of_mem List.mem_cons_self
    · cases impossible

theorem turns_leads (schedule : Schedule σ) (chunk steps : Nat) (flight : Flight σ) :
    Leads flight.session (flight.turns policy service schedule chunk steps)
      (flight.run policy service schedule steps).session := by
  induction steps generalizing flight with
  | zero => exact .nothing (.refl flight.session)
  | succ steps ih =>
      rw [turns, run]
      split
      · exact .nothing (.refl flight.session)
      · next flying =>
          obtain ⟨stage, result, -, moved⟩ := flight.steps_step policy service (schedule flight)
            (eq_false_of_ne_true flying)
          exact .turn (.refl flight.session) moved.continues.drop.2 (ih _)

/-- A turn belongs to a job of the flight; where the work is cancelled and it asks all the same, to
one of the queue. -/
theorem mem_turns {steps : Nat} {turn : Turn σ} (known : flight.IsOf policy service jobs)
    (member : turn ∈ flight.turns policy service schedule chunk steps) :
    turn.chunk = chunk ∧ ∃ job ∈ jobs, turn.key = some job.key ∧
      (turn.made = [] ∨ turn.made = [job.request] ∧
        (turn.before.isCancelled = true → job.key ∈ flight.queue.map Job.key)) := by
  induction steps generalizing flight with
  | zero => cases member
  | succ steps ih =>
      rw [turns] at member
      split at member
      · cases member
      · next flying =>
          obtain ⟨stage, result, moving, moved⟩ :=
            flight.steps_step policy service (schedule flight) (eq_false_of_ne_true flying)
          rcases List.mem_cons.mp member with rfl | later
          · obtain ⟨rest, before, -⟩ := moved.exists_rest
            have own := (known.stages stage (before.mem_iff.mpr List.mem_cons_self)).1
            exact ⟨rfl, stage.job, own, by rw [moving]; rfl, moved.made rfl rfl⟩
          · obtain ⟨number, job, own, key, none | ⟨made, queued⟩⟩ := ih (known.step moved) later
            · exact ⟨number, job, own, key, .inl none⟩
            · refine ⟨number, job, own, key, .inr ⟨made, fun cancelled => ?_⟩⟩
              rcases moved.queue with ⟨first, -, queue⟩ | ⟨-, queue⟩
              · rw [queue]
                exact List.mem_cons_of_mem _ (queued cancelled)
              · rw [← queue]
                exact queued cancelled

/-- The job that has had a turn is not in the queue behind it. -/
theorem Steps.not_mem_queue (known : flight.IsOf policy service jobs)
    (unique : (jobs.map Job.key).Nodup) (steps : flight.Steps policy service stage result next) :
    stage.key ∉ next.queue.map Job.key := by
  have distinct := known.nodup_keys unique
  rcases steps.queue with ⟨job, rfl, queue⟩ | ⟨⟨active, rfl⟩, queue⟩
  · rw [keys_eq, queue] at distinct
    exact (List.nodup_cons.mp (List.nodup_append.mp distinct).2.1).1
  · obtain ⟨rest, before, -⟩ := steps.exists_rest
    rw [queue]
    exact not_mem_queue_of_active distinct (before.mem_iff.mpr List.mem_cons_self)

/-- Once the work is cancelled, only jobs that have not had a turn ask. -/
theorem pairwise_spares_turns (known : flight.IsOf policy service jobs)
    (unique : (jobs.map Job.key).Nodup) (steps : Nat) :
    (flight.turns policy service schedule chunk steps).Pairwise Turn.Spares := by
  induction steps generalizing flight with
  | zero => exact .nil
  | succ steps ih =>
      rw [turns]
      split
      · exact .nil
      · next flying =>
          obtain ⟨stage, result, moving, moved⟩ :=
            flight.steps_step policy service (schedule flight) (eq_false_of_ne_true flying)
          have behind := known.step moved
          refine .cons (fun next member cancelled asks same => ?_) (ih behind)
          obtain ⟨-, job, -, key, none | ⟨-, queued⟩⟩ := mem_turns behind member
          · exact asks none
          · rw [moving, key] at same
            have own : stage.key = job.key := Option.some.inj same
            exact moved.not_mem_queue known unique (own ▸ queued cancelled)

end Flight

end Flying

namespace Client

variable {client : Client σ} {chunk : Nat} {calls : List Call} {session : Session σ}

/-- The turns of calls that settle together. -/
def turns (client : Client σ) (chunk : Nat) (calls : List Call) (session : Session σ) :
    List (Turn σ) :=
  let jobs := (pioneers calls session).map client.job
  Flight.turns client.policy client.service client.schedule chunk
    (jobs.length * (3 * client.policy.attempts.toNat + 1))
    { session := client.enrolled calls session, queue := jobs }

theorem turns_leads (client : Client σ) (chunk : Nat) (calls : List Call) (session : Session σ) :
    Leads session (client.turns chunk calls session) (client.settle calls session).2 := by
  obtain ⟨records, enrolled⟩ := client.enroll_eq calls session
  have taken : session.IsLike (client.enrolled calls session) := by
    rw [Client.enrolled, enrolled]
    exact ⟨rfl, rfl⟩
  rw [client.settle_eq]
  refine Leads.from_like taken ?_
  exact Flight.turns_leads client.schedule chunk _
    { session := client.enrolled calls session, queue := (pioneers calls session).map client.job }

theorem mem_turns {turn : Turn σ} (member : turn ∈ client.turns chunk calls session) :
    turn.chunk = chunk ∧ turn.key.isSome ∧
      (turn.made = [] ∨
        ∃ call ∈ calls, turn.key = some call.key ∧ turn.made = [(client.job call).request]) := by
  obtain ⟨number, job, own, key, made⟩ :=
    Flight.mem_turns (Flight.isOf_start client.policy client.service _ _) member
  obtain ⟨call, first, rfl⟩ := List.mem_map.mp own
  refine ⟨number, by rw [key]; rfl, made.imp_right fun asked => ?_⟩
  exact ⟨call, mem_of_mem_pioneers first, key, asked.1⟩

theorem pairwise_spares_turns : (client.turns chunk calls session).Pairwise Turn.Spares := by
  refine Flight.pairwise_spares_turns (Flight.isOf_start _ _ _ _) ?_ _
  rw [map_key_map_job]
  exact nodup_keys_firstOfEach Call.key calls session.inFlight

end Client

end CodeProse
