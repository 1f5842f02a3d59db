import CodeProse.Proofs.Sequence
import CodeProse.Proofs.Service.Flights
import CodeProse.Service.Client

/-!
# Laws of settling

Of the calls that start together, the first with each key takes off with a job of its own, unless
the key is in flight already; the others join it. Every job settles once, with what the service made
of its request, or with a failure that does not lie in the configuration.
-/

set_option autoImplicit false

namespace CodeProse

open Session (Continues)

variable {σ : Type}

section Outcomes

theorem exists_of_outcomeOf_eq_ok {settled : List Settled} {key text : Text}
    (given : outcomeOf settled key = .ok text) :
    ∃ entry ∈ settled, entry.key = key ∧ entry.outcome = .ok text := by
  rw [outcomeOf] at given
  split at given
  · next entry found =>
      exact ⟨entry, List.mem_of_find?_eq_some found, by simpa using List.find?_some found, given⟩
  · cases given

theorem outcomeOf_of_mem {settled : List Settled} (distinct : (settled.map Settled.key).Nodup)
    {entry : Settled} (member : entry ∈ settled) : outcomeOf settled entry.key = entry.outcome := by
  rw [outcomeOf]
  cases found : settled.find? fun other => other.key = entry.key with
  | none =>
      have differs := List.find?_eq_none.mp found entry member
      exact absurd (decide_eq_true rfl) differs
  | some other =>
      have key : other.key = entry.key := by simpa using List.find?_some found
      have same := List.inj_on_of_nodup_map distinct (List.mem_of_find?_eq_some found) member key
      exact congrArg Settled.outcome same

@[simp]
theorem outcomeOf_singleton (key : Text) (outcome : Except Failure Text) :
    outcomeOf [⟨key, outcome⟩] key = outcome := by
  simp [outcomeOf]

end Outcomes

section Deciding

variable (policy : RetryPolicy) (service : Service σ) (schedule : Schedule σ)

theorem Flight.run_of_hasLanded {flight : Flight σ} (steps : Nat)
    (landed : flight.hasLanded = true) : flight.run policy service schedule steps = flight := by
  cases steps with
  | zero => rfl
  | succ steps => rw [run, if_pos landed]

/-- A job whose first reply decides it settles with what the reply stands for. -/
theorem fly_decided (job : Job) (session : Session σ) {outcome : Except Failure Text}
    (asked : 0 < policy.attempts)
    (decides : Decides (service.reply session.service job.request).1 outcome) :
    (policy.fly service schedule [job] session).settled = [⟨job.key, outcome⟩] := by
  have judged := judge_of_decides decides
  obtain ⟨steps, count⟩ : ∃ steps, [job].length * (3 * policy.attempts.toNat + 1) = steps + 2 :=
    ⟨3 * policy.attempts.toNat - 1, by rw [List.length_singleton]; omega⟩
  -- The job starts and takes up the reply; there is no other one whose turn it could be.
  rw [RetryPolicy.fly, count]
  simp [Flight.run, Flight.hasLanded, Flight.step, Flight.chosen, Flight.take, RetryPolicy.start,
    RetryPolicy.ask, RetryPolicy.advance, RetryPolicy.takeUp, Session.ask, judged,
    Int.not_le.mpr asked, Flight.run_of_hasLanded]

end Deciding

namespace Client

variable {client : Client σ} {calls : List Call} {session : Session σ}

/-- The calls that take off with a job of their own: the first ones with their keys, where nothing is
in flight under these. -/
def pioneers (calls : List Call) (session : Session σ) : List Call :=
  firstOfEach Call.key calls session.inFlight

theorem mem_of_mem_pioneers {call : Call} (member : call ∈ pioneers calls session) :
    call ∈ calls :=
  firstOfEach_subset Call.key calls session.inFlight member

theorem firstOfEach_congr (calls : List Call) {known seen : List Text}
    (same : ∀ key, key ∈ known ↔ key ∈ seen) :
    firstOfEach Call.key calls known = firstOfEach Call.key calls seen := by
  induction calls generalizing known seen with
  | nil => rfl
  | cons call rest ih =>
      have more : ∀ key, key ∈ call.key :: known ↔ key ∈ call.key :: seen := by
        simp [same]
      simp only [firstOfEach, List.contains_eq_mem, same, ih same, ih more]

theorem enroll_eq (client : Client σ) (calls : List Call) (session : Session σ) :
    ∃ records, client.enroll calls session =
      ((pioneers calls session).map client.job,
        { session with
          inFlight := session.inFlight ++ (pioneers calls session).map Call.key
          records }) := by
  induction calls generalizing session with
  | nil => exact ⟨session.records, by simp [enroll, pioneers, firstOfEach]⟩
  | cons call rest ih =>
      rw [enroll, pioneers, firstOfEach]
      split
      · exact ih _
      · obtain ⟨records, enrolled⟩ := ih (session.register call.key)
        have same : firstOfEach Call.key rest (session.inFlight ++ [call.key]) =
            firstOfEach Call.key rest (call.key :: session.inFlight) :=
          firstOfEach_congr rest fun key => by simp [or_comm]
        refine ⟨records, ?_⟩
        rw [enrolled]
        simp [pioneers, Session.register, same]

/-- The session in which the jobs of calls take off. -/
def enrolled (client : Client σ) (calls : List Call) (session : Session σ) : Session σ :=
  (client.enroll calls session).2

/-- The flight of calls that start together. -/
def flight (client : Client σ) (calls : List Call) (session : Session σ) : Flight σ :=
  client.policy.fly client.service client.schedule ((pioneers calls session).map client.job)
    (client.enrolled calls session)

theorem settle_eq (client : Client σ) (calls : List Call) (session : Session σ) :
    client.settle calls session =
      ((client.flight calls session).settled, (client.flight calls session).session) := by
  obtain ⟨records, enrolled⟩ := client.enroll_eq calls session
  rw [settle, flight, Client.enrolled, enrolled]

theorem settle_settledOf :
    SettledOf client.policy client.service ((pioneers calls session).map client.job)
      (client.settle calls session).1 := by
  rw [settle_eq]
  exact fly_settledOf _ _ _ _ _

theorem map_key_map_job (client : Client σ) (calls : List Call) :
    (calls.map client.job).map Job.key = calls.map Call.key := by
  rw [List.map_map]
  rfl

/-- Where nothing is in flight, every call gets an outcome. -/
theorem exists_settled (idle : session.inFlight = []) {call : Call} (member : call ∈ calls) :
    ∃ entry ∈ (client.settle calls session).1, entry.key = call.key := by
  have fresh : call.key ∉ session.inFlight := by simp [idle]
  obtain ⟨kept, known, same⟩ := exists_mem_firstOfEach Call.key member fresh
  have present : call.key ∈ ((pioneers calls session).map client.job).map Job.key := by
    rw [map_key_map_job, ← same]
    exact List.mem_map_of_mem known
  exact List.mem_map.mp (settle_settledOf.keys.mem_iff.mpr present)

theorem nodup_settled_keys : ((client.settle calls session).1.map Settled.key).Nodup := by
  refine settle_settledOf.keys.nodup_iff.mpr ?_
  rw [map_key_map_job]
  exact nodup_keys_firstOfEach Call.key calls session.inFlight

theorem settled_outcome {entry : Settled} (member : entry ∈ (client.settle calls session).1) :
    ∃ call ∈ calls, entry.key = call.key ∧
      client.policy.Outcome client.service (client.job call).request entry.outcome := by
  obtain ⟨job, known, key, outcome⟩ := settle_settledOf.outcome entry member
  obtain ⟨call, first, rfl⟩ := List.mem_map.mp known
  exact ⟨call, mem_of_mem_pioneers first, key, outcome⟩

theorem settle_decided {call : Call} {outcome : Except Failure Text}
    (asked : 0 < client.policy.attempts) (idle : session.inFlight = [])
    (decides : Decides (client.service.reply session.service (client.job call).request).1 outcome) :
    (client.settle [call] session).1 = [⟨call.key, outcome⟩] := by
  obtain ⟨records, enrolled⟩ := client.enroll_eq [call] session
  have alone : pioneers [call] session = [call] := by simp [pioneers, firstOfEach, idle]
  have state : (client.enrolled [call] session).service = session.service := by
    rw [Client.enrolled, enrolled]
  rw [settle_eq, flight, alone]
  refine fly_decided _ _ _ (client.job call) _ asked ?_
  rwa [state]

def requests (client : Client σ) (calls : List Call) : List Request :=
  calls.map fun call => (client.job call).request

theorem continues_enrolled (client : Client σ) (calls : List Call) (session : Session σ) :
    Continues [] session (client.enrolled calls session) := by
  obtain ⟨records, enrolled⟩ := client.enroll_eq calls session
  rw [Client.enrolled, enrolled]
  exact .of_frame rfl rfl

theorem settle_continues (client : Client σ) (calls : List Call) (session : Session σ) :
    Continues (client.requests calls) session (client.settle calls session).2 := by
  rw [settle_eq]
  have flown := fly_continues client.policy client.service client.schedule
    ((pioneers calls session).map client.job) (client.enrolled calls session)
  refine ((client.continues_enrolled calls session).mono (List.nil_subset _)).trans
    (flown.mono fun request member => ?_)
  obtain ⟨job, known, rfl⟩ := List.mem_map.mp member
  obtain ⟨call, first, rfl⟩ := List.mem_map.mp known
  exact List.mem_map.mpr ⟨call, mem_of_mem_pioneers first, rfl⟩

/-- What was in flight before is in flight behind, and nothing else. -/
theorem settle_inFlight (client : Client σ) (calls : List Call) (session : Session σ) :
    (client.settle calls session).2.inFlight = session.inFlight := by
  obtain ⟨records, enrolled⟩ := client.enroll_eq calls session
  have fresh : ∀ key ∈ session.inFlight, key ∉ (pioneers calls session).map Call.key := by
    intro key known member
    obtain ⟨call, first, rfl⟩ := List.mem_map.mp member
    exact not_mem_seen_of_mem_firstOfEach Call.key first known
  rw [settle_eq, flight, fly_inFlight, map_key_map_job, Client.enrolled, enrolled]
  show (session.inFlight ++ (pioneers calls session).map Call.key).filter _ = session.inFlight
  rw [List.filter_append, List.filter_eq_self.mpr (by simpa using fresh),
    List.filter_eq_nil_iff.mpr (by simp), List.append_nil]

end Client

end CodeProse
