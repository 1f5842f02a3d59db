import CodeProse.Proofs.Service.Courses
import CodeProse.Proofs.Service.Detailed

/-!
# Exchanges of a single call

A call that nothing can cancel makes the attempts at its one request, and the service sees nothing
else. A harmless service leads to no failure of the configuration.
-/

set_option autoImplicit false

namespace CodeProse

variable {σ : Type}

/-- The exchanges about a request that is repeated, one for each reply. -/
def Request.exchanges (request : Request) (replies : List Reply) : List (Request × Reply) :=
  replies.map fun reply => (request, reply)

@[simp]
theorem Request.exchanges_nil (request : Request) : request.exchanges [] = [] := rfl

/-- A session that goes on from another through exchanges with the service, with the same signal. -/
structure Session.Exchanges (service : Service σ) (exchanges : List (Request × Reply))
    (before after : Session σ) : Prop where
  serves : service.Serves before.service exchanges after.service
  requests : after.requests = before.requests ++ exchanges.map Prod.fst
  signal : after.signal = before.signal

namespace Session

variable {service : Service σ} {before middle after : Session σ}

theorem Exchanges.refl (service : Service σ) (session : Session σ) :
    Exchanges service [] session session :=
  ⟨.nothing, (List.append_nil _).symm, rfl⟩

/-- Changes of the log and of what is in flight are no exchanges. -/
theorem Exchanges.framed {exchanges : List (Request × Reply)}
    (made : Exchanges service exchanges before middle) (state : after.service = middle.service)
    (requests : after.requests = middle.requests) (signal : after.signal = middle.signal) :
    Exchanges service exchanges before after where
  serves := by
    rw [state]
    exact made.serves
  requests := requests.trans made.requests
  signal := signal.trans made.signal

theorem Exchanges.trans {front back : List (Request × Reply)}
    (first : Exchanges service front before middle) (second : Exchanges service back middle after) :
    Exchanges service (front ++ back) before after where
  serves := first.serves.append second.serves
  requests := by rw [second.requests, first.requests, List.map_append, List.append_assoc]
  signal := second.signal.trans first.signal

theorem Undergoes.exchanges {events : List Event} (undergoes : Undergoes service events before after) :
    Exchanges service (events.filterMap Event.exchange?) before after :=
  ⟨undergoes.serves, undergoes.requests, undergoes.signal⟩

end Session

open Session (Exchanges)

section Harmless

variable {service : Service σ} {policy : RetryPolicy}

/-- A reply decides what attempts come to, or it is a failure outside the configuration. -/
theorem RetryPolicy.Attempts.decides_or_fails {attempt : Nat} {replies : List Reply}
    {outcome : Except Failure Text} (attempts : policy.Attempts attempt replies outcome) :
    (∃ reply ∈ replies, Decides reply outcome) ∨
      ∃ failure, outcome = .error failure ∧ failure.isConfiguration = false := by
  induction attempts with
  | unasked none => exact .inr ⟨_, rfl, rfl⟩
  | last allowed ends =>
      cases ends with
      | decided decides => exact .inl ⟨_, List.mem_cons_self, decides⟩
      | spent last fails => exact .inr ⟨_, rfl, fails.isConfiguration_eq_false⟩
      | unpaused more fails beyond => exact .inr ⟨_, rfl, rfl⟩
  | again retries further ih =>
      exact ih.imp_left fun ⟨reply, member, decides⟩ =>
        ⟨reply, List.mem_cons_of_mem _ member, decides⟩

theorem RetryPolicy.Attempts.isBlank_eq_false {attempt : Nat} {replies : List Reply} {text : Text}
    (attempts : policy.Attempts attempt replies (.ok text)) : text.isBlank = false := by
  rcases attempts.decides_or_fails with ⟨reply, -, decides⟩ | ⟨failure, same, -⟩
  · cases decides with
    | text written => exact written
  · cases same

theorem Service.Serves.isConfiguration_eq_false {state final : σ}
    {exchanges : List (Request × Reply)} (harmless : service.IsHarmless)
    (serves : service.Serves state exchanges final) {request : Request} {failure : Failure}
    (member : (request, .error failure) ∈ exchanges) : failure.isConfiguration = false := by
  induction serves with
  | nothing => cases member
  | reply given further ih =>
      rcases List.mem_cons.mp member with same | later
      · cases same
        exact harmless _ _ _ (congrArg Prod.fst given)
      · exact ih later

theorem RetryPolicy.Attempts.isConfiguration_eq_false {attempt : Nat} {request : Request}
    {replies : List Reply} {failure : Failure} {before after : Session σ}
    (attempts : policy.Attempts attempt replies (.error failure)) (harmless : service.IsHarmless)
    (exchanges : Exchanges service (request.exchanges replies) before after) :
    failure.isConfiguration = false := by
  rcases attempts.decides_or_fails with ⟨reply, member, decides⟩ | ⟨other, same, outside⟩
  · cases decides with
    | failure configuration =>
        exact exchanges.serves.isConfiguration_eq_false harmless
          (List.mem_map.mpr ⟨_, member, rfl⟩)
  · cases same
    exact outside

end Harmless

namespace Client

variable {client : Client σ} {call : Call} {session : Session σ}

theorem fly_attempts (client : Client σ) (job : Job) (session : Session σ)
    (unsignalled : session.signal = none) :
    ∃ replies outcome flight,
      client.policy.fly client.service client.schedule [job] session = flight ∧
        flight.settled = [⟨job.key, outcome⟩] ∧ client.policy.Attempts 1 replies outcome ∧
        Exchanges client.service (job.request.exchanges replies) session flight.session := by
  have continues := fly_continues client.policy client.service client.schedule [job] session
  have behind : (client.policy.fly client.service client.schedule [job] session).session.signal =
      none := by
    rw [← Option.not_isSome_iff_eq_none, continues.signal, unsignalled]
    exact Bool.false_ne_true
  obtain ⟨replies, outcome, attempts, settled, undergone⟩ :=
    fly_loop client.policy client.service client.schedule job session
      (Session.isCancelled_of_signal_eq_none behind)
  have exchanges := undergone.exchanges
  rw [client.policy.exchanges_events] at exchanges
  exact ⟨replies, outcome, _, rfl, settled, attempts, exchanges⟩

theorem correctDetailed_attempts (client : Client σ) (call : Call) (session : Session σ)
    (unsignalled : session.signal = none) :
    ∃ replies outcome after,
      client.correctDetailed call session = (client.detailedOf call outcome, after) ∧
        client.policy.Attempts 1 replies outcome ∧
        Exchanges client.service ((client.detailedJob call).request.exchanges replies) session
          after := by
  obtain ⟨replies, outcome, flight, flies, settled, attempts, exchanges⟩ :=
    client.fly_attempts (client.detailedJob call) { session with inFlight := [] } unsignalled
  have known : outcomeOf flight.settled call.key = outcome := by
    rw [settled]
    exact outcomeOf_singleton call.key outcome
  refine ⟨replies, outcome, { flight.session with inFlight := session.inFlight }, ?_, attempts,
    exchanges.serves, exchanges.requests, exchanges.signal⟩
  rw [client.correctDetailed_eq, detailedFlight, flies, known]

theorem settle_attempts (client : Client σ) (call : Call) (idle : session.inFlight = [])
    (unsignalled : session.signal = none) :
    ∃ replies outcome after,
      client.settle [call] session = ([⟨call.key, outcome⟩], after) ∧
        client.policy.Attempts 1 replies outcome ∧
        Exchanges client.service ((client.job call).request.exchanges replies) session after := by
  obtain ⟨records, enrolled⟩ := client.enroll_eq [call] session
  have alone : pioneers [call] session = [call] := by simp [pioneers, firstOfEach, idle]
  obtain ⟨replies, outcome, flight, flies, settled, attempts, exchanges⟩ :=
    client.fly_attempts (client.job call) (client.enrolled [call] session) (by
      rw [Client.enrolled, enrolled]
      exact unsignalled)
  refine ⟨replies, outcome, flight.session, ?_, attempts, ?_⟩
  · rw [client.settle_eq, Client.flight, alone]
    simp only [List.map_cons, List.map_nil, flies, settled]
    rfl
  · rw [Client.enrolled, enrolled] at exchanges
    exact ⟨exchanges.serves, exchanges.requests, exchanges.signal⟩

theorem settle_nil (client : Client σ) (session : Session σ) :
    client.settle [] session = ([], session) := by
  simp [settle, enroll, RetryPolicy.fly, Flight.run]

end Client

end CodeProse
