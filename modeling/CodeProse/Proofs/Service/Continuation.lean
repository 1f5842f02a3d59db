import CodeProse.Service.Session
import Mathlib.Data.List.Basic

/-!
# How sessions go on

Whatever is done in a session, the session keeps the requests that were made, adds none but those of
the jobs that are under way, and stays cancelled once it is. A session without a signal is never
cancelled.
-/

set_option autoImplicit false

namespace CodeProse

variable {σ : Type}

/-- A session that goes on from another and has made no requests but some of those that are listed:
it can be cancelled just as well, and it stays cancelled. -/
structure Session.Continues (listed : List Request) (before after : Session σ) : Prop where
  requests : ∃ made, after.requests = before.requests ++ made ∧ made ⊆ listed
  cancelled : before.isCancelled = true → after.isCancelled = true
  signal : after.signal.isSome = before.signal.isSome

namespace Session

variable {listed : List Request} {before middle after session : Session σ}

theorem isCancelled_of_signal_eq_none (unsignalled : session.signal = none) :
    session.isCancelled = false := by
  rw [isCancelled, unsignalled]
  rfl

theorem raised_raiseIf (signal : CancelSignal) (hit : Bool) :
    (signal.raiseIf hit).raised = (signal.raised || hit) := rfl

namespace Continues

theorem refl (session : Session σ) : Continues [] session session :=
  ⟨⟨[], (List.append_nil _).symm, List.nil_subset []⟩, id, rfl⟩

theorem mono {more : List Request} (subset : listed ⊆ more)
    (continues : Continues listed before after) : Continues more before after := by
  obtain ⟨⟨made, requests, known⟩, cancelled, signal⟩ := continues
  exact ⟨⟨made, requests, List.Subset.trans known subset⟩, cancelled, signal⟩

theorem trans (first : Continues listed before middle) (second : Continues listed middle after) :
    Continues listed before after := by
  obtain ⟨made, requests, known⟩ := first.requests
  obtain ⟨more, further, moreKnown⟩ := second.requests
  refine ⟨⟨made ++ more, ?_, List.append_subset.mpr ⟨known, moreKnown⟩⟩,
    fun cancelled => second.cancelled (first.cancelled cancelled),
    second.signal.trans first.signal⟩
  rw [further, requests, List.append_assoc]

/-- Changes of what is in flight and of the log change nothing else. -/
theorem of_frame (requests : after.requests = before.requests)
    (signal : after.signal = before.signal) : Continues [] before after := by
  refine ⟨⟨[], ?_, List.nil_subset []⟩, ?_, congrArg Option.isSome signal⟩
  · rw [requests, List.append_nil]
  · rw [isCancelled, isCancelled, signal]
    exact id

theorem of_raiseIf (hit : CancelSignal → Bool) (requests : after.requests = before.requests)
    (signal : after.signal = before.signal.map fun signal => signal.raiseIf (hit signal)) :
    Continues [] before after := by
  refine ⟨⟨[], ?_, List.nil_subset []⟩, fun cancelled => ?_, ?_⟩
  · rw [requests, List.append_nil]
  · rw [isCancelled, signal]
    obtain ⟨known, shown, raised⟩ := (Option.any_eq_true _ _).mp cancelled
    rw [shown, Option.map_some, Option.any_some, raised_raiseIf, raised]
    rfl
  · rw [signal, Option.isSome_map]

end Continues

theorem continues_log (session : Session σ) (component : Text) (severity : Severity)
    (message : Text) : Continues [] session (session.log component severity message) :=
  .of_frame rfl rfl

theorem continues_sleep (session : Session σ) (delay : Binary64) :
    Continues [] session (session.sleep delay) :=
  .of_raiseIf _ rfl rfl

theorem continues_pause (session : Session σ) (delay : Binary64) :
    Continues [] session (session.pause delay) := by
  rw [pause]
  split
  · exact session.continues_sleep delay
  · next signal signalled =>
      refine .of_raiseIf (fun signal =>
        signal.atPause = some ((session.pauses + 1 : Nat) : Int)) rfl ?_
      rw [signalled]
      rfl

theorem continues_ask (service : Service σ) (session : Session σ) (request : Request) :
    Continues [request] session (session.ask service request).2 := by
  have raised : Continues [] session
      { (session.ask service request).2 with requests := session.requests } :=
    .of_raiseIf _ rfl rfl
  exact ⟨⟨[request], rfl, List.Subset.refl _⟩, raised.cancelled, raised.signal⟩

theorem continues_release (session : Session σ) (key : Text) :
    Continues [] session (session.release key) :=
  .of_frame rfl rfl

/-- What goes on to an uncancelled session was not cancelled before. -/
theorem Continues.uncancelled (continues : Continues listed before after)
    (uncancelled : after.isCancelled = false) : before.isCancelled = false :=
  eq_false_of_ne_true fun cancelled =>
    ne_true_of_eq_false uncancelled (continues.cancelled cancelled)

end Session

end CodeProse
