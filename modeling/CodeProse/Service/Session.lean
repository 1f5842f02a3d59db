import CodeProse.Log
import CodeProse.Numeric.Number
import CodeProse.Failure

/-!
# Services and sessions

A correction service answers a request at once, with a text, with nothing, or with a failure;
it may keep a state of its own. A session is one use of a service: it records the requests
and the pauses between them, knows the keys of the jobs that are in flight, and carries the signal
that may cancel the work at a chosen moment.
-/

set_option autoImplicit false

namespace CodeProse

structure Request where
  prompt : Text
  jsonMode : Bool := false
  maxTokens : Option Int := none
deriving DecidableEq

abbrev Reply := Except Failure (Option Text)

/-- A correction service with states of type `σ`. -/
structure Service (σ : Type) where
  reply : σ → Request → Reply × σ

/-- A signal that cancels the work once it is raised. It is raised from the start, or during
the request, the pause before a retry, or the pause between chunks of the given number. -/
structure CancelSignal where
  raised : Bool := false
  atRequest : Option Int := none
  atSleep : Option Int := none
  atPause : Option Int := none
deriving DecidableEq

structure Session (σ : Type) where
  service : σ
  signal : Option CancelSignal := none
  requests : List Request := []
  sleeps : List Binary64 := []
  pauses : Nat := 0
  inFlight : List Text := []
  records : List LogRecord := []

namespace CancelSignal

/-- The signal after an event that raises it if `hit` holds. -/
def raiseIf (signal : CancelSignal) (hit : Bool) : CancelSignal :=
  { signal with raised := signal.raised || hit }

end CancelSignal

namespace Session

variable {σ : Type}

def isCancelled (session : Session σ) : Bool :=
  session.signal.any CancelSignal.raised

def log (session : Session σ) (component : Text) (severity : Severity) (message : Text) :
    Session σ :=
  { session with records := session.records ++ [⟨component, severity, message⟩] }

/-- Takes a key into flight. -/
def register (session : Session σ) (key : Text) : Session σ :=
  { session with inFlight := session.inFlight ++ [key] }

/-- Takes a key out of flight. -/
def release (session : Session σ) (key : Text) : Session σ :=
  { session with inFlight := session.inFlight.filter fun other => other ≠ key }

/-- Makes a request. The signal of this request is raised before the service answers. -/
def ask (service : Service σ) (session : Session σ) (request : Request) : Reply × Session σ :=
  let requests := session.requests ++ [request]
  let signal := session.signal.map fun signal =>
    signal.raiseIf (signal.atRequest = some (requests.length : Int))
  let (reply, state) := service.reply session.service request
  (reply, { session with requests, signal, service := state })

/-- Pauses before a retry. The signal of this pause is raised while it lasts. -/
def sleep (session : Session σ) (delay : Binary64) : Session σ :=
  let sleeps := session.sleeps ++ [delay]
  let signal := session.signal.map fun signal =>
    signal.raiseIf (signal.atSleep = some (sleeps.length : Int))
  { session with sleeps, signal }

/-- Pauses between two chunks of a run. Only a pause that nothing can cut short is recorded
with its length. -/
def pause (session : Session σ) (delay : Binary64) : Session σ :=
  match session.signal with
  | none => session.sleep delay
  | some signal =>
      let pauses := session.pauses + 1
      { session with pauses, signal := some (signal.raiseIf (signal.atPause = some (pauses : Int))) }

end Session

end CodeProse
