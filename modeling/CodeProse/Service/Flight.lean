import CodeProse.Service.Retry

/-!
# Jobs that are under way together

Jobs that start together take turns, one step at a time. They start in the order in which they
were given; apart from that, a schedule says whose turn it is. A job that has settled leaves the
flight, and its key is in flight no longer.
-/

set_option autoImplicit false

namespace CodeProse

structure Settled where
  key : Text
  outcome : Except Failure Text

/-- The jobs that have not started, those that are under way, and those that have settled, in the
order of their outcomes. -/
structure Flight (σ : Type) where
  session : Session σ
  queue : List Job
  active : List ActiveJob := []
  settled : List Settled := []

/-- Whose turn it is: that of the active job with the number, or of the first job in the queue where
there is no such job. -/
abbrev Schedule (σ : Type) := Flight σ → Nat

variable {σ : Type}

namespace Flight

def hasLanded (flight : Flight σ) : Bool :=
  flight.queue.isEmpty && flight.active.isEmpty

/-- Takes in what a step of the job with a key has led to. -/
def take (flight : Flight σ) (key : Text) : Progress × Session σ → Flight σ
  | (.running active, session) => { flight with session, active := flight.active ++ [active] }
  | (.settled outcome, session) =>
      { flight with
        session := session.release key
        settled := flight.settled ++ [⟨key, outcome⟩] }

/-- The number of the active job that is meant by a choice. Where no job is left in the queue, a
number beyond the active jobs means the last of them. -/
def chosen (flight : Flight σ) (choice : Nat) : Nat :=
  if flight.queue.isEmpty then min choice (flight.active.length - 1) else choice

def step (policy : RetryPolicy) (service : Service σ) (choice : Nat) (flight : Flight σ) :
    Flight σ :=
  match flight.active[flight.chosen choice]?, flight.queue with
  | some active, _ =>
      { flight with active := flight.active.eraseIdx (flight.chosen choice) }.take active.job.key
        (policy.advance service active flight.session)
  | none, job :: queue =>
      { flight with queue }.take job.key (policy.start service job flight.session)
  | none, [] => flight

/-- So many steps of a flight, or fewer where it has landed before. -/
def run (policy : RetryPolicy) (service : Service σ) (schedule : Schedule σ) :
    Nat → Flight σ → Flight σ
  | 0, flight => flight
  | steps + 1, flight =>
      if flight.hasLanded then flight
      else run policy service schedule steps (flight.step policy service (schedule flight))

end Flight

namespace Schedule

/-- One job after the other. -/
def inTurn : Schedule σ := fun _ => 0

/-- The place of an active job in a round: replies are taken up at once, and no job pauses before
the others have asked as often. -/
def place (active : ActiveJob) : Nat :=
  match active.phase with
  | .answered _ => 0
  | .pausing _ => 2 * active.attempt
  | .rested _ => 2 * active.attempt + 1

/-- In rounds: each job asks once, then each pauses. -/
def inRounds : Schedule σ := fun flight =>
  let places := flight.active.map place
  places.idxOf (if flight.queue.isEmpty then places.min?.getD 0 else 0)

end Schedule

/-- The flight of jobs that start together, when it has landed. No job takes more than three steps
for an attempt and one to start. -/
def RetryPolicy.fly (policy : RetryPolicy) (service : Service σ) (schedule : Schedule σ)
    (jobs : List Job) (session : Session σ) : Flight σ :=
  Flight.run policy service schedule (jobs.length * (3 * policy.attempts.toNat + 1))
    { session, queue := jobs }

end CodeProse
