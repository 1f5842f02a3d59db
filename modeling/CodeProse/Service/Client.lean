import CodeProse.Correction.Prompt
import CodeProse.Sequence
import CodeProse.Service.Flight
import CodeProse.Text.Quoted

/-!
# The client of the correction service

Corrects texts under options. A text joins the job that is in flight under its key, if there is
one, and gets its outcome. A batch goes in chunks with a pause in between; a text that fails, or is not
reached, stays as it is.
-/

set_option autoImplicit false

namespace CodeProse

/-- How a service is asked, and whose turn it is where several jobs are under way. Values in
replies may be nested so deep. -/
structure Client (σ : Type) where
  service : Service σ
  model : Text
  maxTokens : Option Int := some 500
  policy : RetryPolicy := {}
  batchSize : Int := 5
  batchPause : Binary64 := Binary64.ofFraction 5 1
  language : Text := defaultTargetLanguage
  schedule : Schedule σ := .inTurn
  nesting : Nat := Json.usualNesting

/-- A text to correct and the options for it. -/
structure Call where
  text : Text
  options : CorrectionOptions := {}
deriving DecidableEq

namespace Call

/-- The key under which calls share a job. -/
def key (call : Call) : Text :=
  call.options.key call.text

end Call

def outcomeOf (settled : List Settled) (key : Text) : Except Failure Text :=
  match settled.find? fun entry => entry.key = key with
  | some entry => entry.outcome
  | none => .error .exhausted

namespace Client

variable {σ : Type}

def job (client : Client σ) (call : Call) : Job where
  key := call.key
  request :=
    { prompt := call.options.prompt client.language call.text, maxTokens := client.maxTokens }

/-- Lets calls start one by one. One whose key is in flight joins the job under it; any other goes
into flight with a job of its own. -/
def enroll (client : Client σ) : List Call → Session σ → List Job × Session σ
  | [], session => ([], session)
  | call :: rest, session =>
      if session.inFlight.contains call.key then
        client.enroll rest
          (session.log "client" .debug
            ("Joining in-flight correction for ".toText ++ (call.text.excerpt 40).quoted))
      else
        let (jobs, session) := client.enroll rest (session.register call.key)
        (client.job call :: jobs, session)

/-- Settles the jobs of calls that start together. -/
def settle (client : Client σ) (calls : List Call) (session : Session σ) :
    List Settled × Session σ :=
  let (jobs, session) := client.enroll calls session
  let flight := client.policy.fly client.service client.schedule jobs session
  (flight.settled, flight.session)

/-- The outcomes of calls that start together, in the order of the calls. -/
def correctAll (client : Client σ) (calls : List Call) (session : Session σ) :
    List (Except Failure Text) × Session σ :=
  let (settled, session) := client.settle calls session
  (calls.map fun call => outcomeOf settled call.key, session)

def correct (client : Client σ) (call : Call) (session : Session σ) :
    Except Failure Text × Session σ :=
  let (settled, session) := client.settle [call] session
  (outcomeOf settled call.key, session)

/-- A text of a batch after its correction; one that failed stays as it is. -/
def batchResult (text : Text) : Except Failure Text → Text
  | .ok corrected => if corrected.isEmpty then text else corrected
  | .error _ => text

/-- Reports the failures of a chunk, whose first text has the number `offset`. -/
def logFailures : Nat → List (Except Failure Text) → Session σ → Session σ
  | _, [], session => session
  | offset, .ok _ :: rest, session => logFailures (offset + 1) rest session
  | offset, .error failure :: rest, session =>
      logFailures (offset + 1) rest
        (session.log "client" .warning
          ("Batch item ".toText ++ Text.ofNat offset ++ " failed: ".toText ++ failure.message))

/-- Corrects the chunks of a batch, of which `offset` texts are done. -/
def correctChunks (client : Client σ) (options : CorrectionOptions) :
    Nat → List (List Text) → Session σ → List Text × Session σ
  | _, [], session => ([], session)
  | offset, chunk :: rest, session =>
      if session.isCancelled then ((chunk :: rest).flatten, session)
      else
        let (outcomes, session) :=
          client.correctAll (chunk.map fun text => ⟨text, options⟩) session
        if session.isCancelled then
          ((chunk :: rest).flatten,
            session.log "client" .info
              ("Batch cancelled; discarding ".toText ++ Text.ofNat chunk.length ++
                " in-flight results".toText))
        else
          let session := logFailures offset outcomes session
          let results := chunk.zipWith batchResult outcomes
          if rest.isEmpty then (results, session)
          else
            let session := session.sleep client.batchPause
            if session.isCancelled then (results ++ rest.flatten, session)
            else
              let (later, session) :=
                client.correctChunks options (offset + chunk.length) rest session
              (results ++ later, session)

/-- Corrects a batch of texts. A chunk size of zero is refused; with a negative one there are
no chunks, and every text stays as it is. -/
def correctBatch (client : Client σ) (texts : List Text) (options : CorrectionOptions)
    (session : Session σ) : Except Failure (List Text) × Session σ :=
  if client.batchSize = 0 then (.error (.fault .emptyStep), session)
  else if client.batchSize < 0 then (.ok texts, session)
  else
    let (results, session) :=
      client.correctChunks options 0 (chunks client.batchSize.toNat texts) session
    (.ok results, session)

def ping : Request where
  prompt := "ping"
  maxTokens := some 5

def isHealthy (client : Client σ) (session : Session σ) : Bool × Session σ :=
  match session.ask client.service ping with
  | (.ok text, session) => (text.any fun text => !text.isEmpty, session)
  | (.error failure, session) =>
      (false,
        session.log "client" .warning ("Health check failed: ".toText ++ failure.message))

end Client

end CodeProse
