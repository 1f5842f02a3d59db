import CodeProse.Proofs.Correction.Options
import CodeProse.Proofs.Service.Batch
import CodeProse.Proofs.Service.Courses

/-!
# Sharing requests

Calls that start together and have one key share one loop of attempts and its outcome, as each call
joins what is in flight under its key; calls with different keys share nothing. When all of them have
settled nothing is in flight any more, so that the next chunk of a batch asks the service again.
-/

set_option autoImplicit false

namespace CodeProse

open Session (Undergoes)

variable {σ : Type}

namespace Client

/-- Calls that start together share one loop for each key, in the order in which the keys occur
first: those that are not in flight when their turn comes. Each call gets the outcome of the loop
with its key, which makes the request of the call. The chronicle tells what the service sees and in
which order: these loops, each a part of it, and nothing else. Nothing is in flight before the loops
start or when all of them have come to their ends. -/
structure Shares (client : Client σ) (calls : List Call) (before : Session σ)
    (outcomes : List (Except Failure Text)) (after : Session σ) (chronicle : Chronicle)
    (loops : List Loop) : Prop where
  started : loops.map Loop.subject = (client.enroll calls before).1.map Job.subject
  keys : loops.map Loop.key = (calls.map Call.key).eraseDups
  attempts : ∀ loop ∈ loops, client.policy.Attempts 1 loop.replies loop.outcome
  outcomes : List.Forall₂ (fun call outcome => ∃ loop ∈ loops,
    loop.subject = (call.key, (client.job call).request) ∧ outcome = loop.outcome) calls outcomes
  events : ∀ loop ∈ loops, chronicle.of loop.key = loop.events client.policy
  only : chronicle.keys ⊆ loops.map Loop.key
  order : 0 < client.policy.attempts → chronicle.keys.eraseDups = loops.map Loop.key
  undergoes : Undergoes client.service chronicle.events before after
  idleBefore : before.inFlight = []
  idleBehind : after.inFlight = []

variable {client : Client σ} {options : CorrectionOptions}

theorem subject_job_congr {left right : Call} (same : left.key = right.key) :
    (client.job left).subject = (client.job right).subject := by
  obtain ⟨texts, options⟩ := CorrectionOptions.key_inj same
  simp only [Job.subject, job, same, texts,
    CorrectionOptions.prompt_congr options client.language right.text]

/-- Taking calls into flight is nothing that takes place between them and the service. -/
theorem undergoes_of_enrolled {calls : List Call} {session after : Session σ} {events : List Event}
    (undergone : Undergoes client.service events (client.enrolled calls session) after) :
    Undergoes client.service events session after := by
  obtain ⟨records, enrolled⟩ := client.enroll_eq calls session
  rw [Client.enrolled, enrolled] at undergone
  exact ⟨undergone.serves, undergone.requests, undergone.sleeps, undergone.signal,
    undergone.pauses⟩

theorem correctAll_shares {calls : List Call} {session : Session σ} (idle : session.inFlight = [])
    (uncancelled : (client.correctAll calls session).2.isCancelled = false) :
    ∃ chronicle loops, client.Shares calls session (client.correctAll calls session).1
      (client.correctAll calls session).2 chronicle loops := by
  obtain ⟨records, enrolled⟩ := client.enroll_eq calls session
  have behind : (client.correctAll calls session).2 = (client.flight calls session).session :=
    congrArg Prod.snd (client.settle_eq calls session)
  rw [behind] at uncancelled
  have unique : (((pioneers calls session).map client.job).map Job.key).Nodup := by
    rw [map_key_map_job]
    exact nodup_keys_firstOfEach Call.key calls session.inFlight
  obtain ⟨chronicle, loops, known, undergone⟩ := fly_loops unique uncancelled
  have keys : loops.map Loop.key = (calls.map Call.key).eraseDups := by
    have subjects := congrArg (List.map Prod.fst) known.subjects
    rw [List.map_map, List.map_map, List.map_map] at subjects
    refine (show loops.map Loop.key = (pioneers calls session).map Call.key from subjects).trans ?_
    rw [pioneers, idle]
    exact map_firstOfEach_nil Call.key calls
  refine ⟨chronicle, loops, ?_, keys, known.attempts, ?_, known.events, known.only, known.order,
    ?_, idle, ?_⟩
  · rw [known.subjects, enrolled]
  · refine List.forall₂_map_right_iff.mpr (List.forall₂_same.mpr fun call member => ?_)
    -- The loop is that of the first call with this key, which need not be this one.
    have fresh : call.key ∉ session.inFlight := by simp [idle]
    obtain ⟨kept, first, same⟩ := exists_mem_firstOfEach Call.key member fresh
    have subject : (client.job kept).subject ∈ loops.map Loop.subject := by
      rw [known.subjects, List.map_map]
      exact List.mem_map_of_mem first
    obtain ⟨loop, mine, about⟩ := List.mem_map.mp subject
    rw [subject_job_congr same] at about
    refine ⟨loop, mine, about, ?_⟩
    have settled : loop.settled ∈ (client.settle calls session).1 := by
      rw [client.settle_eq]
      exact known.settled.mem_iff.mpr (List.mem_map_of_mem mine)
    have outcome := outcomeOf_of_mem nodup_settled_keys settled
    rwa [show loop.settled.key = call.key from congrArg Prod.fst about] at outcome
  · rw [behind]
    exact undergoes_of_enrolled undergone
  · exact (client.settle_inFlight calls session).trans idle

/-- What a batch goes through chunk by chunk: the calls of each chunk share their loops, and between
two chunks it only reports the failures and pauses. -/
inductive SharesBatch (client : Client σ) (options : CorrectionOptions) :
    Session σ → List (List Text) → List Text → Session σ → Prop where
  | nothing {session : Session σ} (idle : session.inFlight = []) :
      SharesBatch client options session [] [] session
  | chunk {start behind next final : Session σ} {chunk : List Text} {rest : List (List Text)}
      {outcomes : List (Except Failure Text)} {more : List Text} {chronicle : Chronicle}
      {loops : List Loop} {offset : Nat}
      (shares : client.Shares (batchCalls options chunk) start outcomes behind chronicle loops)
      (paused : next = logFailures offset outcomes behind ∨
        next = (logFailures offset outcomes behind).sleep client.batchPause)
      (further : SharesBatch client options next rest more final) :
      SharesBatch client options start (chunk :: rest) (settledTexts chunk outcomes ++ more) final

theorem inFlight_logFailures (offset : Nat) (outcomes : List (Except Failure Text))
    (session : Session σ) : (logFailures offset outcomes session).inFlight = session.inFlight := by
  induction outcomes generalizing offset session with
  | nil => rfl
  | cons outcome rest ih =>
      cases outcome with
      | ok text => exact ih (offset + 1) session
      | error failure => exact ih (offset + 1) _

theorem PassesBatch.shares {start final : Session σ} {passed : List (List Text)}
    {results : List Text} (passes : client.PassesBatch options start passed results final)
    (idle : start.inFlight = []) : client.SharesBatch options start passed results final := by
  induction passes with
  | nothing => exact .nothing idle
  | @chunk start behind next final chunk rest outcomes more offset before given after paused further
      ih =>
      have reached : (client.correctAll (batchCalls options chunk) start).2.isCancelled = false := by
        rw [given]
        exact after
      obtain ⟨chronicle, loops, shares⟩ := correctAll_shares idle reached
      rw [given] at shares
      have resumed : next.inFlight = [] := by
        rcases paused with rfl | rfl
        · rw [inFlight_logFailures, shares.idleBehind]
        · rw [Session.sleep, inFlight_logFailures, shares.idleBehind]
      exact .chunk shares paused (ih resumed)

/-- In every chunk of a batch before and behind which nothing is cancelled, there is one loop of
attempts for each key, and all of its calls get its outcome. Every chunk starts with nothing in
flight, so that no loop is shared between chunks. A batch that is never cancelled has no other
chunks. -/
theorem correctBatch_shares (client : Client σ) (texts : List Text) (options : CorrectionOptions)
    (session : Session σ) (positive : 0 < client.batchSize) (idle : session.inFlight = []) :
    ∃ passed left results final after,
      client.correctBatch texts options session = (.ok (results ++ left.flatten), after) ∧
        chunks client.batchSize.toNat texts = passed ++ left ∧
        client.SharesBatch options session passed results final ∧
        client.EndsBatch options final left after ∧
        (after.isCancelled = false → left = [] ∧ after = final) := by
  obtain ⟨passed, left, results, final, after, corrects, split, passes, ends⟩ :=
    client.correctBatch_passes texts options session positive
  refine ⟨passed, left, results, final, after, corrects, split, passes.shares idle, ends, ?_⟩
  intro uncancelled
  obtain rfl := ends.eq_nil uncancelled
  exact ⟨rfl, by cases ends; rfl⟩

/-- A client of a service that answers with the number of the request, but fails where there is a
dog. It asks twice, in rounds, and takes four texts at a time. -/
def countingClient : Client Nat where
  service :=
    { reply := fun calls request =>
        (if Text.contains "dog" request.prompt then .error (.reported .transient "no dogs")
          else .ok (some (Text.ofNat calls)), calls + 1) }
  model := []
  policy := { attempts := 2 }
  batchSize := 4
  schedule := .inRounds

/-- Equal texts share a number inside of a chunk only. Each dog is asked about twice, the second time
when the service has been asked about the other texts of the chunk. -/
theorem correctBatch_shares_countingClient :
    ∃ passed after,
      countingClient.correctBatch ["dog", "teh", "dogs", "teh", "teh"] {} { service := 0 } =
          (.ok ["dog", "1", "dogs", "1", "5"], after) ∧
        countingClient.SharesBatch {} { service := 0 } passed ["dog", "1", "dogs", "1", "5"] after ∧
        passed = [["dog".toText, "teh", "dogs", "teh"], ["teh"]] ∧
        after.requests.length = 6 ∧ after.inFlight = [] := by
  have ran : (fun ended : Except Failure (List Text) × Session Nat =>
      (ended.1.toOption, ended.2.isCancelled, ended.2.requests.length, ended.2.inFlight))
        (countingClient.correctBatch ["dog", "teh", "dogs", "teh", "teh"] {} { service := 0 }) =
      (some ["dog".toText, "1", "dogs", "1", "5"], false, 6, []) := by
    decide +kernel
  obtain ⟨passed, left, results, final, after, corrects, split, shares, -, whole⟩ :=
    countingClient.correctBatch_shares ["dog", "teh", "dogs", "teh", "teh"] {} { service := 0 }
      (by decide) rfl
  rw [corrects] at ran
  obtain ⟨answer, further⟩ := Prod.mk.inj ran
  obtain ⟨uncancelled, counts⟩ := Prod.mk.inj further
  obtain ⟨rfl, rfl⟩ := whole uncancelled
  rw [List.append_nil] at split
  rw [List.flatten_nil, List.append_nil] at answer corrects
  obtain rfl : results = ["dog".toText, "1", "dogs", "1", "5"] := Option.some.inj answer
  exact ⟨passed, after, corrects, shares, split.symm, Prod.mk.inj counts⟩

end Client

end CodeProse
