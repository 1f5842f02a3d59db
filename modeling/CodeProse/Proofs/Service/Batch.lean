import CodeProse.Proofs.Service.Settling

/-!
# What becomes of a batch

A batch goes through its chunks as far as nothing cancels it. The texts in front of the cut are the
outcomes of their calls, or themselves after a failure; those behind it are untouched, and only the
first chunk behind it can have been asked for.
-/

set_option autoImplicit false

namespace CodeProse

open Session (Continues)

variable {σ : Type}

def batchCalls (options : CorrectionOptions) (texts : List Text) : List Call :=
  texts.map fun text => ⟨text, options⟩

/-- The texts of a chunk with what became of their calls: a text whose call failed stays. -/
def settledTexts (chunk : List Text) (outcomes : List (Except Failure Text)) : List Text :=
  chunk.zipWith (fun text outcome => outcome.toOption.getD text) outcomes

namespace Client

variable {client : Client σ} {options : CorrectionOptions}

/-- What a batch has gone through: chunks before and behind each of which nothing was cancelled,
with the texts that came of them. Between two chunks it only reports the failures and pauses. -/
inductive PassesBatch (client : Client σ) (options : CorrectionOptions) :
    Session σ → List (List Text) → List Text → Session σ → Prop where
  | nothing {start : Session σ} : PassesBatch client options start [] [] start
  | chunk {start behind next final : Session σ} {chunk : List Text} {rest : List (List Text)}
      {outcomes : List (Except Failure Text)} {more : List Text} {offset : Nat}
      (before : start.isCancelled = false)
      (given : client.correctAll (batchCalls options chunk) start = (outcomes, behind))
      (after : behind.isCancelled = false)
      (paused : next = logFailures offset outcomes behind ∨
        next = (logFailures offset outcomes behind).sleep client.batchPause)
      (further : PassesBatch client options next rest more final) :
      PassesBatch client options start (chunk :: rest) (settledTexts chunk outcomes ++ more) final

/-- How a batch ends behind the chunks that it has gone through: none is left, or the next one finds
the work cancelled, or it was cancelled while the next one was asked for. -/
inductive EndsBatch (client : Client σ) (options : CorrectionOptions) (final : Session σ) :
    List (List Text) → Session σ → Prop where
  | finished : EndsBatch client options final [] final
  | before {chunk : List Text} {rest : List (List Text)} (cancelled : final.isCancelled = true) :
      EndsBatch client options final (chunk :: rest) final
  | behind {chunk : List Text} {rest : List (List Text)} {records : List LogRecord}
      (uncancelled : final.isCancelled = false)
      (cancelled :
        (client.correctAll (batchCalls options chunk) final).2.isCancelled = true) :
      EndsBatch client options final (chunk :: rest)
        { (client.correctAll (batchCalls options chunk) final).2 with records }

theorem length_correctAll (client : Client σ) (calls : List Call) (session : Session σ) :
    (client.correctAll calls session).1.length = calls.length := by
  simp [correctAll]

theorem ne_nil_of_mem_correctAll {calls : List Call} {session : Session σ} {text : Text}
    (member : .ok text ∈ (client.correctAll calls session).1) : text ≠ [] := by
  obtain ⟨call, -, given⟩ := List.mem_map.mp member
  obtain ⟨entry, settled, -, answer⟩ := exists_of_outcomeOf_eq_ok given
  obtain ⟨asked, -, -, outcome⟩ := settled_outcome settled
  rw [answer] at outcome
  obtain ⟨-, state, -, written⟩ := outcome.answers
  rintro rfl
  cases written

theorem zipWith_batchResult {chunk : List Text} {outcomes : List (Except Failure Text)}
    (written : ∀ text, .ok text ∈ outcomes → text ≠ []) :
    chunk.zipWith batchResult outcomes = settledTexts chunk outcomes := by
  induction chunk generalizing outcomes with
  | nil => rfl
  | cons text rest ih =>
      cases outcomes with
      | nil => rfl
      | cons outcome further =>
          have later := ih fun text member => written text (List.mem_cons_of_mem outcome member)
          rw [List.zipWith_cons_cons, later]
          cases outcome with
          | error failure => rfl
          | ok corrected =>
              have some : corrected.isEmpty = false :=
                List.isEmpty_eq_false_iff.mpr (written corrected List.mem_cons_self)
              simp [settledTexts, batchResult, some, Except.toOption]

theorem correctAll_continues (client : Client σ) (calls : List Call) (session : Session σ) :
    Continues (client.requests calls) session (client.correctAll calls session).2 :=
  client.settle_continues calls session

theorem logFailures_continues (offset : Nat) (outcomes : List (Except Failure Text))
    (session : Session σ) : Continues [] session (logFailures offset outcomes session) := by
  induction outcomes generalizing offset session with
  | nil => exact .refl session
  | cons outcome rest ih =>
      cases outcome with
      | ok text => exact ih (offset + 1) session
      | error failure => exact (session.continues_log _ _ _).trans (ih _ _)

theorem PassesBatch.length {start final : Session σ} {passed : List (List Text)}
    {results : List Text} (passes : client.PassesBatch options start passed results final) :
    results.length = passed.flatten.length := by
  induction passes with
  | nothing => rfl
  | @chunk start behind next final chunk rest outcomes more offset before given after paused further
      ih =>
      have aligned := client.length_correctAll (batchCalls options chunk) start
      rw [given, batchCalls, List.length_map] at aligned
      rw [List.length_append, settledTexts, List.length_zipWith, aligned, Nat.min_self, ih,
        List.flatten_cons, List.length_append]

/-- What a batch has gone through has made no requests but those for its own texts. -/
theorem PassesBatch.continues {start final : Session σ} {passed : List (List Text)}
    {results : List Text} (passes : client.PassesBatch options start passed results final) :
    Continues (client.requests (batchCalls options passed.flatten)) start final := by
  induction passes with
  | nothing => exact .refl _
  | @chunk start behind next final chunk rest outcomes more offset before given after paused further
      ih =>
      have asked := client.correctAll_continues (batchCalls options chunk) start
      rw [given] at asked
      have logged := logFailures_continues offset outcomes behind
      have resumed : Continues [] behind next := by
        rcases paused with rfl | rfl
        · exact logged
        · exact logged.trans (Session.continues_sleep _ _)
      have split : client.requests (batchCalls options (chunk :: rest).flatten) =
          client.requests (batchCalls options chunk) ++
            client.requests (batchCalls options rest.flatten) := by
        simp [requests, batchCalls]
      rw [split]
      exact ((asked.mono (List.subset_append_left _ _)).trans
        (resumed.mono (List.nil_subset _))).trans (ih.mono (List.subset_append_right _ _))

/-- A chunk that nothing cancels leaves the further ones to the session behind its pause. -/
theorem correctChunks_cons {offset : Nat} {chunk : List Text} {rest : List (List Text)}
    {session behind : Session σ} {outcomes : List (Except Failure Text)}
    (before : session.isCancelled = false)
    (given : client.correctAll (batchCalls options chunk) session = (outcomes, behind))
    (after : behind.isCancelled = false) :
    ∃ next, (next = logFailures offset outcomes behind ∨
        next = (logFailures offset outcomes behind).sleep client.batchPause) ∧
      client.correctChunks options offset (chunk :: rest) session =
        (settledTexts chunk outcomes ++
            (client.correctChunks options (offset + chunk.length) rest next).1,
          (client.correctChunks options (offset + chunk.length) rest next).2) := by
  have written : ∀ text, .ok text ∈ outcomes → text ≠ [] := by
    intro text member
    have known : .ok text ∈ (client.correctAll (batchCalls options chunk) session).1 := by
      rw [given]
      exact member
    exact ne_nil_of_mem_correctAll known
  have calls : (chunk.map fun text => (⟨text, options⟩ : Call)) = batchCalls options chunk := rfl
  simp only [correctChunks, before, calls, given, after, zipWith_batchResult written,
    Bool.false_eq_true, if_false]
  cases rest with
  | nil => exact ⟨_, .inl rfl, by simp [correctChunks]⟩
  | cons further rest =>
      refine ⟨_, .inr rfl, ?_⟩
      cases paused : ((logFailures offset outcomes behind).sleep client.batchPause).isCancelled with
      | true => simp [correctChunks, paused]
      | false => simp

/-- A batch goes through chunks from the front, and leaves the texts of the others as they are. -/
theorem correctChunks_passes (client : Client σ) (options : CorrectionOptions) (offset : Nat)
    (chunks : List (List Text)) (session : Session σ) :
    ∃ passed left results final, chunks = passed ++ left ∧
      (client.correctChunks options offset chunks session).1 = results ++ left.flatten ∧
      client.PassesBatch options session passed results final ∧
      client.EndsBatch options final left
        (client.correctChunks options offset chunks session).2 := by
  induction chunks generalizing offset session with
  | nil => exact ⟨[], [], [], session, rfl, rfl, .nothing, .finished⟩
  | cons chunk rest ih =>
      cases before : session.isCancelled with
      | true =>
          simp only [correctChunks, before, if_true]
          exact ⟨[], chunk :: rest, [], session, rfl, rfl, .nothing, .before before⟩
      | false =>
          cases after : (client.correctAll (batchCalls options chunk) session).2.isCancelled with
          | true =>
              have calls : (chunk.map fun text => (⟨text, options⟩ : Call)) =
                  batchCalls options chunk := rfl
              simp only [correctChunks, before, calls, after, Bool.false_eq_true, if_false, if_true]
              exact ⟨[], chunk :: rest, [], session, rfl, rfl, .nothing, .behind before after⟩
          | false =>
              obtain ⟨next, paused, same⟩ := correctChunks_cons before (Prod.eta _).symm after
              obtain ⟨passed, left, results, final, split, texts, passes, ends⟩ :=
                ih (offset + chunk.length) next
              rw [same]
              refine ⟨chunk :: passed, left, _, final, congrArg (chunk :: ·) split, ?_,
                .chunk before (Prod.eta _).symm after paused passes, ends⟩
              rw [texts, List.append_assoc]

theorem EndsBatch.continues {final after : Session σ} {left : List (List Text)}
    (ends : client.EndsBatch options final left after) :
    Continues (client.requests (batchCalls options (left.headD []))) final after := by
  cases ends with
  | finished => exact .refl final
  | before cancelled => exact (Continues.refl final).mono (List.nil_subset _)
  | @behind chunk rest records uncancelled cancelled =>
      have asked := client.correctAll_continues (batchCalls options chunk) final
      have logged : Continues [] (client.correctAll (batchCalls options chunk) final).2
          { (client.correctAll (batchCalls options chunk) final).2 with records } :=
        .of_frame rfl rfl
      exact asked.trans (logged.mono (List.nil_subset _))

theorem EndsBatch.eq_nil {final after : Session σ} {left : List (List Text)}
    (ends : client.EndsBatch options final left after) (uncancelled : after.isCancelled = false) :
    left = [] := by
  cases ends with
  | finished => rfl
  | before cancelled => exact absurd cancelled (ne_true_of_eq_false uncancelled)
  | behind _ cancelled => exact absurd cancelled (ne_true_of_eq_false uncancelled)

theorem correctBatch_passes (client : Client σ) (texts : List Text) (options : CorrectionOptions)
    (session : Session σ) (positive : 0 < client.batchSize) :
    ∃ passed left results final after,
      client.correctBatch texts options session = (.ok (results ++ left.flatten), after) ∧
        chunks client.batchSize.toNat texts = passed ++ left ∧
        client.PassesBatch options session passed results final ∧
        client.EndsBatch options final left after := by
  obtain ⟨passed, left, results, final, split, joined, passes, ends⟩ :=
    client.correctChunks_passes options 0 (chunks client.batchSize.toNat texts) session
  refine ⟨passed, left, results, final, _, ?_, split, passes, ends⟩
  rw [correctBatch, if_neg positive.ne', if_neg (Int.not_lt.mpr positive.le), ← joined]

/-- What a batch comes to: the texts in front of the cut are those that came of its chunks one by
one, the texts behind it are untouched, and what was asked for behind it belongs to the chunk in
which the work was first found cancelled. -/
structure BatchOutcome (client : Client σ) (options : CorrectionOptions) (texts : List Text)
    (session : Session σ) (results : List Text) (after : Session σ) (passed left : List (List Text))
    (final : Session σ) : Prop where
  chunks : CodeProse.chunks client.batchSize.toNat texts = passed ++ left
  length : results.length = texts.length
  cut : passed.flatten.length = texts.length ∨ client.batchSize ∣ passed.flatten.length
  untouched : results.drop passed.flatten.length = texts.drop passed.flatten.length
  passes : client.PassesBatch options session passed (results.take passed.flatten.length) final
  asked : Continues (client.requests (batchCalls options passed.flatten)) session final
  ends : client.EndsBatch options final left after
  uncancelled : after.isCancelled = false → passed.flatten.length = texts.length
  requests : Continues (client.requests (batchCalls options (left.headD []))) final after

/-- A batch never fails and keeps its length, whatever the service does and whenever it is
cancelled. -/
theorem correctBatch_outcome (client : Client σ) (texts : List Text) (options : CorrectionOptions)
    (session : Session σ) (positive : 0 < client.batchSize) :
    ∃ results after passed left final,
      client.correctBatch texts options session = (.ok results, after) ∧
        client.BatchOutcome options texts session results after passed left final := by
  obtain ⟨passed, left, results, final, after, corrects, split, passes, ends⟩ :=
    client.correctBatch_passes texts options session positive
  have whole : passed.flatten ++ left.flatten = texts := by
    rw [← List.flatten_append, ← split, flatten_chunks (Int.lt_toNat.mpr positive)]
  have length := passes.length
  refine ⟨_, after, passed, left, final, corrects, ?_⟩
  constructor
  · exact split
  · rw [← whole, List.length_append, List.length_append, length]
  · cases left with
    | nil =>
        refine .inl ?_
        rw [← whole, List.flatten_nil, List.append_nil]
    | cons chunk rest =>
        have divides := dvd_length_flatten_of_chunks split (List.cons_ne_nil chunk rest)
        exact .inr (Int.toNat_of_nonneg positive.le ▸ Int.natCast_dvd_natCast.mpr divides)
  · rw [← length, List.drop_left, length, ← whole, List.drop_left]
  · rw [← length, List.take_left]
    exact passes
  · exact passes.continues
  · exact ends
  · intro uncancelled
    rw [← whole, ends.eq_nil uncancelled, List.flatten_nil, List.append_nil]
  · exact ends.continues

/-- A client that knows one misspelt word and no dogs, and takes two texts at a time. -/
def wordClient : Client Unit where
  service :=
    { reply := fun state request =>
        (if Text.contains "dog" request.prompt then .error (.reported .configuration "no dogs")
          else .ok (if Text.contains "teh" request.prompt then some "the" else none), state) }
  model := []
  policy := { attempts := 1 }
  batchSize := 2

/-- A session whose work is cancelled during the third request. -/
def signalledSession : Session Unit where
  service := ()
  signal := some { atRequest := some 3 }

/-- The third request belongs to the second chunk, so that what it leads to is dropped. -/
theorem correctBatch_wordClient :
    ∃ after passed left final,
      wordClient.correctBatch ["teh", "dog", "cat", "teh", "teh"] {} signalledSession =
          (.ok ["the", "dog", "cat", "teh", "teh"], after) ∧
        wordClient.BatchOutcome {} ["teh", "dog", "cat", "teh", "teh"] signalledSession
          ["the", "dog", "cat", "teh", "teh"] after passed left final := by
  have ran : (wordClient.correctBatch ["teh", "dog", "cat", "teh", "teh"] {}
      signalledSession).1.toOption = some ["the".toText, "dog", "cat", "teh", "teh"] := by
    decide +kernel
  obtain ⟨results, after, passed, left, final, corrects, outcome⟩ :=
    wordClient.correctBatch_outcome ["teh", "dog", "cat", "teh", "teh"] {} signalledSession
      (by decide)
  rw [corrects] at ran
  cases ran
  exact ⟨after, passed, left, final, corrects, outcome⟩

end Client

end CodeProse
