import CodeProse.Proofs.Correction.Options
import CodeProse.Proofs.Run.Expectation

/-!
# The reference of a run

A service that looks at nothing but the prompt determines the correction of every span. A run
gives just these corrections, however its spans are cut into chunks and whatever the cache holds,
forgets or evicts on the way, unless the cache cannot write one of them down.
-/

set_option autoImplicit false

namespace CodeProse

variable {σ : Type}

/-- A service whose reply depends on the prompt alone, and never is a failure of the
configuration. -/
structure Service.AnswersBy (service : Service σ) (answer : Text → Reply) : Prop where
  reply : ∀ state request, (service.reply state request).1 = answer request.prompt
  harmless : ∀ prompt failure, answer prompt = .error failure → failure.isConfiguration = false

/-- The text that comes of a reply which is the same at every attempt. -/
def RetryPolicy.answer? (policy : RetryPolicy) (reply : Reply) : Option Text :=
  if policy.attempts ≤ 0 then none
  else
    match judge reply with
    | .ok (.ok text) => some text
    | _ => none

namespace Client

variable (client : Client σ) (answer : Text → Reply)

/-- What becomes of a call, without the blanks and quotes around it. -/
def answerTo? (call : Call) : Option Text :=
  (client.policy.answer? (answer (client.job call).request.prompt)).map (unwrap · call.text)

/-- The correction of a span: what becomes of its call, or its own text without confidence. -/
def reference (options : CorrectionOptions) (span : Span) : Correction :=
  match client.answerTo? answer (span.call options) with
  | some text => span.correctedBy text span.confidence
  | none => span.correctedBy span.text 0

variable {client answer}

/-- Calls with one key have one outcome. -/
theorem answerTo?_congr {left right : Call} (same : left.key = right.key) :
    client.answerTo? answer left = client.answerTo? answer right := by
  obtain ⟨texts, payloads⟩ := CorrectionOptions.key_inj same
  rw [answerTo?, answerTo?, job, job, CorrectionOptions.prompt_congr payloads, texts]

theorem answerTo?_of_outcome_ok (answers : client.service.AnswersBy answer) {call : Call}
    {text : Text}
    (outcome : client.policy.Outcome client.service (client.job call).request (.ok text)) :
    client.answerTo? answer call = some (unwrap text call.text) := by
  cases outcome with
  | decided state asked reply =>
      rw [answers.reply] at reply
      rw [answerTo?, RetryPolicy.answer?, if_neg (Int.not_le.mpr asked), reply]
      rfl

theorem answerTo?_of_outcome_error (answers : client.service.AnswersBy answer) {call : Call}
    {failure : Failure}
    (outcome : client.policy.Outcome client.service (client.job call).request (.error failure)) :
    client.answerTo? answer call = none := by
  rw [answerTo?, Option.map_eq_none_iff, RetryPolicy.answer?]
  cases outcome with
  | decided state asked reply =>
      rw [answers.reply] at reply
      rw [reply, ite_self]
  | failed state reply retried =>
      rw [answers.reply] at reply
      rw [reply, ite_self]
  | unasked attempts => exact if_pos attempts

end Client

theorem Service.AnswersBy.isHarmless {service : Service σ} {answer : Text → Reply}
    (answers : service.AnswersBy answer) : service.IsHarmless := by
  intro state request failure replied
  rw [answers.reply] at replied
  exact answers.harmless request.prompt failure replied

/-- Calls whose keys differ have different digests. -/
def HaveOwnDigests (calls : List Call) : Prop :=
  ∀ left ∈ calls, ∀ right ∈ calls, ∀ digest, Cache.digestOf left.key = .ok digest →
    Cache.digestOf right.key = .ok digest → left.key = right.key

theorem haveOwnDigests_of_ne {calls : List Call}
    (differ : ∀ left ∈ calls, ∀ right ∈ calls, left.key ≠ right.key →
      Cache.digestOf left.key ≠ Cache.digestOf right.key) : HaveOwnDigests calls :=
  fun left known right other _ leftDigest rightDigest => Decidable.byContradiction fun keys =>
    differ left known right other keys (leftDigest.trans rightDigest.symm)

/-- Whether a cache has a text under the digest of a key, expired or not. -/
def Cache.Contains (cache : Cache) (key value : Text) : Prop :=
  ∃ entry ∈ cache.entries, Cache.digestOf key = .ok entry.1 ∧ entry.2.value = value

/-- Under a service that looks at the prompt alone, a call leads to one text or fails. A text with
half of a surrogate pair in it was in the cache from the start. -/
def Expectation.ofAnswer {client : Client σ} {answer : Text → Reply} {calls : List Call}
    (answers : client.service.AnswersBy answer) (distinct : HaveOwnDigests calls) (cache : Cache) :
    Expectation client calls where
  allows call text :=
    client.answerTo? answer call = some text ∧ (Text.IsWhole text ∨ cache.Contains call.key text)
  mayFail call := client.answerTo? answer call = none
  answered asked _ call _ same text outcome whole := by
    obtain ⟨texts, -⟩ := CorrectionOptions.key_inj same
    have known := Client.answerTo?_of_outcome_ok answers outcome
    rw [Client.answerTo?_congr same, texts] at known
    exact ⟨known, .inl whole⟩
  failed asked _ call _ same failure outcome := by
    have unknown := Client.answerTo?_of_outcome_error answers outcome
    rw [Client.answerTo?_congr same] at unknown
    exact ⟨outcome.isConfiguration_eq_false answers.isHarmless, unknown⟩
  shared stored storedKnown call known digest storedDigest ownDigest text allowed := by
    have same := distinct stored storedKnown call known digest storedDigest ownDigest
    rwa [← Client.answerTo?_congr same, ← same]

theorem Expectation.Meets.correction_eq {client : Client σ} {answer : Text → Reply}
    {calls : List Call} {answers : client.service.AnswersBy answer}
    {distinct : HaveOwnDigests calls} {cache : Cache} {options : CorrectionOptions} {span : Span}
    {corrected : Corrected}
    (meets : (ofAnswer answers distinct cache).Meets (span.call options) span corrected) :
    corrected.correction = client.reference answer options span := by
  cases meets with
  | answer allowed =>
      have known : client.answerTo? answer (span.call options) = _ := allowed.1
      rw [Client.reference, known]
  | failure failing =>
      have unknown : client.answerTo? answer (span.call options) = none := failing
      rw [Client.reference, unknown]

/-- A text that a run gives for a span and the cache did not have at the start is one that the cache
can write down. -/
theorem Expectation.Meets.isWhole_or_contains {client : Client σ} {answer : Text → Reply}
    {calls : List Call} {answers : client.service.AnswersBy answer}
    {distinct : HaveOwnDigests calls} {cache : Cache} {call : Call} {span : Span}
    {corrected : Corrected} (meets : (ofAnswer answers distinct cache).Meets call span corrected)
    {text : Text} (known : client.answerTo? answer call = some text) :
    Text.IsWhole text ∨ cache.Contains call.key text := by
  cases meets with
  | @answer given _ allowed =>
      have same := allowed.1.symm.trans known
      exact Option.some.inj same ▸ allowed.2
  | failure failing => cases failing.symm.trans known

/-- Whether the cache can write down the key of a span and what becomes of its call. -/
def Client.CanWrite (client : Client σ) (answer : Text → Reply) (call : Call) : Prop :=
  Text.IsWhole call.key ∧ ∀ text, client.answerTo? answer call = some text → Text.IsWhole text

theorem Client.CanWrite.isWritable {client : Client σ} {answer : Text → Reply}
    (answers : client.service.AnswersBy answer) {call : Call}
    (writes : client.CanWrite answer call) : client.IsWritable call :=
  ⟨writes.1, fun _ outcome => writes.2 _ (answerTo?_of_outcome_ok answers outcome)⟩

namespace Workspace

/-- A workspace with a consistent cache: whenever the clock is read from here on, every entry under
the key of a call that has not expired holds what becomes of the call. -/
def IsConsistent (client : Client σ) (answer : Text → Reply) (calls : List Call)
    (workspace : Workspace σ) : Prop :=
  ∀ call ∈ calls, ∀ entry ∈ workspace.cache.entries, Cache.digestOf call.key = .ok entry.1 →
    ∀ ahead, workspace.cache.isExpired (workspace.time ahead) entry.2 = false →
      client.answerTo? answer call = some entry.2.value

/-- Where the clock never goes back behind its next reading, a cache that is consistent then stays
so while time passes. -/
theorem isConsistent_of_forward {client : Client σ} {answer : Text → Reply} {calls : List Call}
    {workspace : Workspace σ} (forward : ∀ ahead, workspace.time 0 ≤ workspace.time ahead)
    (consistent : ∀ call ∈ calls, ∀ entry ∈ workspace.cache.entries,
      Cache.digestOf call.key = .ok entry.1 →
        workspace.cache.isExpired (workspace.time 0) entry.2 = false →
          client.answerTo? answer call = some entry.2.value) :
    workspace.IsConsistent client answer calls := by
  intro call known entry member digest ahead fresh
  refine consistent call known entry member digest ?_
  have passed := forward ahead
  simp only [Cache.isExpired, decide_eq_false_iff_not] at fresh ⊢
  omega

/-- In a workspace with a consistent cache, what the cache has for a call is what becomes of it. -/
theorem IsConsistent.agrees {client : Client σ} {answer : Text → Reply} {calls : List Call}
    {workspace : Workspace σ} (consistent : workspace.IsConsistent client answer calls)
    (answers : client.service.AnswersBy answer) (distinct : HaveOwnDigests calls) :
    workspace.Agrees (.ofAnswer answers distinct workspace.cache) :=
  fun call known entry member digest ahead fresh =>
    ⟨consistent call known entry member digest ahead fresh, .inr ⟨entry, member, digest, rfl⟩⟩

theorem Agrees.isConsistent {client : Client σ} {answer : Text → Reply} {calls : List Call}
    {answers : client.service.AnswersBy answer} {distinct : HaveOwnDigests calls} {cache : Cache}
    {workspace : Workspace σ} (agrees : workspace.Agrees (.ofAnswer answers distinct cache)) :
    workspace.IsConsistent client answer calls :=
  fun call known entry member digest ahead fresh =>
    (agrees call known entry member digest ahead fresh).1

/-- A run over a service that looks at the prompt alone, from a consistent cache that can rank its
entries, gives the reference correction of every span unless it is cancelled, and leaves a
consistent cache behind. Otherwise some key or text cannot be written down, and the run gives nothing
at all. What a run gives can be written down, unless the cache had it from the start. Between two calls
nothing is in flight (`inFlight_foldl_perform`). -/
theorem correctSpans_eq_reference (corrector : Corrector σ) (answer : Text → Reply)
    (spans : List Span) (given? : Option CorrectionOptions) (workspace : Workspace σ)
    (answers : corrector.client.service.AnswersBy answer) (positive : 0 < corrector.chunkSize)
    (idle : workspace.session.inFlight = [])
    (distinct : HaveOwnDigests (spans.map (Span.call (given?.getD corrector.correctionOptions))))
    (ranks : workspace.CanRank spans.length)
    (consistent : workspace.IsConsistent corrector.client answer
      (spans.map (Span.call (given?.getD corrector.correctionOptions))))
    (uncancelled : (correctSpans corrector spans given? workspace).2.session.isCancelled = false) :
    (∃ run after, correctSpans corrector spans given? workspace = (.ok run, after) ∧
        run.state = .completed ∧
        run.corrections = spans.map
          (corrector.client.reference answer (given?.getD corrector.correctionOptions)) ∧
        after.IsConsistent corrector.client answer
          (spans.map (Span.call (given?.getD corrector.correctionOptions))) ∧
        ∀ call ∈ spans.map (Span.call (given?.getD corrector.correctionOptions)),
          Text.IsWhole call.key ∧ ∀ text, corrector.client.answerTo? answer call = some text →
            Text.IsWhole text ∨ workspace.cache.Contains call.key text) ∨
      (correctSpans corrector spans given? workspace).1 = .error (.fault .unencodable) ∧
        ∃ call ∈ spans.map (Span.call (given?.getD corrector.correctionOptions)),
          ¬ corrector.client.CanWrite answer call := by
  rcases correctSpans_expected (.ofAnswer answers distinct workspace.cache) True positive idle
      (fun _ => ranks) (consistent.agrees answers distinct) uncancelled with
    ⟨run, after, corrected, corrects, completed, agrees, corrections, aligned⟩ |
      ⟨failure, failed, givesUp⟩
  · refine .inl ⟨run, after, corrects, completed, ?_, agrees.isConsistent, fun call known => ?_⟩
    · rw [corrections]
      exact (map_eq_map_of_forall₂ _ Corrected.correction
        (fun span result fits => fits.2.correction_eq.symm) aligned).symm
    · obtain ⟨span, member, rfl⟩ := List.mem_map.mp known
      obtain ⟨result, -, whole, meets⟩ := exists_aligned_of_mem_left aligned member
      exact ⟨whole, fun text answered => meets.isWhole_or_contains answered⟩
  · cases givesUp with
    | unwritable known foreign =>
        exact .inr ⟨failed, _, known, fun writes => foreign (writes.isWritable answers)⟩
    | unranked unranked => exact absurd trivial unranked

/-- A reply to prompts about one misspelt word, blank for any other. -/
def wordReply (prompt : Text) : Reply :=
  .ok (if Text.contains "teh" prompt then some " the " else none)

/-- A corrector with the replies about one word that asks once and takes two spans at a time. -/
def wordCorrector : Corrector Unit where
  client :=
    { service := { reply := fun state request => (wordReply request.prompt, state) }
      model := []
      policy := { attempts := 1 } }
  chunkSize := 2

def wordSpan (line : Nat) (text : String) : Span where
  text
  kind := .comment
  range := ⟨⟨line, 2⟩, ⟨line, 5⟩⟩
  confidence := 1

/-- A workspace with room for one word, where a wrong one has expired. -/
def staleWorkspace : Workspace Unit where
  session := { service := () }
  now := 1000
  cache :=
    { limits := { maxSize := 3, maxAge := 100 }
      entries := ((Sha256.ofText? ((wordSpan 0 "teh").call {}).key).map fun digest =>
        (digest, ⟨"dog", 0, 5, 3⟩)).toList }

/-- Three spans of which two are the same and the third has no answer: the stale entry is not
used, and both of the first two are corrected. -/
theorem correctSpans_staleWorkspace :
    ∃ run after,
      correctSpans wordCorrector [wordSpan 0 "teh", wordSpan 1 "teh", wordSpan 2 "cat"] (some {})
        staleWorkspace = (.ok run, after) ∧
      run.corrections.map Correction.text = ["the".toText, "the", "cat"] := by
  have answers : wordCorrector.client.service.AnswersBy wordReply :=
    ⟨fun _ _ => rfl, fun _ _ replied => by cases replied⟩
  have distinct : HaveOwnDigests
      ([wordSpan 0 "teh", wordSpan 1 "teh", wordSpan 2 "cat"].map (Span.call {})) :=
    haveOwnDigests_of_ne (by decide +kernel)
  have ranks : staleWorkspace.CanRank 3 := by
    refine canRank_of_hits (by decide +kernel) fun entry member => ?_
    rw [List.mem_singleton.mp member]
    decide +kernel
  have runs : (correctSpans wordCorrector [wordSpan 0 "teh", wordSpan 1 "teh", wordSpan 2 "cat"]
      (some {}) staleWorkspace).1.isOk = true := by
    decide +kernel
  obtain ⟨run, after, corrects, -, corrections, -⟩ | ⟨failed, -⟩ :=
    correctSpans_eq_reference wordCorrector wordReply
      [wordSpan 0 "teh", wordSpan 1 "teh", wordSpan 2 "cat"] (some {}) staleWorkspace answers
      (by decide) rfl distinct ranks
      (isConsistent_of_forward (fun _ => Int.le_refl _) (by decide +kernel)) (by decide +kernel)
  · refine ⟨run, after, corrects, ?_⟩
    rw [corrections]
    decide +kernel
  · rw [failed] at runs
    cases runs

/-- A reply with half of a surrogate pair in it. -/
def halvedReply (_ : Text) : Reply :=
  .ok (some ("The ".toText ++ [.surrogate 0x3D] ++ " cat".toText))

def halvedCorrector : Corrector Unit where
  client :=
    { service := { reply := fun state request => (halvedReply request.prompt, state) }
      model := []
      policy := { attempts := 1 } }
  chunkSize := 2

/-- The cache cannot write down what the service answers, so a run with an empty cache gives no
corrections. -/
theorem not_forall_correctSpans_eq_reference :
    ¬ ∀ (corrector : Corrector Unit) (answer : Text → Reply) (spans : List Span)
      (options : CorrectionOptions) (workspace : Workspace Unit),
      corrector.client.service.AnswersBy answer → 0 < corrector.chunkSize →
      HaveOwnDigests (spans.map (Span.call options)) → workspace.CanRank spans.length →
      workspace.IsConsistent corrector.client answer (spans.map (Span.call options)) →
      (correctSpans corrector spans (some options) workspace).2.session.isCancelled = false →
      ∃ run after, correctSpans corrector spans (some options) workspace = (.ok run, after) ∧
        run.corrections = spans.map (corrector.client.reference answer options) := by
  intro claimed
  have answers : halvedCorrector.client.service.AnswersBy halvedReply :=
    ⟨fun _ _ => rfl, fun _ _ replied => by cases replied⟩
  have fails : (correctSpans halvedCorrector [wordSpan 0 "teh"] (some {})
      { session := { service := () } }).1.isOk = false := by
    decide +kernel
  obtain ⟨run, after, corrects, -⟩ := claimed halvedCorrector halvedReply [wordSpan 0 "teh"] {}
    { session := { service := () } } answers (by decide) (haveOwnDigests_of_ne (by decide +kernel))
    (canRank_of_hits (by decide +kernel) (fun _ => nofun))
    (isConsistent_of_forward (fun _ => Int.le_refl _) (fun _ _ _ => nofun)) (by decide +kernel)
  rw [corrects] at fails
  cases fails

end Workspace

end CodeProse
