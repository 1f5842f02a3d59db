import CodeProse.Proofs.Run.Reference

/-!
# The accounts of a run

A run goes through its chunks one by one, as far as nothing cancels it. Its corrections stand for
the spans of the chunks that it has gone through, and its counts are the numbers of results that
came from the cache, from failures, and with another text. Where the cache gives up on a chunk, the
run breaks off and gives nothing.
-/

set_option autoImplicit false

namespace CodeProse

variable {σ : Type}

/-- What becomes of a lookup: the text that the cache holds, or, where it holds none, an outcome
that the service gave for a call with the same key. An answer is one that the cache can write down,
and a failure leaves the text of the span. -/
inductive Lookup.Gives (client : Client σ) (lookups : List Lookup) (lookup : Lookup) :
    Corrected → Prop where
  | cached {text : Text} (stored : lookup.cached = .ok (some text)) :
      Gives client lookups lookup ⟨lookup.span.correctedBy text lookup.span.confidence, .cache⟩
  | answered {text : Text} (missing : lookup.cached = .ok none)
      (learns : Workspace.Learns client lookups lookup (.ok text))
      (whole : Text.IsWhole (unwrap text lookup.span.text)) :
      Gives client lookups lookup
        ⟨lookup.span.correctedBy (unwrap text lookup.span.text) lookup.span.confidence, .service⟩
  | failed {failure : Failure} (missing : lookup.cached = .ok none)
      (learns : Workspace.Learns client lookups lookup (.error failure)) :
      Gives client lookups lookup ⟨lookup.span.correctedBy lookup.span.text 0, .failure⟩

/-- A result that stands for a span: at its place, with its text as the draft, and with its
confidence, or with none and the text unchanged after a failure. -/
structure Corrected.StandsFor (span : Span) (corrected : Corrected) : Prop where
  range : corrected.correction.range = span.range
  draft : corrected.correction.draft = span.text
  kept : corrected.origin ≠ .failure → corrected.correction.confidence = span.confidence
  failed : corrected.origin = .failure →
    corrected.correction.confidence = 0 ∧ corrected.correction.text = span.text

theorem Lookup.Gives.standsFor {client : Client σ} {lookups : List Lookup} {lookup : Lookup}
    {corrected : Corrected} (gives : lookup.Gives client lookups corrected) :
    corrected.StandsFor lookup.span := by
  cases gives with
  | cached stored => exact ⟨rfl, rfl, fun _ => rfl, fun impossible => by cases impossible⟩
  | answered missing learns whole =>
      exact ⟨rfl, rfl, fun _ => rfl, fun impossible => by cases impossible⟩
  | failed missing learns => exact ⟨rfl, rfl, fun other => absurd rfl other, fun _ => ⟨rfl, rfl⟩⟩

theorem Corrected.StandsFor.unchanged {span : Span} {corrected : Corrected}
    (stands : corrected.StandsFor span) (failure : corrected.origin = .failure) :
    corrected.correction.changed = false := by
  obtain ⟨-, text⟩ := stands.failed failure
  simp [Correction.changed, text, stands.draft]

section Counting

/-- How many results came from an origin. -/
def Origin.countIn (origin : Origin) (corrected : List Corrected) : Nat :=
  corrected.countP fun result => result.origin = origin

/-- The counts of a run are those of its results. The induction generalises the counts that it
starts from. -/
theorem foldl_count_eq {corrected : List Corrected}
    (unchanged : ∀ result ∈ corrected, result.origin = .failure →
      result.correction.changed = false) (start : RunStats) :
    corrected.foldl RunStats.count start =
      { totalTexts := start.totalTexts
        corrected := start.corrected + corrected.countP fun result => result.correction.changed
        cached := start.cached + Origin.cache.countIn corrected
        failed := start.failed + Origin.failure.countIn corrected } := by
  induction corrected generalizing start with
  | nil => rfl
  | cons result rest ih =>
      obtain ⟨first, further⟩ := List.forall_mem_cons.mp unchanged
      rw [List.foldl_cons, ih further]
      obtain ⟨correction, origin⟩ := result
      cases origin with
      | service =>
          cases changed : correction.changed with
          | false => simp [RunStats.count, Origin.countIn, changed]
          | true => simp [RunStats.count, Origin.countIn, changed]; omega
      | cache =>
          cases changed : correction.changed with
          | false => simp [RunStats.count, Origin.countIn, changed]; omega
          | true => simp [RunStats.count, Origin.countIn, changed]; omega
      | failure =>
          have same : correction.changed = false := first rfl
          simp [RunStats.count, Origin.countIn, same]
          omega

theorem countP_changed (corrected : List Corrected) :
    (corrected.countP fun result => result.correction.changed) =
      ((corrected.map Corrected.correction).filter Correction.changed).length := by
  rw [← List.countP_eq_length_filter, List.countP_map]
  rfl

end Counting

namespace Workspace

section Chunk

variable {corrector : Corrector σ} {options : CorrectionOptions}

theorem takeUp_gives {lookups : List Lookup} {lookup : Lookup} {outcome : Except Failure Text}
    (missing : lookup.cached = .ok none) (learns : Learns corrector.client lookups lookup outcome)
    {workspace : Workspace σ} {corrected : Corrected}
    (taken : (takeUp lookup outcome workspace).1 = .ok corrected) :
    lookup.Gives corrector.client lookups corrected := by
  have takes := takeUp_takesUp lookup outcome workspace
  generalize takeUp lookup outcome workspace = result at takes taken
  cases takes with
  | passedOn configuration => cases taken
  | leftAsItIs other records => exact Except.ok.inj taken ▸ .failed missing learns
  | taken stored =>
      exact Except.ok.inj taken ▸ .answered missing learns (Cache.isWhole_of_store stored).2
  | lost refused => cases taken

/-- A chunk that does not fail gives a result for each of its lookups. -/
theorem correctChunk_gives {options : CorrectionOptions} {chunk : List Span}
    {workspace after : Workspace σ} {corrected : List Corrected}
    (idle : workspace.session.inFlight = [])
    (given : correctChunk corrector options chunk workspace = (.ok corrected, after)) :
    List.Forall₂ (Lookup.Gives corrector.client (workspace.lookUp options chunk).1)
      (workspace.lookUp options chunk).1 corrected := by
  generalize found : workspace.lookUp options chunk = looking
  obtain ⟨lookups, looked⟩ := looking
  obtain ⟨-, results⟩ := correctChunk_spec corrector (fun _ => True)
    (Lookup.Gives corrector.client lookups) found (fun _ => trivial)
    (fun _ _ _ stored => .cached stored)
    (fun lookup _ missing outcome learns before _ =>
      ⟨trivial, fun corrected taken => takeUp_gives missing learns taken⟩)
  rw [given] at results
  exact results.2.forall₂ idle

/-- A chunk by a harmless service fails only where the cache gives up on one of its spans. -/
theorem correctChunk_error (harmless : corrector.client.service.IsHarmless) {chunk : List Span}
    {workspace after : Workspace σ} {failure : Failure}
    (given : correctChunk corrector options chunk workspace = (.error failure, after)) :
    corrector.client.GivesUp (chunk.map (Span.call options)) (workspace.CanRank chunk.length)
      failure := by
  have alone : [chunk].flatten = chunk := List.flatten_singleton
  have course : OnCourse (.any harmless (chunk.map (Span.call options))) False
      (workspace.CanRank chunk.length) [chunk] workspace :=
    ⟨False.elim, fun span member => alone ▸ member, fun ranks => alone.symm ▸ ranks,
      fun _ _ _ _ _ _ _ => trivial⟩
  have gives := chunkGives_expected _ _ _ chunk [] workspace course
  rw [given] at gives
  exact gives

end Chunk

section Run

variable {corrector : Corrector σ} {options : CorrectionOptions}

/-- What a run has gone through: chunks before and behind each of which nothing was cancelled, with
the results of their lookups, one behind the other. -/
inductive Passes (corrector : Corrector σ) (options : CorrectionOptions) :
    Workspace σ → List (List Span) → List Corrected → Workspace σ → Prop where
  | nothing {start : Workspace σ} : Passes corrector options start [] [] start
  | chunk {start behind final : Workspace σ} {chunk : List Span} {rest : List (List Span)}
      {corrected more : List Corrected} {session : Session σ}
      (before : start.session.isCancelled = false)
      (given : correctChunk corrector options chunk start = (.ok corrected, behind))
      (gives : List.Forall₂ (Lookup.Gives corrector.client (start.lookUp options chunk).1)
        (start.lookUp options chunk).1 corrected)
      (after : behind.session.isCancelled = false)
      (paused : session = behind.session ∨ session = behind.session.pause corrector.chunkPause)
      (further : Passes corrector options { behind with session } rest more final) :
      Passes corrector options start (chunk :: rest) (corrected ++ more) final

/-- How a run ends behind the chunks that it has gone through: none is left, or the work was
cancelled before or behind the next one. -/
inductive Ends (corrector : Corrector σ) (options : CorrectionOptions) (final : Workspace σ) :
    List (List Span) → Bool → Prop where
  | finished : Ends corrector options final [] false
  | before {chunk : List Span} {rest : List (List Span)}
      (cancelled : final.session.isCancelled = true) :
      Ends corrector options final (chunk :: rest) true
  | behind {chunk : List Span} {rest : List (List Span)}
      (cancelled : (correctChunk corrector options chunk final).2.session.isCancelled = true) :
      Ends corrector options final (chunk :: rest) true

/-- The cache was asked, and answered, for each lookup of which something has become. -/
theorem isWhole_of_gives {start : Workspace σ} {chunk : List Span} {lookup : Lookup}
    {lookups : List Lookup} {corrected : Corrected}
    (known : lookup ∈ (start.lookUp options chunk).1)
    (gives : lookup.Gives corrector.client lookups corrected) : Text.IsWhole lookup.call.key := by
  refine Decidable.byContradiction fun foreign => ?_
  have refused := (cached_eq_error_iff known).mpr ⟨foreign, rfl⟩
  cases gives with
  | cached stored => cases refused.symm.trans stored
  | answered missing learns whole => cases refused.symm.trans missing
  | failed missing learns => cases refused.symm.trans missing

theorem Passes.standsFor {start final : Workspace σ} {passed : List (List Span)}
    {corrected : List Corrected} (passes : Passes corrector options start passed corrected final) :
    List.Forall₂ Corrected.StandsFor passed.flatten corrected := by
  induction passes with
  | nothing => exact .nil
  | @chunk start behind final chunk rest corrected more session before given gives after paused
      further ih =>
      have here : List.Forall₂ Corrected.StandsFor chunk corrected := by
        refine forall₂_compose ?_ (lookUp_aligned options chunk start) gives
        intro span lookup result aligned given
        exact aligned.1 ▸ given.standsFor
      rw [List.flatten_cons]
      exact List.rel_append here ih

/-- What a run by a harmless service leads to: it goes through some of its chunks and then ends, or
the cache gives up on the next one. A run that is not cancelled ends uncancelled, unless there was no
chunk at which it could have been noticed. -/
def Concludes (corrector : Corrector σ) (options : CorrectionOptions) (done : List Corrected)
    (chunks : List (List Span)) (start : Workspace σ) :
    Except Failure (List Corrected × Bool) × Workspace σ → Prop
  | (.ok (all, cancelled), after) => ∃ passed left corrected final,
      chunks = passed ++ left ∧ all = done ++ corrected ∧
        Passes corrector options start passed corrected final ∧
        Ends corrector options final left cancelled ∧
        ((chunks = [] → start.session.isCancelled = false) →
          after.session.isCancelled = cancelled)
  | (.error failure, _) => ∃ passed chunk left corrected final,
      chunks = passed ++ chunk :: left ∧ Passes corrector options start passed corrected final ∧
        corrector.client.GivesUp (chunk.map (Span.call options)) (final.CanRank chunk.length) failure

theorem Concludes.chunk {start behind : Workspace σ} {chunk : List Span} {rest : List (List Span)}
    {done corrected : List Corrected} {session : Session σ}
    {result : Except Failure (List Corrected × Bool) × Workspace σ}
    (before : start.session.isCancelled = false) (idle : start.session.inFlight = [])
    (given : correctChunk corrector options chunk start = (.ok corrected, behind))
    (after : behind.session.isCancelled = false)
    (resumes : Resumes corrector rest behind.session session)
    (later : Concludes corrector options (done ++ corrected) rest { behind with session } result) :
    Concludes corrector options done (chunk :: rest) start result := by
  have paused : session = behind.session ∨
      session = behind.session.pause corrector.chunkPause := by
    cases resumes with
    | straight none => exact .inl rfl
    | pause several unfinished => exact .inr rfl
  have last : rest = [] → session = behind.session := fun none => by
    cases resumes with
    | straight none => rfl
    | pause several unfinished => exact absurd none unfinished
  have gives := correctChunk_gives idle given
  rcases result with ⟨failure | ⟨all, cancelled⟩, final⟩
  · obtain ⟨passed, next, left, more, reached, split, passes, givesUp⟩ := later
    exact ⟨chunk :: passed, next, left, corrected ++ more, reached, congrArg (chunk :: ·) split,
      .chunk before given gives after paused passes, givesUp⟩
  · obtain ⟨passed, left, more, reached, split, joined, passes, ends, settled⟩ := later
    refine ⟨chunk :: passed, left, corrected ++ more, reached, congrArg (chunk :: ·) split, ?_,
      .chunk before given gives after paused passes, ends, fun _ => settled fun none => ?_⟩
    · rw [joined, List.append_assoc]
    · rw [last none]
      exact after

theorem correctChunks_concludes (options : CorrectionOptions)
    (harmless : corrector.client.service.IsHarmless) (done : List Corrected)
    (chunks : List (List Span)) (workspace : Workspace σ)
    (idle : workspace.session.inFlight = []) :
    Concludes corrector options done chunks workspace
      (correctChunks corrector options done chunks workspace) := by
  have through := correctChunks_goesThrough corrector options done chunks workspace
  generalize correctChunks corrector options done chunks workspace = result at through ⊢
  induction through with
  | finished =>
      exact ⟨[], [], [], _, rfl, (List.append_nil _).symm, .nothing, .finished,
        fun uncancelled => uncancelled rfl⟩
  | before cancelled =>
      exact ⟨[], _, [], _, rfl, (List.append_nil _).symm, .nothing, .before cancelled,
        fun _ => cancelled⟩
  | failed before given =>
      exact ⟨[], _, _, [], _, rfl, .nothing, correctChunk_error harmless given⟩
  | behind before given cancelled records =>
      refine ⟨[], _, [], _, rfl, (List.append_nil _).symm, .nothing, .behind ?_, fun _ => cancelled⟩
      rw [given]
      exact cancelled
  | @passed done corrected chunk rest start behind session result before given after resumes further
      ih =>
      have kept := correctChunk_inFlight corrector options chunk start
      rw [given] at kept
      exact (ih (resumes.inFlight.trans (kept.trans idle))).chunk before idle given after resumes

/-- The accounts of a run: it went through whole chunks from the front of the spans, its
corrections stand for their spans one by one, and its counts are those of its results. It is
completed exactly if no chunk is left, and it is cancelled before or behind the next one
otherwise. -/
structure Accounts (corrector : Corrector σ) (options : CorrectionOptions) (spans : List Span)
    (start : Workspace σ) (run : Run) (after : Workspace σ) (passed left : List (List Span))
    (corrected : List Corrected) (final : Workspace σ) : Prop where
  chunks : CodeProse.chunks corrector.chunkSize spans = passed ++ left
  whole : passed.flatten ++ left.flatten = spans
  passes : Passes corrector options start passed corrected final
  corrections : run.corrections = corrected.map Corrected.correction
  stand : List.Forall₂ Corrected.StandsFor passed.flatten corrected
  keys : ∀ span ∈ passed.flatten, Text.IsWhole (span.call options).key
  stats : run.stats =
    { totalTexts := spans.length
      corrected := run.changed.length
      cached := Origin.cache.countIn corrected
      failed := Origin.failure.countIn corrected }
  ends : run.state = .completed ∧ Ends corrector options final left false ∨
    run.state = .cancelled ∧ Ends corrector options final left true
  state : spans ≠ [] → (run.state = .cancelled ↔ after.session.isCancelled = true)

theorem Passes.keys {start final : Workspace σ} {passed : List (List Span)}
    {corrected : List Corrected} (passes : Passes corrector options start passed corrected final) :
    ∀ span ∈ passed.flatten, Text.IsWhole (span.call options).key := by
  induction passes with
  | nothing => exact fun span member => nomatch member
  | @chunk start behind final chunk rest corrected more session before given gives after paused
      further ih =>
      rw [List.flatten_cons]
      refine List.forall_mem_append.mpr ⟨fun span member => ?_, ih⟩
      obtain ⟨lookup, known, rfl, call⟩ :=
        exists_aligned_of_mem_left (lookUp_aligned options chunk start) member
      obtain ⟨result, -, given⟩ := exists_aligned_of_mem_left gives known
      exact call ▸ isWhole_of_gives known given

theorem chunks_ne_nil {size : Nat} (positive : 0 < size) {spans : List Span} (some : spans ≠ []) :
    chunks size spans ≠ [] := by
  intro none
  have whole := flatten_chunks positive spans
  rw [none] at whole
  exact some whole.symm

/-- How a run breaks off: behind the chunks that it has gone through, the cache gives up on the next
one. -/
structure BreaksOff (corrector : Corrector σ) (options : CorrectionOptions) (spans : List Span)
    (start : Workspace σ) (failure : Failure) (passed : List (List Span)) (chunk : List Span)
    (left : List (List Span)) (corrected : List Corrected) (final : Workspace σ) : Prop where
  chunks : CodeProse.chunks corrector.chunkSize spans = passed ++ chunk :: left
  passes : Passes corrector options start passed corrected final
  givesUp : corrector.client.GivesUp (chunk.map (Span.call options)) (start.CanRank spans.length)
    failure

/-- A run by a harmless service fails only where the cache gives up. -/
theorem correctSpans_error (harmless : corrector.client.service.IsHarmless)
    (positive : 0 < corrector.chunkSize) {spans : List Span} {given? : Option CorrectionOptions}
    {workspace after : Workspace σ} {failure : Failure}
    (failed : correctSpans corrector spans given? workspace = (.error failure, after)) :
    corrector.client.GivesUp (spans.map (Span.call (given?.getD corrector.correctionOptions)))
      (workspace.CanRank spans.length) failure := by
  have agrees : workspace.Agrees (.any harmless
      (spans.map (Span.call (given?.getD corrector.correctionOptions)))) :=
    fun _ _ _ _ _ _ _ => trivial
  have result := correctSpans_agrees _ (workspace.CanRank spans.length) positive id agrees
  rw [failed] at result
  exact result

theorem finishRun_accounts {spans : List Span} {start last : Workspace σ}
    (positive : 0 < corrector.chunkSize) {all : List Corrected} {cancelled : Bool}
    (concludes : Concludes corrector options [] (chunks corrector.chunkSize spans) start
      (.ok (all, cancelled), last)) :
    ∃ passed left final, Accounts corrector options spans start
      (finishRun spans.length all cancelled last).1 (finishRun spans.length all cancelled last).2
      passed left all final := by
  obtain ⟨passed, left, corrected, final, split, joined, passes, ends, settled⟩ := concludes
  rw [List.nil_append] at joined
  subst joined
  have stand := passes.standsFor
  have unchanged : ∀ result ∈ all, result.origin = .failure →
      result.correction.changed = false := by
    intro result member failure
    obtain ⟨span, -, stands⟩ := exists_aligned_of_mem_right stand member
    exact stands.unchanged failure
  refine ⟨passed, left, final, split, ?_, passes, rfl, stand, passes.keys, ?_, ?_, ?_⟩
  · rw [← List.flatten_append, ← split, flatten_chunks positive]
  · simp only [finishRun, foldl_count_eq unchanged, countP_changed, Run.changed, Nat.zero_add]
  · cases cancelled with
    | false => exact .inl ⟨rfl, ends⟩
    | true => exact .inr ⟨rfl, ends⟩
  · intro some
    have raised : last.session.isCancelled = cancelled :=
      settled fun none => absurd none (chunks_ne_nil positive some)
    have kept : (finishRun spans.length all cancelled last).2.session.isCancelled =
        last.session.isCancelled := rfl
    rw [kept, raised]
    cases cancelled with
    | false => simp [finishRun]
    | true => simp [finishRun]

/-- A run by a harmless service has its accounts in order, whatever its chunks and whenever it is
cancelled, unless the cache gives up on a chunk. Then the run breaks off with that failure. Nothing is
in flight when it starts, as between all calls (`inFlight_foldl_perform`). -/
theorem correctSpans_accounts (corrector : Corrector σ) (spans : List Span)
    (given? : Option CorrectionOptions) (workspace : Workspace σ)
    (harmless : corrector.client.service.IsHarmless) (positive : 0 < corrector.chunkSize)
    (idle : workspace.session.inFlight = []) :
    (∃ run after passed left corrected final,
        correctSpans corrector spans given? workspace = (.ok run, after) ∧
          Accounts corrector (given?.getD corrector.correctionOptions) spans
            { workspace with state := .running } run after passed left corrected final) ∨
      ∃ failure passed chunk left corrected final,
        (correctSpans corrector spans given? workspace).1 = .error failure ∧
          BreaksOff corrector (given?.getD corrector.correctionOptions) spans
            { workspace with state := .running } failure passed chunk left corrected final := by
  have concludes := correctChunks_concludes (given?.getD corrector.correctionOptions) harmless
    [] (chunks corrector.chunkSize spans) { workspace with state := .running } idle
  have fails := @correctSpans_error _ corrector harmless positive spans given? workspace
  simp only [correctSpans] at fails ⊢
  generalize correctChunks corrector (given?.getD corrector.correctionOptions) []
    (chunks corrector.chunkSize spans) { workspace with state := .running } = outcome
    at concludes fails ⊢
  rcases outcome with ⟨failure | ⟨all, cancelled⟩, last⟩
  · obtain ⟨passed, chunk, left, corrected, final, split, passes, givesUp⟩ := concludes
    have whole := fails rfl
    refine .inr ⟨failure, passed, chunk, left, corrected, final, rfl, split, passes, ?_⟩
    cases givesUp with
    | unwritable known foreign => exact .unwritable known foreign
    | unranked unranked =>
        cases whole with
        | unranked unranked => exact .unranked fun ranks => unranked ⟨ranks.1, ranks.2⟩
  · obtain ⟨passed, left, final, accounts⟩ := finishRun_accounts positive concludes
    exact .inl ⟨_, _, passed, left, all, final, rfl, accounts⟩

def wordSpans : List Span :=
  [wordSpan 0 "teh", wordSpan 1 "cat", wordSpan 2 "teh", wordSpan 3 "dog"]

/-- A workspace whose work is cancelled during the third request. -/
def signalledWorkspace : Workspace Unit where
  session := { service := (), signal := some { atRequest := some 3 } }

/-- The third request belongs to the second chunk, so the corrections of the first one are all that
the run gives back: one from the service, and one for a failure. -/
theorem correctSpans_signalledWorkspace :
    ∃ run after passed left corrected final,
      correctSpans wordCorrector wordSpans (some {}) signalledWorkspace = (.ok run, after) ∧
      run.corrections.map Correction.text = ["the".toText, "cat"] ∧
      run.stats = { totalTexts := 4, corrected := 1, cached := 0, failed := 1 } ∧
      run.state = .cancelled ∧
      Accounts wordCorrector {} wordSpans { signalledWorkspace with state := .running } run after
        passed left corrected final := by
  have answers : wordCorrector.client.service.AnswersBy wordReply :=
    ⟨fun _ _ => rfl, fun _ _ replied => by cases replied⟩
  have ran : (correctSpans wordCorrector wordSpans (some {}) signalledWorkspace).1.map
      (fun run => (run.corrections.map Correction.text, run.stats, run.state)) =
        .ok (["the".toText, "cat"], ⟨4, 1, 0, 1⟩, .cancelled) := by
    decide +kernel
  obtain ⟨run, after, passed, left, corrected, final, corrects, accounts⟩ |
      ⟨failure, passed, chunk, left, corrected, final, failed, -⟩ :=
    correctSpans_accounts wordCorrector wordSpans (some {}) signalledWorkspace answers.isHarmless
      (by decide) rfl
  · rw [corrects] at ran
    simp only [Except.map, Except.ok.injEq, Prod.mk.injEq] at ran
    obtain ⟨texts, stats, state⟩ := ran
    exact ⟨run, after, passed, left, corrected, final, corrects, texts, stats, state, accounts⟩
  · rw [failed] at ran
    cases ran

/-- A harmless service whose answer the cache cannot write down: the run has no accounts at all. -/
theorem not_forall_correctSpans_accounts :
    ¬ ∀ (corrector : Corrector Unit) (spans : List Span) (options : CorrectionOptions)
      (workspace : Workspace Unit),
      corrector.client.service.IsHarmless → 0 < corrector.chunkSize →
      ∃ run after passed left corrected final,
        correctSpans corrector spans (some options) workspace = (.ok run, after) ∧
          Accounts corrector options spans { workspace with state := .running } run after passed
            left corrected final := by
  intro claimed
  have answers : halvedCorrector.client.service.AnswersBy halvedReply :=
    ⟨fun _ _ => rfl, fun _ _ replied => by cases replied⟩
  have fails : (correctSpans halvedCorrector wordSpans (some {})
      { session := { service := () } }).1.isOk = false := by
    decide +kernel
  obtain ⟨run, after, passed, left, corrected, final, corrects, -⟩ :=
    claimed halvedCorrector wordSpans {} { session := { service := () } } answers.isHarmless
      (by decide)
  rw [corrects] at fails
  cases fails

end Run

end Workspace

end CodeProse
