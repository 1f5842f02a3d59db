import CodeProse.Proofs.Run.Accounts
import CodeProse.Proofs.Run.Continuation
import CodeProse.Proofs.Service.Turns

/-!
# Cancelled runs

A run unfolds turn by turn. From the turn on in which it is cancelled, it asks for nothing in a
later chunk and for nothing again, and at most once for each text that is left in the chunk. It ends
as cancelled, with the corrections of the chunks that were finished by then, unless the cache gives up
on the chunk that was worked on.
-/

set_option autoImplicit false

namespace CodeProse

variable {σ : Type}

/-- How many chunks are finished in a turn; the pause behind a chunk comes when it is. -/
def Turn.finished (turn : Turn σ) : Nat :=
  if turn.key.isSome then turn.chunk else turn.chunk + 1

/-- What a turn allows a later one that makes a request: it is about another text of the same chunk
if it finds the work cancelled, and it belongs to the same chunk if the turn left it so. -/
structure Turn.Limits (turn next : Turn σ) : Prop where
  spares : next.before.isCancelled = true → next.made ≠ [] → turn.chunk = next.chunk →
    turn.key ≠ next.key
  within : turn.behind.isCancelled = true → next.made ≠ [] → next.chunk = turn.chunk

theorem Turn.Limits.of_made_eq_nil {turn next : Turn σ} (none : next.made = []) :
    turn.Limits next :=
  ⟨fun _ asks => absurd none asks, fun _ asks => absurd none asks⟩

/-- The requests that some turns make for a text of a chunk, known by its key. -/
def requestsFor (chunk : Nat) (key : Option Text) (turns : List (Turn σ)) : List Request :=
  (turns.filter fun turn => turn.chunk = chunk ∧ turn.key = key).flatMap Turn.made

section Requests

variable {chunk : Nat} {key : Option Text} {turns : List (Turn σ)}

theorem requestsFor_eq_nil
    (none : ∀ turn ∈ turns, turn.chunk = chunk → turn.key = key → turn.made = []) :
    requestsFor chunk key turns = [] := by
  refine List.flatMap_eq_nil_iff.mpr fun turn member => ?_
  obtain ⟨known, same⟩ := List.mem_filter.mp member
  obtain ⟨here, keys⟩ := of_decide_eq_true same
  exact none turn known here keys

theorem requestsFor_cons (turn : Turn σ) (rest : List (Turn σ)) :
    requestsFor chunk key (turn :: rest) =
      (if turn.chunk = chunk ∧ turn.key = key then turn.made else []) ++
        requestsFor chunk key rest := by
  by_cases same : turn.chunk = chunk ∧ turn.key = key
  · simp [requestsFor, same]
  · simp [requestsFor, same]

/-- Where only the first turn for a text makes a request, there is at most one. -/
theorem length_requestsFor_le (single : ∀ turn ∈ turns, turn.made.length ≤ 1)
    (first : turns.Pairwise fun turn next =>
      next.made ≠ [] → turn.chunk = next.chunk → turn.key ≠ next.key) :
    (requestsFor chunk key turns).length ≤ 1 := by
  induction turns with
  | nil => exact Nat.zero_le 1
  | cons turn rest ih =>
      obtain ⟨small, further⟩ := List.forall_mem_cons.mp single
      obtain ⟨later, restFirst⟩ := List.pairwise_cons.mp first
      rw [requestsFor_cons]
      split
      · next same =>
          have none : requestsFor chunk key rest = [] := by
            refine requestsFor_eq_nil fun next member here keys => ?_
            by_contra asks
            exact later next member asks (same.1.trans here.symm) (same.2.trans keys.symm)
          rw [none, List.append_nil]
          exact small
      · exact ih further restFirst

end Requests

/-- What is left behind a turn in which the work is cancelled: requests in the same chunk only, none
for a text that has had its turn, and at most one for each other. -/
structure Turn.CutsShort (front : List (Turn σ)) (turn : Turn σ) (late : List (Turn σ)) : Prop where
  sameChunk : ∀ next ∈ late, next.made ≠ [] → next.chunk = turn.chunk
  noRetry : ∀ known ∈ front ++ [turn], requestsFor known.chunk known.key late = []
  once : ∀ chunk key, (requestsFor chunk key late).length ≤ 1

theorem Leads.cutsShort {start final : Session σ} {front late : List (Turn σ)} {turn : Turn σ}
    (leads : Leads start (front ++ turn :: late) final)
    (single : ∀ next ∈ late, next.made.length ≤ 1)
    (limits : (front ++ turn :: late).Pairwise Turn.Limits)
    (cancelled : turn.behind.isCancelled = true) : turn.CutsShort front late := by
  obtain ⟨-, found⟩ := leads.stays_behind cancelled
  obtain ⟨-, behind, early⟩ := List.pairwise_append.mp limits
  obtain ⟨here, later⟩ := List.pairwise_cons.mp behind
  constructor
  · intro next member asks
    exact (here next member).within cancelled asks
  · intro known member
    have limit : ∀ next ∈ late, known.Limits next := by
      intro next nextMember
      rcases List.mem_append.mp member with before | same
      · exact early known before next (List.mem_cons_of_mem turn nextMember)
      · rw [List.mem_singleton.mp same]
        exact here next nextMember
    refine requestsFor_eq_nil fun next nextMember chunk key => ?_
    by_contra asks
    exact (limit next nextMember).spares (found next nextMember) asks chunk.symm key.symm
  · intro chunk key
    refine length_requestsFor_le single (later.imp_of_mem fun _ nextMember limit => ?_)
    exact limit.spares (found _ nextMember)

namespace Workspace

variable {corrector : Corrector σ} {options : CorrectionOptions}

/-- The turns of a chunk with a number. -/
def chunkTurns (corrector : Corrector σ) (options : CorrectionOptions) (number : Nat)
    (chunk : List Span) (workspace : Workspace σ) : List (Turn σ) :=
  corrector.client.turns number (workspace.missingCalls options chunk) workspace.session

/-- The pause behind a chunk, if there is one, leads to a session in which the next one starts. -/
inductive Pauses (corrector : Corrector σ) (number : Nat) (rest : List (List Span))
    (behind : Session σ) : List (Turn σ) → Session σ → Prop where
  | straight (none : corrector.chunkSize ≤ 1 ∨ rest = []) :
      Pauses corrector number rest behind [] behind
  | pause (several : 1 < corrector.chunkSize) (unfinished : rest ≠ []) :
      Pauses corrector number rest behind
        [⟨number, none, behind, behind.pause corrector.chunkPause⟩]
        (behind.pause corrector.chunkPause)

/-- How chunks of a run, numbered from the first argument on, unfold into turns, and what they come
to behind the spans that are done. -/
inductive Unfolds (corrector : Corrector σ) (options : CorrectionOptions) :
    Nat → List Corrected → List (List Span) → Workspace σ → List (Turn σ) →
      Except Failure (List Corrected × Bool) × Workspace σ → Prop where
  | finished {number : Nat} {done : List Corrected} {start : Workspace σ} :
      Unfolds corrector options number done [] start [] (.ok (done, false), start)
  | before {number : Nat} {done : List Corrected} {chunk : List Span} {rest : List (List Span)}
      {start : Workspace σ} (cancelled : start.session.isCancelled = true) :
      Unfolds corrector options number done (chunk :: rest) start [] (.ok (done, true), start)
  | failed {number : Nat} {done : List Corrected} {chunk : List Span} {rest : List (List Span)}
      {start behind : Workspace σ} {failure : Failure}
      (before : start.session.isCancelled = false)
      (given : correctChunk corrector options chunk start = (.error failure, behind)) :
      Unfolds corrector options number done (chunk :: rest) start
        (chunkTurns corrector options number chunk start) (.error failure, behind)
  | behind {number : Nat} {done corrected : List Corrected} {chunk : List Span}
      {rest : List (List Span)} {start behind final : Workspace σ}
      (before : start.session.isCancelled = false)
      (given : correctChunk corrector options chunk start = (.ok corrected, behind))
      (cancelled : behind.session.isCancelled = true)
      (same : behind.session.IsLike final.session) :
      Unfolds corrector options number done (chunk :: rest) start
        (chunkTurns corrector options number chunk start) (.ok (done, true), final)
  | passed {number : Nat} {done corrected : List Corrected} {chunk : List Span}
      {rest : List (List Span)} {start behind : Workspace σ} {session : Session σ}
      {pauses turns : List (Turn σ)}
      {result : Except Failure (List Corrected × Bool) × Workspace σ}
      (before : start.session.isCancelled = false)
      (given : correctChunk corrector options chunk start = (.ok corrected, behind))
      (after : behind.session.isCancelled = false)
      (paused : Pauses corrector number rest behind.session pauses session)
      (further : Unfolds corrector options (number + 1) (done ++ corrected) rest
        { behind with session } turns result) :
      Unfolds corrector options number done (chunk :: rest) start
        (chunkTurns corrector options number chunk start ++ (pauses ++ turns)) result

theorem Resumes.pauses {rest : List (List Span)} {behind session : Session σ}
    (resumes : Resumes corrector rest behind session) (number : Nat) :
    ∃ pauses, Pauses corrector number rest behind pauses session := by
  cases resumes with
  | straight none => exact ⟨[], .straight none⟩
  | pause several unfinished => exact ⟨_, .pause several unfinished⟩

theorem GoesThrough.unfolds {done : List Corrected} {chunks : List (List Span)}
    {start : Workspace σ} {result : Except Failure (List Corrected × Bool) × Workspace σ}
    (through : GoesThrough corrector options done chunks start result) (number : Nat) :
    ∃ turns, Unfolds corrector options number done chunks start turns result := by
  induction through generalizing number with
  | finished => exact ⟨[], .finished⟩
  | before cancelled => exact ⟨[], .before cancelled⟩
  | failed before given => exact ⟨_, .failed before given⟩
  | behind before given cancelled records => exact ⟨_, .behind before given cancelled ⟨rfl, rfl⟩⟩
  | passed before given after resumes further ih =>
      obtain ⟨pauses, paused⟩ := resumes.pauses number
      obtain ⟨turns, unfolds⟩ := ih (number + 1)
      exact ⟨_, .passed before given after paused unfolds⟩

theorem correctChunks_unfolds (corrector : Corrector σ) (options : CorrectionOptions)
    (number : Nat) (done : List Corrected) (chunks : List (List Span)) (start : Workspace σ) :
    ∃ turns, Unfolds corrector options number done chunks start turns
      (correctChunks corrector options done chunks start) :=
  (correctChunks_goesThrough corrector options done chunks start).unfolds number

section Chunk

variable {number : Nat} {chunk : List Span} {workspace : Workspace σ}

theorem chunkTurns_leads (options : CorrectionOptions) (number : Nat) {behind : Workspace σ}
    {outcome : Except Failure (List Corrected)}
    (given : correctChunk corrector options chunk workspace = (outcome, behind)) :
    Leads workspace.session (chunkTurns corrector options number chunk workspace)
      behind.session := by
  obtain ⟨records, same⟩ := correctChunk_session corrector options chunk workspace
  rw [given] at same
  rw [same]
  exact (corrector.client.turns_leads number _ _).to_like ⟨rfl, rfl⟩

theorem mem_chunkTurns {turn : Turn σ}
    (member : turn ∈ chunkTurns corrector options number chunk workspace) :
    turn.chunk = number ∧ turn.key.isSome ∧
      (turn.made = [] ∨ ∃ span ∈ chunk, turn.key = some (span.call options).key ∧
        turn.made = [(corrector.client.job (span.call options)).request]) := by
  obtain ⟨here, key, none | ⟨call, known, same, made⟩⟩ := Client.mem_turns member
  · exact ⟨here, key, .inl none⟩
  · obtain ⟨span, spanKnown, rfl⟩ :=
      List.mem_map.mp (missingCalls_subset options chunk workspace known)
    exact ⟨here, key, .inr ⟨span, spanKnown, same, made⟩⟩

end Chunk

section Course

variable {number : Nat} {done : List Corrected} {chunks : List (List Span)} {start : Workspace σ}
variable {course : List (Turn σ)}
variable {result : Except Failure (List Corrected × Bool) × Workspace σ}

theorem Pauses.leads {rest : List (List Span)} {behind session : Session σ}
    {pauses : List (Turn σ)} (paused : Pauses corrector number rest behind pauses session) :
    Leads behind pauses session := by
  cases paused with
  | straight none => exact .nothing (.refl behind)
  | pause several unfinished =>
      exact .turn (.refl behind) (behind.continues_pause _).drop.2 (.nothing (.refl _))

theorem Pauses.mem {rest : List (List Span)} {behind session : Session σ} {pauses : List (Turn σ)}
    (paused : Pauses corrector number rest behind pauses session) {turn : Turn σ}
    (member : turn ∈ pauses) :
    turn.chunk = number ∧ turn.key = none ∧ turn.made = [] ∧ turn.behind = session ∧ rest ≠ [] := by
  cases paused with
  | straight none => cases member
  | pause several unfinished =>
      rw [List.mem_singleton.mp member]
      have kept := (behind.continues_pause corrector.chunkPause).drop.1
      exact ⟨rfl, rfl, List.subset_nil.mp kept, rfl, unfinished⟩

theorem Pauses.session {rest : List (List Span)} {behind session : Session σ}
    {pauses : List (Turn σ)} (paused : Pauses corrector number rest behind pauses session) :
    session = behind ∨ session = behind.pause corrector.chunkPause := by
  cases paused with
  | straight none => exact .inl rfl
  | pause several unfinished => exact .inr rfl

theorem Pauses.inFlight {rest : List (List Span)} {behind session : Session σ}
    {pauses : List (Turn σ)} (paused : Pauses corrector number rest behind pauses session) :
    session.inFlight = behind.inFlight := by
  cases paused with
  | straight none => exact (Resumes.straight none).inFlight
  | pause several unfinished => exact (Resumes.pause several unfinished).inFlight

theorem Unfolds.leads
    (unfolds : Unfolds corrector options number done chunks start course result) :
    Leads start.session course result.2.session := by
  induction unfolds with
  | finished => exact .nothing (.refl _)
  | before cancelled => exact .nothing (.refl _)
  | failed before given => exact chunkTurns_leads _ _ given
  | behind before given cancelled same => exact (chunkTurns_leads _ _ given).to_like same
  | @passed number done corrected chunk rest start behind session pauses turns result before given
      after paused further ih =>
      rw [← List.append_assoc]
      exact ((chunkTurns_leads options number given).append paused.leads).append ih

/-- Turns find their spans in the chunk with their number. -/
theorem Unfolds.mem (unfolds : Unfolds corrector options number done chunks start course result)
    {turn : Turn σ} (member : turn ∈ course) :
    number ≤ turn.chunk ∧ (turn.made = [] ∨
      ∃ chunk, chunks[turn.chunk - number]? = some chunk ∧
        ∃ span ∈ chunk, turn.key = some (span.call options).key ∧
          turn.made = [(corrector.client.job (span.call options)).request]) := by
  have first : ∀ {number chunk start} {rest : List (List Span)},
      turn ∈ chunkTurns corrector options number chunk start →
        number ≤ turn.chunk ∧ (turn.made = [] ∨
          ∃ known, (chunk :: rest)[turn.chunk - number]? = some known ∧
            ∃ span ∈ known, turn.key = some (span.call options).key ∧
              turn.made = [(corrector.client.job (span.call options)).request]) := by
    intro number chunk start rest here
    obtain ⟨same, -, asked⟩ := mem_chunkTurns here
    refine ⟨same.ge, asked.imp_right fun asked => ⟨chunk, ?_, asked⟩⟩
    rw [same, Nat.sub_self, List.getElem?_cons_zero]
  induction unfolds with
  | finished => cases member
  | before cancelled => cases member
  | failed before given => exact first member
  | behind before given cancelled same => exact first member
  | @passed number done corrected chunk rest start behind session pauses turns result before given
      after paused further ih =>
      rcases List.mem_append.mp member with here | later
      · exact first here
      · rcases List.mem_append.mp later with pausing | later
        · obtain ⟨same, -, none, -⟩ := paused.mem pausing
          exact ⟨same.ge, .inl none⟩
        · obtain ⟨bound, asked⟩ := ih later
          refine ⟨Nat.le_of_succ_le bound, asked.imp_right fun asked => ?_⟩
          obtain ⟨known, item, facts⟩ := asked
          have shifted : turn.chunk - number = (turn.chunk - (number + 1)) + 1 := by omega
          exact ⟨known, by rw [shifted, List.getElem?_cons_succ, item], facts⟩

theorem pairwise_limits_chunkTurns (number : Nat) (chunk : List Span) (workspace : Workspace σ) :
    (chunkTurns corrector options number chunk workspace).Pairwise Turn.Limits := by
  have spares : (chunkTurns corrector options number chunk workspace).Pairwise Turn.Spares :=
    Client.pairwise_spares_turns
  refine spares.imp_of_mem fun {turn next} member nextMember spare => ?_
  obtain ⟨here, -⟩ := mem_chunkTurns member
  obtain ⟨nextHere, -⟩ := mem_chunkTurns nextMember
  exact ⟨fun cancelled asks _ => spare cancelled asks, fun _ _ => nextHere.trans here.symm⟩

/-- Chunks that are found cancelled have no turns, and come to what is done. -/
theorem Unfolds.of_isCancelled
    (unfolds : Unfolds corrector options number done chunks start course result)
    (cancelled : start.session.isCancelled = true) :
    course = [] ∧ (chunks ≠ [] → result = (.ok (done, true), start)) := by
  cases unfolds with
  | finished => exact ⟨rfl, fun some => absurd rfl some⟩
  | before _ => exact ⟨rfl, fun _ => rfl⟩
  | failed before _ => exact absurd cancelled (ne_true_of_eq_false before)
  | behind before _ _ _ => exact absurd cancelled (ne_true_of_eq_false before)
  | passed before _ _ _ _ => exact absurd cancelled (ne_true_of_eq_false before)

theorem Unfolds.pairwise_limits
    (unfolds : Unfolds corrector options number done chunks start course result) :
    course.Pairwise Turn.Limits := by
  induction unfolds with
  | finished => exact .nil
  | before cancelled => exact .nil
  | failed before given => exact pairwise_limits_chunkTurns _ _ _
  | behind before given cancelled same => exact pairwise_limits_chunkTurns _ _ _
  | @passed number done corrected chunk rest start behind session pauses turns result before given
      after paused further ih =>
      have leads := chunkTurns_leads options number given
      refine List.pairwise_append.mpr ⟨pairwise_limits_chunkTurns _ _ _,
        List.pairwise_append.mpr ⟨?_, ih, ?_⟩, ?_⟩
      · refine List.pairwise_of_forall_mem_list fun turn _ next member => ?_
        exact .of_made_eq_nil (paused.mem member).2.2.1
      · -- A pause in which the work is cancelled is the last turn.
        intro turn pausing next later
        obtain ⟨here, -, -, behindPause, -⟩ := paused.mem pausing
        obtain ⟨beyond, -⟩ := further.mem later
        refine ⟨fun _ _ same => ?_, fun cancelled _ => ?_⟩
        · omega
        · rw [behindPause] at cancelled
          rw [(further.of_isCancelled cancelled).1] at later
          cases later
      · -- Behind a chunk that was passed the work is not cancelled, so in none of its turns it was.
        intro turn asking next later
        rcases List.mem_append.mp later with pausing | later
        · exact .of_made_eq_nil (paused.mem pausing).2.2.1
        · obtain ⟨here, -⟩ := mem_chunkTurns asking
          obtain ⟨beyond, -⟩ := further.mem later
          refine ⟨fun _ _ same => ?_, fun cancelled _ => ?_⟩
          · omega
          · exact absurd (leads.isCancelled_of_mem asking cancelled) (ne_true_of_eq_false after)

/-- A run that is cancelled in a turn has gone through the chunks that were finished by then, and
not through all of them. -/
theorem Unfolds.stops (unfolds : Unfolds corrector options number done chunks start course result)
    (idle : start.session.inFlight = []) {turn : Turn σ} (member : turn ∈ course)
    (cancelled : turn.behind.isCancelled = true) {all : List Corrected} {stopped : Bool} (given : result.1 = .ok (all, stopped)) :
    stopped = true ∧ ∃ passed left corrected final, chunks = passed ++ left ∧ left ≠ [] ∧
      number + passed.length = turn.finished ∧ all = done ++ corrected ∧
      Passes corrector options start passed corrected final := by
  have inChunk : ∀ {number chunk start}, turn ∈ chunkTurns corrector options number chunk start →
      turn.finished = number := by
    intro number chunk start here
    obtain ⟨same, key, -⟩ := mem_chunkTurns here
    rw [Turn.finished, if_pos key, same]
  induction unfolds with
  | finished => cases member
  | before _ => cases member
  | failed _ _ => cases given
  | @behind number done corrected chunk rest start behind final before ran _ same =>
      cases given
      exact ⟨rfl, [], chunk :: rest, [], start, rfl, List.cons_ne_nil _ _, (inChunk member).symm,
        (List.append_nil _).symm, .nothing⟩
  | @passed number done corrected chunk rest start behind session pauses turns result before ran
      after paused further ih =>
      have leads := chunkTurns_leads options number ran
      have gives := correctChunk_gives idle ran
      have kept := correctChunk_inFlight corrector options chunk start
      rw [ran] at kept
      have resumed : session.inFlight = [] := paused.inFlight.trans (kept.trans idle)
      rcases List.mem_append.mp member with asking | later
      · exact absurd (leads.isCancelled_of_mem asking cancelled) (ne_true_of_eq_false after)
      · rcases List.mem_append.mp later with pausing | later
        · obtain ⟨here, key, -, behindPause, unfinished⟩ := paused.mem pausing
          rw [behindPause] at cancelled
          rw [(further.of_isCancelled cancelled).2 unfinished] at given
          cases given
          refine ⟨rfl, [chunk], rest, corrected ++ [], _, rfl, unfinished, ?_, ?_,
            .chunk before ran gives after paused.session .nothing⟩
          · rw [Turn.finished, key, here]
            rfl
          · rw [List.append_nil]
        · obtain ⟨stops, passed, left, more, final, split, unfinished, count, joined, passes⟩ :=
            ih resumed later given
          refine ⟨stops, chunk :: passed, left, corrected ++ more, final,
            congrArg (chunk :: ·) split, unfinished, ?_, ?_,
            .chunk before ran gives after paused.session passes⟩
          · rw [List.length_cons, ← count]
            omega
          · rw [joined, List.append_assoc]

end Course

section Run

/-- A run that heeds its signal. Its turns make all of its requests, each for a span of the chunk
that is worked on, and it is cancelled before the first turn or in one of them. A turn in which it is
cancelled cuts it short. -/
structure HeedsSignal (corrector : Corrector σ) (options : CorrectionOptions) (spans : List Span)
    (start after : Workspace σ) (course : List (Turn σ)) : Prop where
  unfolds : Unfolds corrector options 0 [] (chunks corrector.chunkSize spans) start course
    (correctChunks corrector options [] (chunks corrector.chunkSize spans) start)
  leads : Leads start.session course after.session
  asked : ∀ turn ∈ course, turn.made = [] ∨
    ∃ chunk, (chunks corrector.chunkSize spans)[turn.chunk]? = some chunk ∧
      ∃ span ∈ chunk, turn.key = some (span.call options).key ∧
        turn.made = [(corrector.client.job (span.call options)).request]
  unasked : start.session.isCancelled = true → course = []
  raised : after.session.isCancelled = true → start.session.isCancelled = true ∨
    ∃ turn ∈ course, turn.behind.isCancelled = true
  cutsShort : ∀ front turn late, course = front ++ turn :: late →
    turn.behind.isCancelled = true → turn.CutsShort front late

/-- A cancelled run that gives back the corrections of so many chunks, as they were made one by one,
and has left at least one chunk. -/
structure StopsBehind (corrector : Corrector σ) (options : CorrectionOptions) (spans : List Span)
    (start : Workspace σ) (run : Run) (count : Nat) : Prop where
  state : run.state = .cancelled
  corrections : ∃ passed left corrected final,
    chunks corrector.chunkSize spans = passed ++ left ∧ passed.length = count ∧
      left ≠ [] ∧ Passes corrector options start passed corrected final ∧
      run.corrections = corrected.map Corrected.correction ∧
      List.Forall₂ Corrected.StandsFor passed.flatten corrected

variable {spans : List Span} {start last : Workspace σ} {course : List (Turn σ)}

theorem Unfolds.heedsSignal {after : Workspace σ}
    (unfolds : Unfolds corrector options 0 [] (chunks corrector.chunkSize spans) start course
      (correctChunks corrector options [] (chunks corrector.chunkSize spans) start))
    (same : (correctChunks corrector options [] (chunks corrector.chunkSize spans)
      start).2.session.IsLike after.session) :
    HeedsSignal corrector options spans start after course := by
  have leads := unfolds.leads.to_like same
  have asked := fun turn (member : turn ∈ course) => (unfolds.mem member).2
  constructor
  · exact unfolds
  · exact leads
  · exact asked
  · exact fun cancelled => (unfolds.of_isCancelled cancelled).1
  · exact leads.exists_raised
  · rintro front turn late rfl cancelled
    refine leads.cutsShort (fun next member => ?_) unfolds.pairwise_limits cancelled
    rcases asked next (List.mem_append_right front (List.mem_cons_of_mem turn member)) with
      none | ⟨chunk, -, span, -, -, made⟩
    · rw [none]
      exact Nat.zero_le 1
    · rw [made]
      exact Nat.le_refl 1

theorem Unfolds.stopsBehind {all : List Corrected} {stopped : Bool} {turn : Turn σ}
    (unfolds : Unfolds corrector options 0 [] (chunks corrector.chunkSize spans) start course
      (.ok (all, stopped), last))
    (idle : start.session.inFlight = []) (member : turn ∈ course)
    (cancelled : turn.behind.isCancelled = true) :
    StopsBehind corrector options spans start (finishRun spans.length all stopped last).1
      turn.finished := by
  obtain ⟨rfl, passed, left, corrected, final, split, unfinished, count, joined, passes⟩ :=
    unfolds.stops idle member cancelled rfl
  rw [List.nil_append] at joined
  rw [Nat.zero_add] at count
  subst joined
  exact ⟨rfl, passed, left, all, final, split, count, unfinished, passes, rfl, passes.standsFor⟩

theorem Unfolds.stopsBehind_zero {all : List Corrected} {stopped : Bool}
    (unfolds : Unfolds corrector options 0 [] (chunks corrector.chunkSize spans) start course
      (.ok (all, stopped), last))
    (positive : 0 < corrector.chunkSize) (cancelled : start.session.isCancelled = true)
    (some : spans ≠ []) :
    StopsBehind corrector options spans start (finishRun spans.length all stopped last).1 0 := by
  have unfinished := chunks_ne_nil positive some
  cases (unfolds.of_isCancelled cancelled).2 unfinished
  exact ⟨rfl, [], _, [], start, rfl, rfl, unfinished, .nothing, rfl, .nil⟩

/-- A run by a harmless service heeds its signal, whatever its spans and chunks and whenever the
signal is raised. Cancelled in a turn, or before the first one, it ends as cancelled with the
corrections of the chunks that were finished by then, unless the cache gives up on a chunk: then the
run fails. -/
theorem correctSpans_heedsSignal (corrector : Corrector σ) (spans : List Span)
    (given? : Option CorrectionOptions) (workspace : Workspace σ)
    (harmless : corrector.client.service.IsHarmless) (positive : 0 < corrector.chunkSize)
    (idle : workspace.session.inFlight = []) :
    ∃ course,
      HeedsSignal corrector (given?.getD corrector.correctionOptions) spans
        { workspace with state := .running } (correctSpans corrector spans given? workspace).2
        course ∧
      ((∃ run, (correctSpans corrector spans given? workspace).1 = .ok run ∧
          (∀ turn ∈ course, turn.behind.isCancelled = true →
            StopsBehind corrector (given?.getD corrector.correctionOptions) spans
              { workspace with state := .running } run turn.finished) ∧
          (workspace.session.isCancelled = true → spans ≠ [] →
            StopsBehind corrector (given?.getD corrector.correctionOptions) spans
              { workspace with state := .running } run 0)) ∨
        ∃ failure, (correctSpans corrector spans given? workspace).1 = .error failure ∧
          (spans ≠ [] → workspace.session.isCancelled = false) ∧
          corrector.client.GivesUp
            (spans.map (Span.call (given?.getD corrector.correctionOptions)))
            (workspace.CanRank spans.length) failure) := by
  obtain ⟨course, unfolds⟩ := correctChunks_unfolds corrector
    (given?.getD corrector.correctionOptions) 0 [] (chunks corrector.chunkSize spans)
    { workspace with state := .running }
  have fails := @correctSpans_error _ corrector harmless positive spans given? workspace
  refine ⟨course, unfolds.heedsSignal ?_, ?_⟩
  · simp only [correctSpans]
    generalize correctChunks corrector (given?.getD corrector.correctionOptions) [] _
      { workspace with state := .running } = outcome
    rcases outcome with ⟨failure | ⟨all, stopped⟩, last⟩
    · exact .refl _
    · exact ⟨rfl, rfl⟩
  · simp only [correctSpans] at fails ⊢
    generalize correctChunks corrector (given?.getD corrector.correctionOptions) [] _
      { workspace with state := .running } = outcome at unfolds fails ⊢
    rcases outcome with ⟨failure | ⟨all, stopped⟩, last⟩
    · refine .inr ⟨failure, rfl, fun some => ?_, fails rfl⟩
      refine eq_false_of_ne_true fun cancelled => ?_
      cases (unfolds.of_isCancelled cancelled).2 (chunks_ne_nil positive some)
    · exact .inl ⟨_, rfl, fun turn => unfolds.stopsBehind idle,
        unfolds.stopsBehind_zero positive⟩

/-- A corrector that asks twice for what it has not got. -/
def patientCorrector : Corrector Unit where
  client := { wordCorrector.client with policy := { attempts := 2 } }
  chunkSize := 2

/-- A workspace whose work is cancelled during the second pause before a retry. -/
def sleepingWorkspace : Workspace Unit where
  session := { service := (), signal := some { atSleep := some 2 } }

/-- The second pause comes in the second chunk, for the text that is not answered: it is not asked
for again, and the corrections of the first chunk are given back. -/
theorem correctSpans_sleepingWorkspace :
    ∃ course run,
      (correctSpans patientCorrector wordSpans (some {}) sleepingWorkspace).1 = .ok run ∧
      run.corrections.map Correction.text = ["the".toText, "cat"] ∧
      HeedsSignal patientCorrector {} wordSpans { sleepingWorkspace with state := .running }
        (correctSpans patientCorrector wordSpans (some {}) sleepingWorkspace).2 course ∧
      ∃ turn ∈ course, turn.behind.isCancelled = true ∧
        StopsBehind patientCorrector {} wordSpans { sleepingWorkspace with state := .running } run
          turn.finished := by
  have answers : patientCorrector.client.service.AnswersBy wordReply :=
    ⟨fun _ _ => rfl, fun _ _ replied => by cases replied⟩
  have ran : (correctSpans patientCorrector wordSpans (some {}) sleepingWorkspace).1.map
      (fun run => run.corrections.map Correction.text) = .ok ["the".toText, "cat"] := by
    decide +kernel
  obtain ⟨course, heeds, ⟨run, corrects, stops, -⟩ | ⟨failure, failed, -⟩⟩ :=
    correctSpans_heedsSignal patientCorrector wordSpans (some {}) sleepingWorkspace
      answers.isHarmless (by decide) rfl
  · rw [corrects] at ran
    rcases heeds.raised (by decide +kernel) with before | ⟨turn, member, raised⟩
    · cases before
    · exact ⟨course, run, corrects, Except.ok.inj ran, heeds, turn, member, raised,
        stops turn member raised⟩
  · rw [failed] at ran
    cases ran

/-- A workspace whose work is cancelled during the first request. -/
def interruptedWorkspace : Workspace Unit where
  session := { service := (), signal := some { atRequest := some 1 } }

/-- The work is cancelled during a request whose answer the cache cannot write down: the run does not
end as cancelled, it fails. -/
theorem not_forall_correctSpans_stopsBehind :
    ¬ ∀ (corrector : Corrector Unit) (spans : List Span) (options : CorrectionOptions)
      (workspace : Workspace Unit),
      corrector.client.service.IsHarmless → 0 < corrector.chunkSize → spans ≠ [] →
      workspace.session.isCancelled = false →
      (correctSpans corrector spans (some options) workspace).2.session.isCancelled = true →
      ∃ run count, (correctSpans corrector spans (some options) workspace).1 = .ok run ∧
        StopsBehind corrector options spans { workspace with state := .running } run count := by
  intro claimed
  have answers : halvedCorrector.client.service.AnswersBy halvedReply :=
    ⟨fun _ _ => rfl, fun _ _ replied => by cases replied⟩
  have fails : (correctSpans halvedCorrector wordSpans (some {}) interruptedWorkspace).1.isOk =
      false := by
    decide +kernel
  obtain ⟨run, count, corrects, -⟩ := claimed halvedCorrector wordSpans {} interruptedWorkspace
    answers.isHarmless (by decide) (List.cons_ne_nil _ _) rfl (by decide +kernel)
  rw [corrects] at fails
  cases fails

end Run

end Workspace

end CodeProse
