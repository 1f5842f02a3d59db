import CodeProse.Proofs.Run.ConfiguredLimits
import CodeProse.Proofs.Run.Continuation
import CodeProse.Proofs.Run.Reference
import CodeProse.Proofs.Run.Single
import CodeProse.Proofs.Run.Unwrapping
import CodeProse.Run.Correct

/-!
# Prose that is not erased

A reply is checked for blanks before its quotes are taken off. So runs erase no prose exactly if
the service never leaves nothing between its quotes, and no text of a structured reply is blank or
comes to nothing in this way.
-/

set_option autoImplicit false

namespace CodeProse

variable {σ : Type}

/-- A client whose service leaves prose behind: no reply about a text that is not blank is hollow
where the cache can write down the key of the call, and none that is structured names a text that is
blank or hollow. -/
structure Client.LeavesProse (client : Client σ) : Prop where
  plain : ∀ call : Call, Text.IsWhole call.key → call.text.isBlank = false → ∀ reply,
    client.service.Answers (client.job call).request reply → ¬ IsHollow call.text reply
  detailed : ∀ call : Call, call.text.isBlank = false → ∀ reply,
    client.service.Answers (client.detailedJob call).request reply → ∀ detailed,
      DetailedCorrection.ofResponse client.nesting client.model call.text reply = .ok detailed →
        detailed.text.isBlank = false ∧ ¬ IsHollow call.text detailed.text

theorem Client.correctDetailed_eq_ok {client : Client σ} {call : Call} {session : Session σ}
    {detailed : DetailedCorrection}
    (corrects : (client.correctDetailed call session).1 = .ok detailed) :
    0 < client.policy.attempts ∧
      ∃ reply, client.service.Answers (client.detailedJob call).request reply ∧
        DetailedCorrection.ofResponse client.nesting client.model call.text reply = .ok detailed := by
  rw [client.correctDetailed_eq] at corrects
  cases given : outcomeOf (client.detailedFlight call session).settled call.key with
  | error failure =>
      rw [given] at corrects
      cases corrects
  | ok reply =>
      obtain ⟨entry, found, -, answer⟩ := exists_of_outcomeOf_eq_ok given
      obtain ⟨job, member, -, outcome⟩ := (fly_settledOf _ _ _ _ _).outcome entry found
      rw [List.mem_singleton.mp member, answer] at outcome
      obtain ⟨asked, answers⟩ := outcome.answers
      refine ⟨asked, reply, answers, ?_⟩
      rw [given, detailedOf, Except.bind] at corrects
      cases read : DetailedCorrection.ofResponse client.nesting client.model call.text reply with
      | error fault =>
          rw [read] at corrects
          cases corrects
      | ok correction =>
          rw [read] at corrects
          cases corrects
          rfl

/-- Blank texts and others that differ in their digests, so that none is stored over the other. -/
def TellBlanksApart (calls : List Call) : Prop :=
  ∀ blank ∈ calls, blank.text.isBlank = true → ∀ written ∈ calls, written.text.isBlank = false →
    ∀ digest, Cache.digestOf blank.key = .ok digest → Cache.digestOf written.key ≠ .ok digest

/-- A correction that does not erase its draft. -/
def Correction.KeepsProse (correction : Correction) : Prop :=
  correction.draft.isBlank = false → correction.text.isBlank = false

namespace Workspace

/-- No entry of the cache under the key of a text that is not blank holds a blank one. -/
def HoldsProse (workspace : Workspace σ) (calls : List Call) : Prop :=
  ∀ call ∈ calls, call.text.isBlank = false → ∀ entry ∈ workspace.cache.entries,
    Cache.digestOf call.key = .ok entry.1 → entry.2.value.isBlank = false

section Keeping

variable {corrector : Corrector σ} {options : CorrectionOptions} {workspace : Workspace σ}
variable {calls : List Call}

theorem HoldsProse.behindLookUp (holds : workspace.HoldsProse calls) (key : Text)
    (session : Session σ) : (workspace.behindLookUp key session).HoldsProse calls := by
  intro call known written entry member digest
  obtain ⟨old, stored, extra, -, rfl⟩ := Cache.exists_of_mem_entries_get member
  exact holds call known written old stored digest

theorem HoldsProse.behindStore (holds : workspace.HoldsProse calls) (apart : TellBlanksApart calls)
    {call : Call} (known : call ∈ calls) {value : Text}
    (prose : call.text.isBlank = false → value.isBlank = false) :
    (workspace.behindStore call.key value).HoldsProse calls := by
  intro other otherKnown written entry member digest
  rcases Cache.mem_entries_store member with stored | ⟨own, size, keyed, -, rfl⟩
  · exact holds other otherKnown written entry stored digest
  · cases blank : call.text.isBlank with
    | true => exact absurd digest (apart call known blank other otherKnown written own keyed)
    | false => exact prose blank

theorem HoldsProse.lookUp (holds : workspace.HoldsProse calls) {chunk : List Span}
    (known : ∀ span ∈ chunk, span.call options ∈ calls) :
    (workspace.lookUp options chunk).2.HoldsProse calls ∧
      ∀ lookup ∈ (workspace.lookUp options chunk).1, lookup.span.text.isBlank = false →
        ∀ text, lookup.cached = .ok (some text) → text.isBlank = false := by
  refine lookUp_keeps (HoldsProse · calls)
    (fun lookup => lookup.span.text.isBlank = false →
      ∀ text, lookup.cached = .ok (some text) → text.isBlank = false)
    (fun span listed before held => ⟨held.behindLookUp _ _, fun written text found => ?_⟩) holds
  obtain ⟨entry, member, digest, -, rfl⟩ := Cache.exists_of_get_eq_some found
  exact held (span.call options) (known span listed) written entry member digest

theorem HoldsProse.takeUp (holds : workspace.HoldsProse calls) (apart : TellBlanksApart calls)
    {lookup : Lookup} (call : lookup.call = lookup.span.call options) (known : lookup.call ∈ calls)
    {outcome : Except Failure Text}
    (prose : lookup.span.text.isBlank = false → ∀ text, outcome = .ok text →
      (unwrap text lookup.span.text).isBlank = false) :
    (workspace.takeUp lookup outcome).2.HoldsProse calls ∧
      ∀ corrected, (workspace.takeUp lookup outcome).1 = .ok corrected →
        corrected.correction.KeepsProse := by
  have text_eq : lookup.call.text = lookup.span.text := congrArg Call.text call
  have takes := takeUp_takesUp lookup outcome workspace
  generalize workspace.takeUp lookup outcome = result at takes ⊢
  cases takes with
  | passedOn configuration => exact ⟨holds, fun corrected given => nomatch given⟩
  | leftAsItIs other records =>
      exact ⟨holds, fun corrected given => Except.ok.inj given ▸ id⟩
  | taken stored =>
      refine ⟨holds.behindStore apart known fun written => prose (text_eq ▸ written) _ rfl, ?_⟩
      exact fun corrected given => Except.ok.inj given ▸ fun written => prose written _ rfl
  | lost refused =>
      refine ⟨holds.behindStore apart known fun written => prose (text_eq ▸ written) _ rfl, ?_⟩
      exact fun corrected given => nomatch given

/-- What a chunk learns about a span with prose is unwrapped to prose. -/
theorem isBlank_unwrap_of_learns {lookups : List Lookup} {lookup : Lookup} {text : Text}
    (leaves : 0 < corrector.client.policy.attempts → corrector.client.LeavesProse)
    (called : ∀ lookup ∈ lookups, lookup.call = lookup.span.call options)
    (member : lookup ∈ lookups) (whole : Text.IsWhole lookup.call.key)
    (written : lookup.span.text.isBlank = false)
    (learns : Learns corrector.client lookups lookup (.ok text)) :
    (unwrap text lookup.span.text).isBlank = false := by
  obtain ⟨asked, askedMember, key, outcome⟩ := learns
  obtain ⟨attempts, answers⟩ := outcome.answers
  obtain ⟨texts, -⟩ := CorrectionOptions.key_inj key
  have drafts : asked.call.text = lookup.span.text :=
    texts.trans (congrArg Call.text (called lookup member))
  have full : ¬ text.isBlank = true := by
    obtain ⟨-, -, full⟩ := answers
    simp [full]
  have solid : ¬ IsHollow asked.call.text text :=
    (leaves attempts).plain asked.call (key ▸ whole) (drafts ▸ written) text answers
  rw [← Bool.not_eq_true, isBlank_unwrap_iff, ← drafts]
  exact not_or.mpr ⟨full, solid⟩

/-- What a run keeps while some chunks are left: their calls are known, and the cache holds prose for
those that ask about prose. -/
def KeepsOn (calls : List Call) (options : CorrectionOptions) (rest : List (List Span))
    (workspace : Workspace σ) : Prop :=
  (∀ span ∈ rest.flatten, span.call options ∈ calls) ∧ workspace.HoldsProse calls

/-- A chunk keeps prose in the cache and erases none. -/
theorem chunkGives_prose (apart : TellBlanksApart calls)
    (leaves : 0 < corrector.client.policy.attempts → corrector.client.LeavesProse) :
    ChunkGives corrector options (KeepsOn calls options)
      (fun _ corrected => corrected.correction.KeepsProse) False
      (fun _ after => after.HoldsProse calls) := by
  intro chunk rest workspace keeps
  obtain ⟨known, further⟩ := List.forall_mem_append.mp (List.flatten_cons ▸ keeps.1)
  have aligned := lookUp_aligned options chunk workspace
  obtain ⟨kept, cached⟩ := keeps.2.lookUp known
  have refuses := @cached_eq_error_iff _ options chunk workspace
  generalize found : workspace.lookUp options chunk = looking at aligned kept cached refuses
  obtain ⟨lookups, looked⟩ := looking
  have whole : ∀ lookup ∈ lookups, lookup.cached = .ok none → Text.IsWhole lookup.call.key :=
    fun lookup member missing => Decidable.byContradiction fun foreign =>
      nomatch missing.symm.trans ((refuses member).mpr ⟨foreign, rfl⟩)
  have called : ∀ lookup ∈ lookups,
      lookup.call = lookup.span.call options ∧ lookup.call ∈ calls := by
    intro lookup member
    obtain ⟨span, spanMember, rfl, call⟩ := exists_aligned_of_mem_right aligned member
    exact ⟨call, call ▸ known _ spanMember⟩
  obtain ⟨final, results⟩ := correctChunk_spec corrector (fun later => later.HoldsProse calls)
    (fun _ corrected => corrected.correction.KeepsProse) found (fun _ => kept)
    (fun lookup member text stored written => cached lookup member written text stored)
    fun lookup member missing outcome learns before held =>
      held.takeUp apart (called lookup member).1 (called lookup member).2 fun written text same =>
        isBlank_unwrap_of_learns leaves (fun other known => (called other known).1) member
          (whole lookup member missing) written (same ▸ learns)
  generalize Workspace.correctChunk corrector options chunk workspace = outcome at final results ⊢
  rcases outcome with ⟨failure | corrected, after⟩
  · exact final
  · exact ⟨⟨further, final⟩, (results.2.mono False.elim).compose_left
      (fun _ _ _ _ prose => prose) aligned⟩

theorem HoldsProse.correctSpans (holds : workspace.HoldsProse calls)
    (apart : TellBlanksApart calls)
    (leaves : 0 < corrector.client.policy.attempts → corrector.client.LeavesProse)
    {spans : List Span} {given? : Option CorrectionOptions}
    (known : ∀ span ∈ spans, span.call (given?.getD corrector.correctionOptions) ∈ calls) :
    (Workspace.correctSpans corrector spans given? workspace).2.HoldsProse calls ∧
      ∀ run, (Workspace.correctSpans corrector spans given? workspace).1 = .ok run →
        ∀ correction ∈ run.corrections, correction.KeepsProse := by
  have steady : ∀ rest, IsSteady (KeepsOn (σ := σ) calls
      (given?.getD corrector.correctionOptions) rest) := fun _ _ _ _ _ keeps => ⟨keeps.1, keeps.2⟩
  have inChunks : ∀ span ∈ (chunks corrector.chunkSize spans).flatten,
      span.call (given?.getD corrector.correctionOptions) ∈ calls := by
    intro span member
    obtain ⟨chunk, cut, listed⟩ := List.mem_flatten.mp member
    exact known span (mem_of_mem_chunks cut listed)
  have result := correctSpans_spec spans steady (chunkGives_prose apart leaves) ⟨inChunks, holds⟩
  have kept : ∀ {spans : List Span} {corrected : List Corrected},
      PartlyAligned (fun _ corrected => corrected.correction.KeepsProse) False spans corrected →
        ∀ correction ∈ corrected.map Corrected.correction, correction.KeepsProse := by
    rintro spans corrected ⟨some, -, -, aligned⟩ correction member
    obtain ⟨result, listed, rfl⟩ := List.mem_map.mp member
    obtain ⟨-, -, prose⟩ := exists_aligned_of_mem_right aligned listed
    exact prose
  generalize Workspace.correctSpans corrector spans given? workspace = outcome at result ⊢
  rcases outcome with ⟨failure | run, after⟩
  · exact ⟨result, fun run => nofun⟩
  · rcases result with ⟨-, held, corrected, same, aligned⟩ |
      ⟨-, -, ⟨rest, held⟩, passed, corrected, -, same, aligned⟩
    · exact ⟨held.2, fun _ given => Except.ok.inj given ▸ same ▸ kept aligned⟩
    · exact ⟨held.2, fun _ given => Except.ok.inj given ▸ same ▸ kept aligned⟩

/-- A detailed correction keeps prose in the cache and erases none, also where the plain correction
stands in for it. -/
theorem HoldsProse.correctDetailed (holds : workspace.HoldsProse calls)
    (apart : TellBlanksApart calls)
    (leaves : 0 < corrector.client.policy.attempts → corrector.client.LeavesProse)
    {span : Span} {given? : Option CorrectionOptions}
    (known : span.call (given?.getD corrector.correctionOptions) ∈ calls) :
    (Workspace.correctDetailed corrector span given? workspace).2.HoldsProse calls ∧
      ∀ correction, (Workspace.correctDetailed corrector span given? workspace).1 = .ok correction →
        correction.KeepsProse := by
  have prose : ∀ detailed, (corrector.client.correctDetailed
      (span.call (given?.getD corrector.correctionOptions))
      { workspace.session with signal := none }).1 = .ok detailed →
        (detailedCorrection span detailed).KeepsProse := by
    intro detailed corrects written
    obtain ⟨asked, reply, answers, read⟩ := Client.correctDetailed_eq_ok corrects
    obtain ⟨full, solid⟩ := (leaves asked).detailed _ written reply answers detailed read
    rw [detailedCorrection, ← Bool.not_eq_true, isBlank_unwrap_iff, full]
    exact not_or.mpr ⟨Bool.false_ne_true, solid⟩
  have plainly : ∀ session, HoldsProse (Workspace.correctSpans corrector [span] given?
      { workspace with session }).2 calls ∧
        ∀ run, (Workspace.correctSpans corrector [span] given? { workspace with session }).1 =
          .ok run → ∀ correction ∈ run.corrections, correction.KeepsProse := by
    intro session
    have asked : HoldsProse { workspace with session } calls := holds
    refine asked.correctSpans apart leaves fun other member => ?_
    rw [List.mem_singleton.mp member]
    exact known
  have corrects := correctDetailed_correctsInDetail corrector span given? workspace
  generalize Workspace.correctDetailed corrector span given? workspace = result at corrects ⊢
  cases corrects with
  | structured given quiet =>
      refine ⟨holds, fun correction same => ?_⟩
      cases same
      exact prose _ (congrArg Prod.fst given)
  | refused session configuration quiet => exact ⟨holds, fun correction => nofun⟩
  | @plain session run correction more after given quiet first =>
      obtain ⟨kept, gives⟩ := plainly session
      rw [given] at kept gives
      refine ⟨kept, fun other same => ?_⟩
      cases same
      exact gives run rfl correction (first ▸ List.mem_cons_self)
  | @nothing session run after given quiet none =>
      obtain ⟨kept, -⟩ := plainly session
      rw [given] at kept
      exact ⟨kept, fun correction => nofun⟩
  | @failed session failure after given quiet =>
      obtain ⟨kept, -⟩ := plainly session
      rw [given] at kept
      exact ⟨kept, fun correction => nofun⟩

end Keeping

end Workspace

/-- A corrector whose runs erase no prose: whatever the cache holds for prose, a correction made for
a text that is not blank is not blank itself, and the cache goes on like this. -/
structure Corrector.KeepsProse (corrector : Corrector σ) : Prop where
  plain : ∀ (calls : List Call) (spans : List Span) (given? : Option CorrectionOptions)
    (workspace : Workspace σ), TellBlanksApart calls → workspace.HoldsProse calls →
      (∀ span ∈ spans, span.call (given?.getD corrector.correctionOptions) ∈ calls) →
        (workspace.correctSpans corrector spans given?).2.HoldsProse calls ∧
          ∀ run, (workspace.correctSpans corrector spans given?).1 = .ok run →
            ∀ correction ∈ run.corrections, correction.KeepsProse
  detailed : ∀ (calls : List Call) (span : Span) (given? : Option CorrectionOptions)
    (workspace : Workspace σ), TellBlanksApart calls → workspace.HoldsProse calls →
      span.call (given?.getD corrector.correctionOptions) ∈ calls →
        (workspace.correctDetailed corrector span given?).2.HoldsProse calls ∧
          ∀ correction, (workspace.correctDetailed corrector span given?).1 = .ok correction →
            correction.KeepsProse

section Erasing

variable {corrector : Corrector σ}

def Call.asSpan (call : Call) : Span where
  text := call.text
  kind := .comment
  range := ⟨⟨0, 2⟩, ⟨0, 2 + call.text.length⟩⟩
  confidence := 1

@[simp]
theorem Call.call_asSpan (call : Call) : call.asSpan.call call.options = call := by
  simp [Span.call, CorrectionOptions.forSpan, asSpan, present?]

def Workspace.bare (state : σ) : Workspace σ where
  session := { service := state }

theorem Workspace.holdsProse_bare (state : σ) (calls : List Call) :
    (bare state).HoldsProse calls := by
  intro call known written entry member
  cases member

theorem tellBlanksApart_singleton {call : Call} (written : call.text.isBlank = false) :
    TellBlanksApart [call] := by
  intro blank known isBlank
  rw [List.mem_singleton.mp known, written] at isBlank
  cases isBlank

/-- A text that comes of a key without halves, and that has none itself, is taken by an empty cache. -/
theorem Cache.store_isOk_of_empty {cache : Cache} {ranking stamp : Int} {key value : Text}
    (empty : cache.entries = []) (wholeKey : Text.IsWhole key) (whole : Text.IsWhole value) :
    (cache.store ranking stamp key value).1.isOk = true := by
  cases stored : (cache.store ranking stamp key value).1 with
  | ok outcome => rfl
  | error fault =>
      rcases store_eq_error stored with ⟨-, foreign⟩ | ⟨-, entry, member, -⟩
      · exact absurd ⟨wholeKey, whole⟩ foreign
      · rw [empty] at member
        cases member

/-- A chunk of one span without an entry in the cache takes what the first reply is unwrapped to. -/
theorem Workspace.correctChunk_decided {workspace : Workspace σ} {call : Call} {text : Text}
    (empty : workspace.cache.entries = []) (idle : workspace.session.inFlight = [])
    (asked : 0 < corrector.client.policy.attempts) (key : Text.IsWhole call.key)
    (whole : Text.IsWhole (unwrap text call.text))
    (decides : Decides (corrector.client.service.reply workspace.session.service
      (corrector.client.job call).request).1 (.ok text)) :
    (correctChunk corrector call.options [call.asSpan] workspace).1 =
      .ok [⟨call.asSpan.correctedBy (unwrap text call.text) call.asSpan.confidence,
        .service⟩] := by
  obtain ⟨digest, known⟩ := Cache.exists_digestOf key
  have asks : workspace.cache.get (workspace.time 0) call.key =
      (.ok none, { workspace.cache with misses := workspace.cache.misses.next }) :=
    Cache.get_of_entries_eq_nil known empty
  have settled := Client.settle_decided asked idle decides
  generalize ran : corrector.client.settle [call] workspace.session = outcome at settled
  obtain ⟨_, session⟩ := outcome
  cases settled
  have nothing : (workspace.behindLookUp call.key session).cache.entries = [] := by
    rw [behindLookUp, asks]
    exact empty
  have taken := (workspace.behindLookUp call.key session).takeUp_stored
    ⟨call.asSpan, call, .ok none⟩ text (Cache.store_isOk_of_empty nothing key whole)
  rw [correctChunk_missing call.call_asSpan (congrArg Prod.fst asks) ran taken]
  rfl

/-- A run over one span, in a workspace with nothing in it, takes what the first reply is unwrapped
to. -/
theorem Workspace.correctSpans_bare {call : Call} {state : σ} {text : Text}
    (asked : 0 < corrector.client.policy.attempts) (positive : 0 < corrector.chunkSize)
    (key : Text.IsWhole call.key) (whole : Text.IsWhole (unwrap text call.text))
    (decides : Decides (corrector.client.service.reply state
      (corrector.client.job call).request).1 (.ok text)) :
    ∃ run, ((bare state).correctSpans corrector [call.asSpan] (some call.options)).1 = .ok run ∧
      run.corrections =
        [call.asSpan.correctedBy (unwrap text call.text) call.asSpan.confidence] := by
  have corrects : (correctChunk corrector call.options [call.asSpan]
      { bare state with state := .running }).1 = _ :=
    correctChunk_decided rfl rfl asked key whole decides
  have ran := @correctSpans_singleton _ corrector call.asSpan (some call.options) (bare state)
    (.ok _) _ positive rfl (Prod.ext corrects rfl)
  exact ⟨_, congrArg Prod.fst ran, rfl⟩

theorem Workspace.correctDetailed_bare {call : Call} {state : σ} {text : Text}
    {detailed : DetailedCorrection} (asked : 0 < corrector.client.policy.attempts)
    (reply : (corrector.client.service.reply state
      (corrector.client.detailedJob call).request).1 = .ok (some text))
    (written : text.isBlank = false)
    (read : DetailedCorrection.ofResponse corrector.client.nesting corrector.client.model call.text
      text = .ok detailed) :
    ((bare state).correctDetailed corrector call.asSpan (some call.options)).1 =
      .ok (detailedCorrection call.asSpan detailed) := by
  have handed : corrector.client.HandsOver call { (bare state).session with signal := none } text :=
    Client.handsOver_of_reply asked reply written
  have corrects := handed.correctDetailed_eq
  rw [read] at corrects
  have given : (corrector.client.correctDetailed call
      { (bare state).session with signal := none }).1 = .ok detailed := corrects
  simp only [correctDetailed, Option.getD_some, Call.call_asSpan]
  generalize corrector.client.correctDetailed call { (bare state).session with signal := none } =
    outcome at given ⊢
  obtain ⟨result, session⟩ := outcome
  cases given
  rfl

end Erasing

/-- Runs erase no prose exactly if the service leaves some behind whenever it is asked: none of its
replies about prose is hollow where the cache can write down the key, and none that is structured
names a blank or hollow text. -/
theorem Corrector.keepsProse_iff (corrector : Corrector σ) (positive : 0 < corrector.chunkSize) :
    corrector.KeepsProse ↔ (0 < corrector.client.policy.attempts → corrector.client.LeavesProse) := by
  constructor
  · intro keeps asked
    constructor
    · rintro call key written reply ⟨state, answer, full⟩ hollow
      have blank : (unwrap reply call.text).isBlank = true :=
        (isBlank_unwrap_iff reply call.text).mpr (.inr hollow)
      have decides : Decides (corrector.client.service.reply state
          (corrector.client.job call).request).1 (.ok reply) := by
        rw [answer]
        exact .text full
      obtain ⟨run, corrects, corrections⟩ := Workspace.correctSpans_bare asked positive key
        (Text.isWhole_of_isBlank blank) decides
      obtain ⟨-, kept⟩ := keeps.plain [call] [call.asSpan] (some call.options) (.bare state)
        (tellBlanksApart_singleton written) (Workspace.holdsProse_bare state [call]) (by simp)
      have prose : (unwrap reply call.text).isBlank = false :=
        kept run corrects _ (corrections ▸ List.mem_singleton_self _) written
      rw [blank] at prose
      cases prose
    · rintro call written reply ⟨state, answer, full⟩ detailed read
      have corrects := Workspace.correctDetailed_bare asked answer full read
      obtain ⟨-, kept⟩ := keeps.detailed [call] call.asSpan (some call.options) (.bare state)
        (tellBlanksApart_singleton written) (Workspace.holdsProse_bare state [call]) (by simp)
      have prose : (unwrap detailed.text call.text).isBlank = false := kept _ corrects written
      have solid := mt (isBlank_unwrap_iff detailed.text call.text).mpr (ne_true_of_eq_false prose)
      exact ⟨eq_false_of_ne_true fun blank => solid (.inl blank), fun hollow => solid (.inr hollow)⟩
  · intro leaves
    constructor
    · intro calls spans given? workspace apart holds known
      exact holds.correctSpans apart leaves known
    · intro calls span given? workspace apart holds known
      exact holds.correctDetailed apart leaves known

theorem leavesProse_wordCorrector : Workspace.wordCorrector.client.LeavesProse := by
  have only : ∀ request reply, Workspace.wordCorrector.client.service.Answers request reply →
      reply = " the ".toText := by
    rintro request reply ⟨state, answer, -⟩
    simp only [Workspace.wordCorrector, Workspace.wordReply] at answer
    split at answer
    · cases answer
      rfl
    · cases answer
  have solid : ∀ draft : Text, ¬ IsHollow draft " the ".toText := by
    refine fun draft => not_isHollow_of_forall_not_mem fun quote member => ?_
    rcases mem_wrappingQuotes.mp member with rfl | rfl | rfl <;> decide
  have read : ∃ error, Json.read Workspace.wordCorrector.client.nesting " the ".toText = .error error ∧
      Fault.ofReadError? error = none := ⟨_, rfl, rfl⟩
  constructor
  · intro call _ written reply answers
    rw [only _ reply answers]
    exact solid call.text
  · intro call written reply answers detailed parsed
    rw [only _ reply answers] at parsed
    obtain ⟨error, failed, unknown⟩ := read
    simp only [DetailedCorrection.ofResponse, failed, unknown] at parsed
    cases parsed
    exact ⟨(by decide : Text.isBlank " the " = false), solid call.text⟩

theorem keepsProse_wordCorrector :
    0 < Workspace.wordCorrector.chunkSize ∧ Workspace.wordCorrector.KeepsProse :=
  ⟨by decide, (Workspace.wordCorrector.keepsProse_iff (by decide)).mpr
    fun _ => leavesProse_wordCorrector⟩

/-- A corrector whose service answers with a pair of quotes. -/
def quotingCorrector : Corrector Unit where
  client := { service := .always "\"\"", model := [] }

/-- The comment that it corrects is emptied. -/
theorem not_forall_keepsProse :
    ¬ ∀ corrector : Corrector Unit, corrector.client.service.IsHarmless →
      0 < corrector.chunkSize → corrector.KeepsProse := by
  intro law
  have harmless : quotingCorrector.client.service.IsHarmless := by
    intro state request failure replied
    cases replied
  have keeps := law quotingCorrector harmless (by decide)
  obtain ⟨-, kept⟩ := keeps.plain [Settings.noteSpan.call {}] [Settings.noteSpan] none (.bare ())
    (tellBlanksApart_singleton (by decide)) (Workspace.holdsProse_bare () _) (by decide)
  have erased : ((Workspace.bare ()).correctSpans quotingCorrector [Settings.noteSpan] none).1.map
      (fun run => run.corrections.map fun correction => (correction.draft, correction.text)) =
        .ok [("Teh cat".toText, [])] := by
    decide +kernel
  cases corrects : ((Workspace.bare ()).correctSpans quotingCorrector [Settings.noteSpan] none).1 with
  | error failure =>
      rw [corrects] at erased
      cases erased
  | ok run =>
      rw [corrects] at erased
      obtain ⟨correction, single, texts⟩ := List.map_eq_singleton_iff.mp (Except.ok.inj erased)
      have prose := kept run corrects correction (single ▸ List.mem_singleton_self correction)
      rw [Correction.KeepsProse, (Prod.mk.inj texts).1, (Prod.mk.inj texts).2] at prose
      cases prose (by decide)

end CodeProse
