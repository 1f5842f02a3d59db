import CodeProse.Proofs.Correction.Options
import CodeProse.Proofs.Numeric.Binary64
import CodeProse.Proofs.Run.Correct
import Mathlib.Data.List.Forall2
import Mathlib.Data.List.Infix

/-!
# What to expect of a run

Corrections come from the cache, from the service, or from a failure. An expectation tells what
each call may lead to, however it is answered. A run under it fails only where the cache gives up:
otherwise it is completed with what was expected of every span, or cancelled.
-/

set_option autoImplicit false

namespace CodeProse

variable {σ : Type}

/-- What some calls may lead to: the texts that are allowed, and whether they may fail. Calls that
share an outcome or an entry of the cache have to allow the same. A text with half of a surrogate
pair in it never comes out of a run, so it need not be allowed. -/
structure Expectation (client : Client σ) (calls : List Call) where
  allows : Call → Text → Prop
  mayFail : Call → Prop
  answered : ∀ asked ∈ calls, ∀ call ∈ calls, asked.key = call.key → ∀ text,
    client.policy.Outcome client.service (client.job asked).request (.ok text) →
      Text.IsWhole (unwrap text call.text) → allows call (unwrap text call.text)
  failed : ∀ asked ∈ calls, ∀ call ∈ calls, asked.key = call.key → ∀ failure,
    client.policy.Outcome client.service (client.job asked).request (.error failure) →
      failure.isConfiguration = false ∧ mayFail call
  shared : ∀ stored ∈ calls, ∀ call ∈ calls, ∀ digest, Cache.digestOf stored.key = .ok digest →
    Cache.digestOf call.key = .ok digest → ∀ text, allows stored text → allows call text

/-- A result that is as expected of a call: the span with an allowed text, or, where the call may
fail, with its own text and no confidence. -/
inductive Expectation.Meets {client : Client σ} {calls : List Call}
    (expectation : Expectation client calls) (call : Call) (span : Span) : Corrected → Prop where
  | answer {text : Text} {origin : Origin} (allowed : expectation.allows call text) :
      Meets expectation call span ⟨span.correctedBy text span.confidence, origin⟩
  | failure {origin : Origin} (failing : expectation.mayFail call) :
      Meets expectation call span ⟨span.correctedBy span.text 0, origin⟩

/-- A result as expected of a span whose key the cache can write down. -/
def Expectation.Fits {client : Client σ} {calls : List Call}
    (expectation : Expectation client calls) (options : CorrectionOptions) (span : Span)
    (corrected : Corrected) : Prop :=
  Text.IsWhole (span.call options).key ∧ expectation.Meets (span.call options) span corrected

/-- Whatever a harmless service answers is allowed, and so is a failure. -/
def Expectation.any {client : Client σ} (harmless : client.service.IsHarmless)
    (calls : List Call) : Expectation client calls where
  allows _ _ := True
  mayFail _ := True
  answered _ _ _ _ _ _ _ _ := trivial
  failed _ _ _ _ _ _ outcome := ⟨outcome.isConfiguration_eq_false harmless, trivial⟩
  shared _ _ _ _ _ _ _ _ _ := trivial

/-- Whether the cache can write a call down: its key, and whatever text comes of it. -/
def Client.IsWritable (client : Client σ) (call : Call) : Prop :=
  Text.IsWhole call.key ∧ ∀ text,
    client.policy.Outcome client.service (client.job call).request (.ok text) →
      Text.IsWhole (unwrap text call.text)

/-- How a cache gives up on some calls: one of them cannot be written down, or the entries cannot be
ranked. -/
inductive Client.GivesUp (client : Client σ) (calls : List Call) (ranked : Prop) : Failure → Prop where
  | unwritable {call : Call} (known : call ∈ calls) (foreign : ¬ client.IsWritable call) :
      GivesUp client calls ranked (.fault .unencodable)
  | unranked (unranked : ¬ ranked) : GivesUp client calls ranked (.fault .quotientTooLarge)

theorem Client.GivesUp.mono {client : Client σ} {calls more : List Call} {ranked known : Prop}
    {failure : Failure} (within : calls ⊆ more) (weaker : known → ranked)
    (givesUp : client.GivesUp calls ranked failure) : client.GivesUp more known failure := by
  cases givesUp with
  | unwritable member foreign => exact .unwritable (within member) foreign
  | unranked unranked => exact .unranked fun holds => unranked (weaker holds)

theorem Expectation.Meets.corrects {client : Client σ} {calls : List Call}
    {expectation : Expectation client calls} {call : Call} {span : Span} {corrected : Corrected}
    (meets : expectation.Meets call span corrected) : corrected.Corrects span := by
  cases meets with
  | answer allowed => exact ⟨_, _, rfl⟩
  | failure failing => exact ⟨_, _, rfl⟩

namespace Workspace

variable {workspace : Workspace σ} {options : CorrectionOptions}

section Ranking

/-- Whenever the clock is read from here on, every entry of the cache has a score, also with some
more hits. -/
structure CanRank (workspace : Workspace σ) (hits : Nat) : Prop where
  few : hits < Binary64.integerBound
  scores : ∀ entry ∈ workspace.cache.entries, ∀ extra ≤ hits, ∀ ahead,
    (Cache.score? (workspace.time ahead) (entry.2.found extra)).isSome

theorem canRank_of_hits {hits : Nat} (few : hits < Binary64.integerBound)
    (small : ∀ entry ∈ workspace.cache.entries, entry.2.hits.natAbs + hits < Binary64.integerBound) :
    workspace.CanRank hits := by
  refine ⟨few, fun entry member extra bounded ahead => ?_⟩
  have limit := small entry member
  refine Binary64.ofRatio?_isSome ?_ _
  calc (entry.2.hits + extra).natAbs
      ≤ entry.2.hits.natAbs + (extra : Int).natAbs := Int.natAbs_add_le _ _
    _ ≤ entry.2.hits.natAbs + hits := Nat.add_le_add_left bounded _
    _ < Binary64.integerBound := limit

theorem CanRank.behindLookUp {hits : Nat} (ranks : workspace.CanRank (hits + 1)) (key : Text)
    (session : Session σ) : (workspace.behindLookUp key session).CanRank hits := by
  refine ⟨Nat.lt_of_succ_lt ranks.few, fun entry member extra bounded ahead => ?_⟩
  obtain ⟨old, known, count, single, rfl⟩ := Cache.exists_of_mem_entries_get member
  have score := ranks.scores old known (count + extra) (by omega) (1 + ahead)
  have sum : (old.2.found count).found extra = old.2.found (count + extra) := by
    simp [CacheEntry.found, Int.add_assoc]
  rw [time_behindLookUp, sum]
  exact score

theorem CanRank.lookUp {hits : Nat} (options : CorrectionOptions) (chunk : List Span)
    (ranks : workspace.CanRank (chunk.length + hits)) :
    (workspace.lookUp options chunk).2.CanRank hits := by
  induction chunk generalizing workspace with
  | nil => simpa [Workspace.lookUp] using ranks
  | cons span rest ih =>
      rw [List.length_cons, Nat.add_right_comm] at ranks
      exact ih (ranks.behindLookUp _ _)

theorem CanRank.behindStore {hits : Nat} (ranks : workspace.CanRank hits) (key value : Text) :
    (workspace.behindStore key value).CanRank hits := by
  refine ⟨ranks.few, fun entry member extra bounded ahead => ?_⟩
  rw [time_behindStore]
  rcases Cache.mem_entries_store member with known | ⟨digest, size, -, -, rfl⟩
  · exact ranks.scores entry known extra bounded (2 + ahead)
  · refine Binary64.ofRatio?_isSome ?_ _
    have limit := ranks.few
    simp only [CacheEntry.found]
    omega

/-- A cache that can rank its entries gives up on a text only where that or its key has no form in
UTF-8. -/
theorem CanRank.store_eq_error {hits : Nat} (ranks : workspace.CanRank hits) {stamp : Int}
    {key value : Text} {fault : CacheFault}
    (failed : (workspace.cache.store (workspace.time 0) stamp key value).1 = .error fault) :
    fault = .unencodable ∧ ¬ (Text.IsWhole key ∧ Text.IsWhole value) := by
  rcases Cache.store_eq_error failed with foreign | ⟨-, entry, member, unscored⟩
  · exact foreign
  · have scored := ranks.scores entry member 0 (Nat.zero_le hits) 0
    simp only [CacheEntry.found, Int.natCast_zero, Int.add_zero] at scored
    rw [scored] at unscored
    cases unscored

end Ranking

section Agreement

variable {client : Client σ} {calls : List Call} {expectation : Expectation client calls}

/-- Whenever the clock is read from here on, the entries under the keys of the calls that have not
expired hold texts that are allowed. -/
def Agrees (workspace : Workspace σ) (expectation : Expectation client calls) : Prop :=
  ∀ call ∈ calls, ∀ entry ∈ workspace.cache.entries, Cache.digestOf call.key = .ok entry.1 →
    ∀ ahead, workspace.cache.isExpired (workspace.time ahead) entry.2 = false →
      expectation.allows call entry.2.value

theorem Agrees.behindLookUp (agrees : workspace.Agrees expectation) (key : Text)
    (session : Session σ) : (workspace.behindLookUp key session).Agrees expectation := by
  intro call known entry member digest ahead fresh
  obtain ⟨old, stored, count, -, rfl⟩ := Cache.exists_of_mem_entries_get member
  rw [time_behindLookUp, Cache.isExpired, Workspace.behindLookUp, Cache.limits_get] at fresh
  exact agrees call known old stored digest (1 + ahead) fresh

theorem Agrees.allows_of_get (agrees : workspace.Agrees expectation) {call : Call}
    (known : call ∈ calls) {text : Text}
    (found : (workspace.cache.get (workspace.time 0) call.key).1 = .ok (some text)) :
    expectation.allows call text := by
  obtain ⟨entry, member, digest, fresh, rfl⟩ := Cache.exists_of_get_eq_some found
  exact agrees call known entry member digest 0 fresh

/-- Looking up keeps to what is allowed, and finds nothing else. -/
theorem Agrees.lookUp (agrees : workspace.Agrees expectation) {chunk : List Span}
    (known : ∀ span ∈ chunk, span.call options ∈ calls) :
    (workspace.lookUp options chunk).2.Agrees expectation ∧
      ∀ lookup ∈ (workspace.lookUp options chunk).1, ∀ text, lookup.cached = .ok (some text) →
        expectation.allows lookup.call text := by
  refine lookUp_keeps (Agrees · expectation)
    (fun lookup => ∀ text, lookup.cached = .ok (some text) → expectation.allows lookup.call text)
    (fun span member before held => ⟨held.behindLookUp _ _, fun text found => ?_⟩) agrees
  exact held.allows_of_get (known span member) found

theorem Agrees.behindStore (agrees : workspace.Agrees expectation) {call : Call}
    (known : call ∈ calls) {value : Text}
    (allows : Text.IsWhole value → expectation.allows call value) :
    (workspace.behindStore call.key value).Agrees expectation := by
  intro other otherKnown entry member digest ahead fresh
  rw [time_behindStore, Cache.isExpired, Workspace.behindStore, Cache.limits_store] at fresh
  rcases Cache.mem_entries_store member with stored | ⟨own, size, keyed, measured, rfl⟩
  · exact agrees other otherKnown entry stored digest (2 + ahead) fresh
  · exact expectation.shared call known other otherKnown own keyed digest value
      (allows (Cache.isWhole_of_utf8Size? measured))

end Agreement

section Run

variable {corrector : Corrector σ} {spans : List Span}

/-- What a run under an expectation keeps while some chunks are left. That nothing is in flight, and
that the cache can rank its entries, may be known or not. -/
structure OnCourse (expectation : Expectation corrector.client (spans.map (Span.call options)))
    (idle ranked : Prop) (rest : List (List Span)) (workspace : Workspace σ) : Prop where
  inFlight : idle → workspace.session.inFlight = []
  within : ∀ span ∈ rest.flatten, span ∈ spans
  ranks : ranked → workspace.CanRank rest.flatten.length
  agrees : workspace.Agrees expectation

/-- Taking up an outcome that a call can have keeps to the expectation, and fails only where the cache
gives up. -/
theorem takeUp_expected {known : List Call} (expectation : Expectation corrector.client known)
    {ranked : Prop} {hits : Nat} {lookups : List Lookup} {lookup : Lookup}
    {outcome : Except Failure Text}
    (calls : ∀ lookup ∈ lookups, lookup.call = lookup.span.call options ∧ lookup.call ∈ known)
    (member : lookup ∈ lookups) (learns : Learns corrector.client lookups lookup outcome)
    {before : Workspace σ} (ranks : ranked → before.CanRank hits)
    (agrees : before.Agrees expectation) :
    ((ranked → (takeUp lookup outcome before).2.CanRank hits) ∧
        (takeUp lookup outcome before).2.Agrees expectation) ∧
      (∀ corrected, (takeUp lookup outcome before).1 = .ok corrected →
        expectation.Meets lookup.call lookup.span corrected) ∧
      ∀ failure, (takeUp lookup outcome before).1 = .error failure →
        corrector.client.GivesUp known ranked failure := by
  obtain ⟨asked, askedMember, key, given⟩ := learns
  obtain ⟨shape, called⟩ := calls lookup member
  obtain ⟨-, askedCalled⟩ := calls asked askedMember
  have own : lookup.call.text = lookup.span.text := by rw [shape]; rfl
  cases outcome with
  | error failure =>
      obtain ⟨other, failing⟩ :=
        expectation.failed asked.call askedCalled lookup.call called key failure given
      obtain ⟨records, taken⟩ := takeUp_error before lookup other
      rw [taken]
      refine ⟨⟨fun known => ⟨(ranks known).few, (ranks known).scores⟩, agrees⟩, ?_, ?_⟩
      · intro corrected same
        exact Except.ok.inj same ▸ .failure failing
      · intro failure impossible
        cases impossible
  | ok text =>
      have allows := expectation.answered asked.call askedCalled lookup.call called key text given
      rw [own] at allows
      have kept : (ranked → (before.behindStore lookup.call.key
          (unwrap text lookup.span.text)).CanRank hits) ∧
            (before.behindStore lookup.call.key (unwrap text lookup.span.text)).Agrees expectation :=
        ⟨fun known => (ranks known).behindStore _ _, agrees.behindStore called allows⟩
      have takes := takeUp_takesUp lookup (.ok text) before
      generalize takeUp lookup (.ok text) before = taken at takes ⊢
      cases takes with
      | taken stored =>
          refine ⟨kept, fun corrected same => ?_, fun failure failed => nomatch failed⟩
          exact Except.ok.inj same ▸ .answer (allows (Cache.isWhole_of_store stored).2)
      | @lost _ fault refused =>
          refine ⟨kept, fun corrected => nofun, fun failure failed => ?_⟩
          rw [← Except.error.inj failed]
          cases fault with
          | unencodable =>
              refine .unwritable askedCalled fun writable => ?_
              obtain ⟨texts, -⟩ := CorrectionOptions.key_inj key
              have answer := writable.2 text given
              rw [texts, own] at answer
              rcases Cache.store_eq_error refused with ⟨-, foreign⟩ | ⟨impossible, -⟩
              · exact foreign ⟨key ▸ writable.1, answer⟩
              · cases impossible
          | unranked =>
              exact .unranked fun known => nomatch ((ranks known).store_eq_error refused).1

/-- A chunk under an expectation fails only where the cache gives up. -/
theorem chunkGives_expected
    (expectation : Expectation corrector.client (spans.map (Span.call options)))
    (idle ranked : Prop) :
    ChunkGives corrector options (OnCourse expectation idle ranked) (expectation.Fits options) idle
      (fun failure _ =>
        corrector.client.GivesUp (spans.map (Span.call options)) ranked failure) := by
  intro chunk rest workspace course
  have known : ∀ span ∈ chunk, span.call options ∈ spans.map (Span.call options) :=
    fun span member => List.mem_map_of_mem
      (course.within span (List.mem_flatten.mpr ⟨chunk, List.mem_cons_self, member⟩))
  have ranks : ranked → workspace.CanRank (chunk.length + rest.flatten.length) := by
    simpa using course.ranks
  have lookUps := lookUp_aligned options chunk workspace
  have canRank := fun known => (ranks known).lookUp options chunk
  have refuses := @cached_eq_error_iff _ options chunk workspace
  have inFlight := correctChunk_inFlight corrector options chunk workspace
  obtain ⟨agreed, cached⟩ := course.agrees.lookUp known
  generalize found : workspace.lookUp options chunk = looking
    at lookUps canRank refuses agreed cached
  obtain ⟨lookups, looked⟩ := looking
  have calls : ∀ lookup ∈ lookups, lookup.call = lookup.span.call options ∧
      lookup.call ∈ spans.map (Span.call options) := by
    intro lookup member
    obtain ⟨span, spanMember, rfl, call⟩ := exists_aligned_of_mem_right lookUps member
    exact ⟨call, call ▸ known lookup.span spanMember⟩
  obtain ⟨⟨ranksAfter, agrees⟩, results⟩ := correctChunk_spec corrector
    (fun workspace => (ranked → workspace.CanRank rest.flatten.length) ∧
      workspace.Agrees expectation)
    (fun lookup => expectation.Meets lookup.call lookup.span) found
    (fun session => ⟨fun known => ⟨(canRank known).few, (canRank known).scores⟩, agreed⟩)
    (fun lookup member text stored => .answer (cached lookup member text stored))
    (fun lookup member _ outcome learns before held => by
      obtain ⟨kept, meets, -⟩ := takeUp_expected expectation calls member learns held.1 held.2
      exact ⟨kept, meets⟩)
  generalize correctChunk corrector options chunk workspace = outcome
    at inFlight ranksAfter agrees results ⊢
  rcases outcome with ⟨failure | corrected, after⟩
  · rcases results with ⟨lookup, member, fault, refused, rfl⟩ |
      ⟨lookup, member, -, outcome, learns, before, held, failed⟩
    · obtain ⟨foreign, rfl⟩ := (refuses member).mp refused
      exact .unwritable (calls lookup member).2 fun writable => foreign writable.1
    · obtain ⟨-, -, fails⟩ := takeUp_expected expectation calls member learns held.1 held.2
      exact fails failure failed
  · obtain ⟨heard, met⟩ := results
    refine ⟨⟨fun idle => inFlight.trans (course.inFlight idle),
      fun span member => course.within span ?_, ranksAfter, agrees⟩, ?_⟩
    · rw [List.flatten_cons]
      exact List.mem_append_right chunk member
    · have keyed : ∀ lookup ∈ lookups, Text.IsWhole lookup.call.key := fun lookup member =>
        Decidable.byContradiction fun foreign => by
          obtain ⟨answer, given⟩ := heard lookup member
          rw [(refuses member).mpr ⟨foreign, rfl⟩] at given
          cases given
      have own := ((List.forall₂_and_left _ _).mpr ⟨keyed, lookUps.flip⟩).flip
      refine .compose_left ?_ own (met.mono course.inFlight)
      rintro span lookup corrected ⟨whole, rfl, call⟩ meets
      exact ⟨call ▸ whole, call ▸ meets⟩

/-- Corrections that are as expected of some spans, one by one, or of some of them at least. -/
def MetBy {calls : List Call} (expectation : Expectation corrector.client calls) (complete : Prop)
    (options : CorrectionOptions) (spans : List Span) (corrections : List Correction) : Prop :=
  ∃ corrected : List Corrected, corrections = corrected.map Corrected.correction ∧
    PartlyAligned (expectation.Fits options) complete spans corrected

/-- What a run under an expectation leads to: it is completed, it was cancelled behind some of its
spans, or the cache gave up on one of them. -/
theorem correctSpans_agrees {given? : Option CorrectionOptions}
    (expectation : Expectation corrector.client
      (spans.map (Span.call (given?.getD corrector.correctionOptions)))) (ranked : Prop)
    (positive : 0 < corrector.chunkSize) (ranks : ranked → workspace.CanRank spans.length)
    (agrees : workspace.Agrees expectation) :
    match correctSpans corrector spans given? workspace with
    | (.ok run, after) =>
        run.state = .completed ∧ after.Agrees expectation ∧
            MetBy expectation (workspace.session.inFlight = [])
              (given?.getD corrector.correctionOptions) spans run.corrections ∨
          run.state = .cancelled ∧ after.session.isCancelled = true ∧
            ∃ passed, passed <+: spans ∧ MetBy expectation (workspace.session.inFlight = [])
              (given?.getD corrector.correctionOptions) passed run.corrections
    | (.error failure, _) => corrector.client.GivesUp
        (spans.map (Span.call (given?.getD corrector.correctionOptions))) ranked failure := by
  have whole := flatten_chunks positive spans
  have steady : ∀ rest, IsSteady (OnCourse expectation (workspace.session.inFlight = []) ranked rest) :=
    fun rest before session state same course =>
      ⟨fun idle => same.trans (course.inFlight idle), course.within,
        fun known => ⟨(course.ranks known).few, (course.ranks known).scores⟩, course.agrees⟩
  have start : OnCourse expectation (workspace.session.inFlight = []) ranked
      (chunks corrector.chunkSize spans) workspace :=
    ⟨id, fun span member => whole ▸ member, whole.symm ▸ ranks, agrees⟩
  have result := correctSpans_spec spans steady (chunkGives_expected expectation _ ranked) start
  generalize correctSpans corrector spans given? workspace = outcome at result ⊢
  rcases outcome with ⟨failure | run, after⟩
  · exact result
  · rcases result with ⟨completed, course, met⟩ | ⟨state, cancelled, -, passed, corrected, front, met⟩
    · rw [whole] at met
      exact .inl ⟨completed, course.agrees, met⟩
    · exact .inr ⟨state, cancelled, passed.flatten, whole ▸ front.flatten, corrected, met⟩

/-- A run under an expectation that nothing cancels is completed, with what was expected of every
span, and the cache still agrees with the expectation, unless that gave up. -/
theorem correctSpans_expected {given? : Option CorrectionOptions}
    (expectation : Expectation corrector.client
      (spans.map (Span.call (given?.getD corrector.correctionOptions)))) (ranked : Prop)
    (positive : 0 < corrector.chunkSize) (idle : workspace.session.inFlight = [])
    (ranks : ranked → workspace.CanRank spans.length) (agrees : workspace.Agrees expectation)
    (uncancelled : (correctSpans corrector spans given? workspace).2.session.isCancelled = false) :
    (∃ run after corrected, correctSpans corrector spans given? workspace = (.ok run, after) ∧
        run.state = .completed ∧ after.Agrees expectation ∧
        run.corrections = corrected.map Corrected.correction ∧
        List.Forall₂ (expectation.Fits (given?.getD corrector.correctionOptions)) spans corrected) ∨
      ∃ failure, (correctSpans corrector spans given? workspace).1 = .error failure ∧
        corrector.client.GivesUp
          (spans.map (Span.call (given?.getD corrector.correctionOptions))) ranked failure := by
  have result := correctSpans_agrees expectation ranked positive ranks agrees
  generalize correctSpans corrector spans given? workspace = outcome at uncancelled result ⊢
  rcases outcome with ⟨failure | run, after⟩
  · exact .inr ⟨failure, rfl, result⟩
  · rcases result with ⟨completed, agrees, corrected, same, met⟩ | ⟨-, cancelled, -⟩
    · exact .inl ⟨run, after, corrected, rfl, completed, agrees, same, met.forall₂ idle⟩
    · exact absurd cancelled (ne_true_of_eq_false uncancelled)

end Run

end Workspace

end CodeProse
