import CodeProse.Proofs.Cache.Entries
import CodeProse.Proofs.Service.Settling
import CodeProse.Run.Chunk

/-!
# Laws of chunks

A chunk gives results for its spans in their order, and one for each where nothing was in flight
before. What holds of the workspace and is kept by taking up outcomes holds behind the chunk, and what
the lookups and the outcomes promise of a result holds of all results.
-/

set_option autoImplicit false

namespace CodeProse

variable {σ : Type}

/-- A result that sets some text in the place of a span. -/
def Corrected.Corrects (span : Span) (corrected : Corrected) : Prop :=
  ∃ text confidence, corrected.correction = span.correctedBy text confidence

namespace Workspace

/-- The workspace behind a question to the cache, with a session that has gone on since. -/
def behindLookUp (workspace : Workspace σ) (key : Text) (session : Session σ) : Workspace σ :=
  { workspace with
    session
    cache := (workspace.cache.get (workspace.time 0) key).2
    readings := workspace.readings + 1 }

/-- The workspace behind a text that is given to the cache. -/
def behindStore (workspace : Workspace σ) (key value : Text) : Workspace σ :=
  { workspace with
    cache := (workspace.cache.store (workspace.time 0) (workspace.time 1) key value).2
    readings := workspace.readings + 2 }

@[simp]
theorem session_behindLookUp (workspace : Workspace σ) (key : Text) (session : Session σ) :
    (workspace.behindLookUp key session).session = session := rfl

theorem behindLookUp_with_session (workspace : Workspace σ) (key : Text)
    (session later : Session σ) :
    ({ workspace.behindLookUp key session with session := later } : Workspace σ) =
      workspace.behindLookUp key later := rfl

theorem time_behindLookUp (workspace : Workspace σ) (key : Text) (session : Session σ)
    (ahead : Nat) : (workspace.behindLookUp key session).time ahead = workspace.time (1 + ahead) := by
  rw [time, time, ← Nat.add_assoc]
  rfl

theorem time_behindStore (workspace : Workspace σ) (key value : Text) (ahead : Nat) :
    (workspace.behindStore key value).time ahead = workspace.time (2 + ahead) := by
  rw [time, time, ← Nat.add_assoc]
  rfl

section LookUp

theorem lookUp_aligned (options : CorrectionOptions) (chunk : List Span)
    (workspace : Workspace σ) :
    List.Forall₂ (fun span lookup => lookup.span = span ∧ lookup.call = span.call options) chunk
      (workspace.lookUp options chunk).1 := by
  induction chunk generalizing workspace with
  | nil => exact .nil
  | cons span rest ih => exact .cons ⟨rfl, rfl⟩ (ih _)

/-- Looking up changes nothing but the cache and reads the clock. -/
theorem lookUp_frame (options : CorrectionOptions) (chunk : List Span)
    (workspace : Workspace σ) :
    ∃ cache readings, (workspace.lookUp options chunk).2 = { workspace with cache, readings } := by
  induction chunk generalizing workspace with
  | nil => exact ⟨_, _, rfl⟩
  | cons span rest ih =>
      obtain ⟨cache, readings, same⟩ :=
        ih (workspace.behindLookUp (span.call options).key workspace.session)
      exact ⟨cache, readings, same⟩

/-- What is kept by each question to the cache is kept by all of them, and what each promises of
its answer holds of all lookups. -/
theorem lookUp_keeps {options : CorrectionOptions} {chunk : List Span} {workspace : Workspace σ}
    (holds : Workspace σ → Prop) (promised : Lookup → Prop)
    (asked : ∀ span ∈ chunk, ∀ before : Workspace σ, holds before →
      holds (before.behindLookUp (span.call options).key before.session) ∧
        promised ⟨span, span.call options,
          (before.cache.get (before.time 0) (span.call options).key).1⟩)
    (start : holds workspace) :
    holds (workspace.lookUp options chunk).2 ∧
      ∀ lookup ∈ (workspace.lookUp options chunk).1, promised lookup := by
  induction chunk generalizing workspace with
  | nil => exact ⟨start, fun lookup member => nomatch member⟩
  | cons span rest ih =>
      obtain ⟨first, further⟩ := List.forall_mem_cons.mp asked
      obtain ⟨kept, answered⟩ := first workspace start
      obtain ⟨final, later⟩ := ih further kept
      exact ⟨final, List.forall_mem_cons.mpr ⟨answered, later⟩⟩

/-- The cache gives up on exactly those lookups whose keys have no form in UTF-8. -/
theorem cached_eq_error_iff {options : CorrectionOptions} {chunk : List Span}
    {workspace : Workspace σ} {lookup : Lookup}
    (member : lookup ∈ (workspace.lookUp options chunk).1) {fault : CacheFault} :
    lookup.cached = .error fault ↔ ¬ Text.IsWhole lookup.call.key ∧ fault = .unencodable := by
  have refused : ∀ lookup ∈ (workspace.lookUp options chunk).1, ∀ fault,
      lookup.cached = .error fault ↔ ¬ Text.IsWhole lookup.call.key ∧ fault = .unencodable :=
    (lookUp_keeps (fun _ => True) _
      (fun _ _ _ _ => ⟨trivial, fun _ => Cache.get_eq_error_iff⟩) trivial).2
  exact refused lookup member fault

end LookUp

section TakeUp

/-- What taking up an outcome comes to, case by case. -/
inductive TakesUp (workspace : Workspace σ) (lookup : Lookup) :
    Except Failure Text → Except Failure Corrected × Workspace σ → Prop where
  | passedOn {failure : Failure} (configuration : failure.isConfiguration = true) :
      TakesUp workspace lookup (.error failure) (.error failure, workspace)
  | leftAsItIs {failure : Failure} (other : failure.isConfiguration = false)
      (records : List LogRecord) :
      TakesUp workspace lookup (.error failure)
        (.ok ⟨lookup.span.correctedBy lookup.span.text 0, .failure⟩,
          { workspace with session := { workspace.session with records } })
  | taken {text : Text} {outcome : StoreOutcome}
      (stored : (workspace.cache.store (workspace.time 0) (workspace.time 1) lookup.call.key
        (unwrap text lookup.span.text)).1 = .ok outcome) :
      TakesUp workspace lookup (.ok text)
        (.ok ⟨lookup.span.correctedBy (unwrap text lookup.span.text) lookup.span.confidence,
            .service⟩,
          workspace.behindStore lookup.call.key (unwrap text lookup.span.text))
  | lost {text : Text} {fault : CacheFault}
      (refused : (workspace.cache.store (workspace.time 0) (workspace.time 1) lookup.call.key
        (unwrap text lookup.span.text)).1 = .error fault) :
      TakesUp workspace lookup (.ok text)
        (.error (.fault fault.toFault),
          workspace.behindStore lookup.call.key (unwrap text lookup.span.text))

theorem takeUp_takesUp (lookup : Lookup) (outcome : Except Failure Text) (workspace : Workspace σ) :
    TakesUp workspace lookup outcome (workspace.takeUp lookup outcome) := by
  cases outcome with
  | error failure =>
      rw [takeUp]
      split
      · next configuration => exact .passedOn configuration
      · next other => exact .leftAsItIs (eq_false_of_ne_true other) _
  | ok text =>
      rw [takeUp]
      dsimp only
      split
      · next fault refused => exact .lost refused
      · next outcome stored => exact .taken stored

/-- Taking up an outcome changes nothing but the records of the session and the cache, and reads the
clock. -/
theorem takeUp_frame (lookup : Lookup) (outcome : Except Failure Text) (workspace : Workspace σ) :
    ∃ records cache readings, (workspace.takeUp lookup outcome).2 =
      { workspace with session := { workspace.session with records }, cache, readings } := by
  have takes := takeUp_takesUp lookup outcome workspace
  generalize workspace.takeUp lookup outcome = result at takes ⊢
  cases takes with
  | passedOn configuration => exact ⟨_, _, _, rfl⟩
  | leftAsItIs other records => exact ⟨records, _, _, rfl⟩
  | taken stored => exact ⟨_, _, _, rfl⟩
  | lost refused => exact ⟨_, _, _, rfl⟩

theorem takeUp_corrects {lookup : Lookup} {outcome : Except Failure Text} {workspace : Workspace σ}
    {corrected : Corrected} (given : (workspace.takeUp lookup outcome).1 = .ok corrected) :
    corrected.Corrects lookup.span := by
  have takes := takeUp_takesUp lookup outcome workspace
  generalize workspace.takeUp lookup outcome = result at takes given
  cases takes with
  | passedOn configuration => cases given
  | leftAsItIs other records => exact Except.ok.inj given ▸ ⟨_, _, rfl⟩
  | taken stored => exact Except.ok.inj given ▸ ⟨_, _, rfl⟩
  | lost refused => cases given

theorem takeUp_error (workspace : Workspace σ) (lookup : Lookup) {failure : Failure}
    (other : failure.isConfiguration = false) :
    ∃ records, takeUp lookup (.error failure) workspace =
      (.ok ⟨lookup.span.correctedBy lookup.span.text 0, .failure⟩,
        { workspace with session := { workspace.session with records } }) := by
  have takes := takeUp_takesUp lookup (.error failure) workspace
  generalize takeUp lookup (.error failure) workspace = result at takes ⊢
  cases takes with
  | passedOn configuration => exact absurd configuration (ne_true_of_eq_false other)
  | leftAsItIs other records => exact ⟨records, rfl⟩

/-- A text that comes is taken where the cache does not give up on it. -/
theorem takeUp_stored (workspace : Workspace σ) (lookup : Lookup) (text : Text)
    (stored : (workspace.cache.store (workspace.time 0) (workspace.time 1) lookup.call.key
      (unwrap text lookup.span.text)).1.isOk = true) :
    takeUp lookup (.ok text) workspace =
      (.ok ⟨lookup.span.correctedBy (unwrap text lookup.span.text) lookup.span.confidence, .service⟩,
        workspace.behindStore lookup.call.key (unwrap text lookup.span.text)) := by
  have takes := takeUp_takesUp lookup (.ok text) workspace
  generalize takeUp lookup (.ok text) workspace = result at takes ⊢
  cases takes with
  | taken stored => rfl
  | lost refused =>
      rw [refused] at stored
      cases stored

/-- What outcomes that are taken up make of the entries that wait for them: each finding is that
of an entry, in a workspace with the invariant, and no entry whose key has settled goes without. -/
structure TakenUp (holds : Workspace σ → Prop) (waiting : List (Nat × Lookup))
    (settled : List Settled) (findings : List Finding) : Prop where
  source : ∀ finding ∈ findings, ∃ entry ∈ waiting, ∃ outcome ∈ settled,
    finding.index = entry.1 ∧ outcome.key = entry.2.call.key ∧
      ∃ workspace, holds workspace ∧ finding.result = (takeUp entry.2 outcome.outcome workspace).1
  complete : ∀ entry ∈ waiting, (∃ outcome ∈ settled, outcome.key = entry.2.call.key) →
    ∃ finding ∈ findings, finding.index = entry.1

variable {holds : Workspace σ → Prop}

theorem takeUpAll_aligned {outcome : Except Failure Text} {entries : List (Nat × Lookup)}
    (kept : ∀ entry ∈ entries, ∀ workspace, holds workspace →
      holds (takeUp entry.2 outcome workspace).2)
    (workspace : Workspace σ) (start : holds workspace) :
    List.Forall₂ (fun entry finding => finding.index = entry.1 ∧ ∃ workspace, holds workspace ∧
        finding.result = (takeUp entry.2 outcome workspace).1) entries
      (workspace.takeUpAll outcome entries).1 ∧
      holds (workspace.takeUpAll outcome entries).2 := by
  induction entries generalizing workspace with
  | nil => exact ⟨.nil, start⟩
  | cons entry rest ih =>
      obtain ⟨index, lookup⟩ := entry
      have next := kept (index, lookup) List.mem_cons_self workspace start
      obtain ⟨aligned, final⟩ := ih (fun other member => kept other (List.mem_cons_of_mem _ member))
        (takeUp lookup outcome workspace).2 next
      exact ⟨.cons ⟨rfl, workspace, start, rfl⟩ aligned, final⟩

theorem takeUpSettled_takenUp {waiting : List (Nat × Lookup)} {settled : List Settled}
    (kept : ∀ outcome ∈ settled, ∀ entry ∈ waiting, outcome.key = entry.2.call.key →
      ∀ workspace, holds workspace → holds (takeUp entry.2 outcome.outcome workspace).2)
    (workspace : Workspace σ) (start : holds workspace) :
    TakenUp holds waiting settled (workspace.takeUpSettled waiting settled).1 ∧
      holds (workspace.takeUpSettled waiting settled).2 := by
  induction settled generalizing workspace with
  | nil => exact ⟨⟨by simp [takeUpSettled], by simp⟩, start⟩
  | cons outcome rest ih =>
      have matching : ∀ entry, entry ∈ waiting.filter (fun entry => entry.2.call.key = outcome.key) ↔
          entry ∈ waiting ∧ outcome.key = entry.2.call.key := fun entry => by
        rw [List.mem_filter, decide_eq_true_iff, eq_comm]
      obtain ⟨aligned, next⟩ := takeUpAll_aligned (fun entry member =>
        kept outcome List.mem_cons_self entry ((matching entry).mp member).1
          ((matching entry).mp member).2) workspace start
      obtain ⟨later, final⟩ := ih (fun other member =>
        kept other (List.mem_cons_of_mem outcome member)) _ next
      rw [takeUpSettled]
      refine ⟨⟨fun finding member => ?_, fun entry waits => ?_⟩, final⟩
      · rcases List.mem_append.mp member with here | further
        · obtain ⟨entry, known, index, source⟩ := exists_aligned_of_mem_right aligned here
          obtain ⟨waits, same⟩ := (matching entry).mp known
          exact ⟨entry, waits, outcome, List.mem_cons_self, index, same, source⟩
        · obtain ⟨entry, waits, other, known, facts⟩ := later.source finding further
          exact ⟨entry, waits, other, List.mem_cons_of_mem outcome known, facts⟩
      · rintro ⟨other, known, same⟩
        rcases List.mem_cons.mp known with rfl | further
        · obtain ⟨finding, found, index, -⟩ :=
            exists_aligned_of_mem_left aligned ((matching entry).mpr ⟨waits, same⟩)
          exact ⟨finding, List.mem_append_left _ found, index⟩
        · obtain ⟨finding, found, index⟩ := later.complete entry waits ⟨other, further, same⟩
          exact ⟨finding, List.mem_append_right _ found, index⟩

end TakeUp

section Assembly

theorem firstFailure?_eq_some {findings : List Finding} {failure : Failure}
    (failed : firstFailure? findings = some failure) :
    ∃ finding ∈ findings, finding.result = .error failure := by
  obtain ⟨finding, member, chosen⟩ := List.exists_of_findSome?_eq_some failed
  refine ⟨finding, member, ?_⟩
  split at chosen
  · next result =>
      cases chosen
      exact result
  · cases chosen

theorem exists_ok_of_firstFailure? {findings : List Finding}
    (clean : firstFailure? findings = none) {finding : Finding} (member : finding ∈ findings) :
    ∃ corrected, finding.result = .ok corrected := by
  have harmless := List.findSome?_eq_none_iff.mp clean finding member
  cases result : finding.result with
  | error failure => simp [result] at harmless
  | ok corrected => exact ⟨corrected, rfl⟩

variable {lookups : List Lookup}

theorem mem_numbered {entry : Nat × Lookup} :
    entry ∈ (List.range lookups.length).zip lookups ↔ lookups[entry.1]? = some entry.2 := by
  obtain ⟨index, lookup⟩ := entry
  rw [List.mem_iff_getElem?]
  constructor
  · rintro ⟨place, found⟩
    obtain ⟨number, item⟩ := List.getElem?_zip_eq_some.mp found
    obtain ⟨inRange, same⟩ := List.getElem?_eq_some_iff.mp number
    rw [List.getElem_range inRange] at same
    exact same ▸ item
  · intro item
    obtain ⟨known, -⟩ := List.getElem?_eq_some_iff.mp item
    exact ⟨index, List.getElem?_zip_eq_some.mpr ⟨List.getElem?_range known, item⟩⟩

theorem isMissing_iff {lookup : Lookup} : lookup.isMissing = true ↔ lookup.cached = .ok none := by
  rw [Lookup.isMissing]
  split
  · next missing => simp [missing]
  · next other => simpa using other

theorem mem_waiting {entry : Nat × Lookup} :
    entry ∈ ((List.range lookups.length).zip lookups).filter (fun entry => entry.2.isMissing) ↔
      lookups[entry.1]? = some entry.2 ∧ entry.2.cached = .ok none := by
  rw [List.mem_filter, mem_numbered, isMissing_iff]

/-- What the cache says about a span. -/
theorem foundInCache_eq_some_iff {entry : Nat × Lookup} {finding : Finding} :
    foundInCache entry = some finding ↔
      (∃ text, entry.2.cached = .ok (some text) ∧ finding =
        ⟨entry.1, .ok ⟨entry.2.span.correctedBy text entry.2.span.confidence, .cache⟩⟩) ∨
      ∃ fault, entry.2.cached = .error fault ∧
        finding = ⟨entry.1, .error (.fault fault.toFault)⟩ := by
  rw [foundInCache]
  cases entry.2.cached with
  | error fault => simp [eq_comm]
  | ok answer =>
      cases answer with
      | none => simp
      | some text => simp [eq_comm]

/-- The findings for the lookups of a chunk, put together, where the cache gave up on none of them: one
result for each, in order, if none that waits goes without. -/
theorem partlyAligned_corrected? {promised : Lookup → Corrected → Prop} {complete : Prop}
    {taken : List Finding} (heard : ∀ lookup ∈ lookups, ∃ answer, lookup.cached = .ok answer)
    (cached : ∀ lookup ∈ lookups, ∀ text, lookup.cached = .ok (some text) →
      promised lookup ⟨lookup.span.correctedBy text lookup.span.confidence, .cache⟩)
    (source : ∀ finding ∈ taken, ∃ lookup, lookups[finding.index]? = some lookup ∧
      ∃ corrected, finding.result = .ok corrected ∧ promised lookup corrected)
    (all : complete → ∀ index lookup, lookups[index]? = some lookup → lookup.cached = .ok none →
      ∃ finding ∈ taken, finding.index = index) :
    PartlyAligned promised complete lookups ((List.range lookups.length).filterMap
      (corrected? (((List.range lookups.length).zip lookups).filterMap foundInCache ++ taken))) := by
  have sound : ∀ finding ∈ ((List.range lookups.length).zip lookups).filterMap foundInCache ++ taken,
      ∃ lookup, lookups[finding.index]? = some lookup ∧
        ∃ corrected, finding.result = .ok corrected ∧ promised lookup corrected := by
    intro finding member
    rcases List.mem_append.mp member with stored | fresh
    · obtain ⟨entry, known, shown⟩ := List.mem_filterMap.mp stored
      have item := mem_numbered.mp known
      have listed := List.mem_of_getElem? item
      rcases foundInCache_eq_some_iff.mp shown with ⟨text, found, rfl⟩ | ⟨fault, refused, -⟩
      · exact ⟨entry.2, item, _, rfl, cached entry.2 listed text found⟩
      · obtain ⟨answer, given⟩ := heard entry.2 listed
        rw [given] at refused
        cases refused
    · exact source finding fresh
  refine .filterMap_range lookups (fun index known result chosen => ?_) fun known index inRange => ?_
  · obtain ⟨finding, first, given⟩ := Option.bind_eq_some_iff.mp chosen
    have same : finding.index = index := by simpa using List.find?_some first
    obtain ⟨lookup, own, corrected, found, kept⟩ := sound finding (List.mem_of_find?_eq_some first)
    rw [same, List.getElem?_eq_getElem known, Option.some.injEq] at own
    rw [found] at given
    cases given
    exact own ▸ kept
  · have item : lookups[index]? = some lookups[index] := List.getElem?_eq_getElem inRange
    have present : ∃ finding ∈
        ((List.range lookups.length).zip lookups).filterMap foundInCache ++ taken,
        finding.index = index := by
      obtain ⟨answer, stored⟩ := heard _ (List.getElem_mem inRange)
      cases answer with
      | none =>
          obtain ⟨finding, member, same⟩ := all known index _ item stored
          exact ⟨finding, List.mem_append_right _ member, same⟩
      | some text =>
          have entry : (index, lookups[index]) ∈ (List.range lookups.length).zip lookups :=
            mem_numbered.mpr item
          exact ⟨_, List.mem_append_left _ (List.mem_filterMap.mpr
            ⟨_, entry, foundInCache_eq_some_iff.mpr (.inl ⟨text, stored, rfl⟩)⟩), rfl⟩
    obtain ⟨finding, first⟩ := Option.isSome_iff_exists.mp (List.find?_isSome.mpr
      (present.imp fun finding facts => ⟨facts.1, decide_eq_true facts.2⟩))
    obtain ⟨lookup, -, corrected, found, -⟩ := sound finding (List.mem_of_find?_eq_some first)
    rw [corrected?, first, Option.bind_some, found]
    rfl

end Assembly

section Chunk

/-- What a chunk can learn for one of its lookups: an outcome of a call with the same key. -/
def Learns (client : Client σ) (lookups : List Lookup) (lookup : Lookup)
    (outcome : Except Failure Text) : Prop :=
  ∃ asked ∈ lookups, asked.call.key = lookup.call.key ∧
    client.policy.Outcome client.service (client.job asked.call).request outcome

theorem learns_of_settled {client : Client σ} {session : Session σ} {lookups : List Lookup}
    {waiting : List (Nat × Lookup)} (known : ∀ entry ∈ waiting, entry.2 ∈ lookups)
    {settled : Settled}
    (given : settled ∈ (client.settle (waiting.map fun entry => entry.2.call) session).1)
    {lookup : Lookup} (same : settled.key = lookup.call.key) :
    Learns client lookups lookup settled.outcome := by
  obtain ⟨call, called, key, outcome⟩ := Client.settled_outcome given
  obtain ⟨asked, member, rfl⟩ := List.mem_map.mp called
  exact ⟨asked.2, known asked member, key.symm.trans same, outcome⟩

/-- A chunk ends with results for its spans, in order, or with a failure: the cache has given up on
one of the lookups, or an outcome could not be taken up. The invariant `holds` is carried through the
outcomes as they are taken up, and each outcome is one that the service can give for the key of the
span. -/
theorem correctChunk_spec (corrector : Corrector σ) {options : CorrectionOptions}
    {chunk : List Span} {workspace looked : Workspace σ} {lookups : List Lookup}
    (holds : Workspace σ → Prop) (promised : Lookup → Corrected → Prop)
    (lookUps : workspace.lookUp options chunk = (lookups, looked))
    (start : ∀ session, holds { looked with session })
    (cached : ∀ lookup ∈ lookups, ∀ text, lookup.cached = .ok (some text) →
      promised lookup ⟨lookup.span.correctedBy text lookup.span.confidence, .cache⟩)
    (taken : ∀ lookup ∈ lookups, lookup.cached = .ok none → ∀ outcome,
      Learns corrector.client lookups lookup outcome →
        ∀ workspace, holds workspace → holds (takeUp lookup outcome workspace).2 ∧
          ∀ corrected, (takeUp lookup outcome workspace).1 = .ok corrected →
            promised lookup corrected) :
    holds (correctChunk corrector options chunk workspace).2 ∧
      match (correctChunk corrector options chunk workspace).1 with
      | .ok corrected => (∀ lookup ∈ lookups, ∃ answer, lookup.cached = .ok answer) ∧
          PartlyAligned promised (workspace.session.inFlight = []) lookups corrected
      | .error failure =>
          (∃ lookup ∈ lookups, ∃ fault, lookup.cached = .error fault ∧
            failure = .fault fault.toFault) ∨
          ∃ lookup ∈ lookups, lookup.cached = .ok none ∧ ∃ outcome,
            Learns corrector.client lookups lookup outcome ∧
              ∃ workspace, holds workspace ∧
                (takeUp lookup outcome workspace).1 = .error failure := by
  have waits := @mem_waiting lookups
  have quiet : workspace.session.inFlight = [] → looked.session.inFlight = [] := by
    obtain ⟨cache, readings, same⟩ := lookUp_frame options chunk workspace
    rw [lookUps] at same
    rw [show looked = _ from same]
    exact id
  simp only [correctChunk, lookUps]
  generalize ((List.range lookups.length).zip lookups).filter
    (fun entry => entry.2.isMissing) = waiting at waits ⊢
  have known : ∀ entry ∈ waiting, entry.2 ∈ lookups := fun entry member =>
    List.mem_of_getElem? (waits.mp member).1
  have learnt : ∀ outcome ∈ (corrector.client.settle (waiting.map fun entry => entry.2.call)
      looked.session).1, ∀ entry ∈ waiting, outcome.key = entry.2.call.key →
        Learns corrector.client lookups entry.2 outcome.outcome :=
    fun outcome settled entry member same => learns_of_settled known settled same
  have reached : workspace.session.inFlight = [] → ∀ entry ∈ waiting, ∃ outcome ∈
      (corrector.client.settle (waiting.map fun entry => entry.2.call) looked.session).1,
        outcome.key = entry.2.call.key :=
    fun idle entry member => Client.exists_settled (quiet idle) (List.mem_map_of_mem member)
  generalize corrector.client.settle (waiting.map fun entry => entry.2.call) looked.session =
    settling at learnt reached ⊢
  obtain ⟨settled, session⟩ := settling
  dsimp only at learnt reached ⊢
  obtain ⟨takenUp, final⟩ := takeUpSettled_takenUp (fun outcome settles entry member same
      workspace before => (taken entry.2 (known entry member) (waits.mp member).2 _
        (learnt outcome settles entry member same) workspace before).1)
    { looked with session } (start session)
  generalize takeUpSettled waiting settled { looked with session } = taking at takenUp final ⊢
  obtain ⟨findings, after⟩ := taking
  dsimp only at takenUp final ⊢
  cases failing : firstFailure?
      (((List.range lookups.length).zip lookups).filterMap foundInCache ++ findings) with
  | some failure =>
      refine ⟨final, ?_⟩
      obtain ⟨finding, member, result⟩ := firstFailure?_eq_some failing
      rcases List.mem_append.mp member with stored | fresh
      · obtain ⟨entry, numbered, shown⟩ := List.mem_filterMap.mp stored
        have listed := List.mem_of_getElem? (mem_numbered.mp numbered)
        rcases foundInCache_eq_some_iff.mp shown with ⟨text, -, rfl⟩ | ⟨fault, refused, rfl⟩
        · cases result
        · exact .inl ⟨entry.2, listed, fault, refused, (Except.error.inj result).symm⟩
      · obtain ⟨entry, waiting, outcome, settles, -, same, before, kept, source⟩ :=
          takenUp.source finding fresh
        exact .inr ⟨entry.2, known entry waiting, (waits.mp waiting).2, _,
          learnt outcome settles entry waiting same, before, kept, source.symm.trans result⟩
  | none =>
      have clean : ∀ finding ∈ ((List.range lookups.length).zip lookups).filterMap foundInCache ++
          findings, ∃ corrected, finding.result = .ok corrected :=
        fun finding member => exists_ok_of_firstFailure? failing member
      have heard : ∀ lookup ∈ lookups, ∃ answer, lookup.cached = .ok answer := by
        intro lookup member
        cases given : lookup.cached with
        | ok answer => exact ⟨answer, rfl⟩
        | error fault =>
            obtain ⟨index, item⟩ := List.mem_iff_getElem?.mp member
            have shown : foundInCache (index, lookup) =
                some ⟨index, .error (.fault fault.toFault)⟩ :=
              foundInCache_eq_some_iff.mpr (.inr ⟨fault, given, rfl⟩)
            obtain ⟨corrected, impossible⟩ := clean _ (List.mem_append_left _
              (List.mem_filterMap.mpr ⟨(index, lookup), mem_numbered.mpr item, shown⟩))
            cases impossible
      refine ⟨final, heard, partlyAligned_corrected? heard cached (fun finding member => ?_)
        fun idle index lookup item missing => ?_⟩
      · obtain ⟨entry, waiting, outcome, settles, index, same, before, kept, source⟩ :=
          takenUp.source finding member
        obtain ⟨item, missing⟩ := waits.mp waiting
        obtain ⟨corrected, result⟩ := clean finding (List.mem_append_right _ member)
        exact ⟨entry.2, index ▸ item, corrected, result,
          (taken entry.2 (known entry waiting) missing _
            (learnt outcome settles entry waiting same) before kept).2 corrected
              (source.symm.trans result)⟩
      · have entry : (index, lookup) ∈ waiting := waits.mpr ⟨item, missing⟩
        exact takenUp.complete _ entry (reached idle _ entry)

end Chunk

end Workspace

end CodeProse
