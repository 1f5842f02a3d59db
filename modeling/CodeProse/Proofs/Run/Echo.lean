import CodeProse.Proofs.Run.Preview
import CodeProse.Proofs.Run.Unwrapping

/-!
# Services that echo

A service may give back the text that it is asked about, also between quotes that do not stand around
the text itself. Unwrapping takes such quotes off and none of those of the text, so a service that
does no more changes nothing. A key that the cache cannot write down is noticed all the same.
-/

set_option autoImplicit false

namespace CodeProse

variable {σ : Type}

/-- The replies that leave a text as it is: the text, or the text in quotes it does not stand in. -/
inductive Echoes (text : Text) : Text → Prop where
  | bare : Echoes text text
  | quoted {quote : CodePoint} (member : quote ∈ wrappingQuotes)
      (plain : isWrappedIn quote text = false) : Echoes text (quote :: (text ++ [quote]))

theorem Echoes.unwrap_eq {text reply : Text} (echoes : Echoes text reply)
    (trimmed : Text.trim text = text) : unwrap reply text = text := by
  cases echoes with
  | bare =>
      rcases unwrap_cases text text with ⟨same, -⟩ | ⟨quote, -, plain, inner, shape, -⟩
      · rw [same, trimmed]
      · rw [← trimmed, shape, isWrappedIn_quoted] at plain
        cases plain
  | @quoted quote member plain =>
      have whole := (isSolid_quoted member text).trim_eq
      rcases unwrap_cases (quote :: (text ++ [quote])) text with
        ⟨-, other⟩ | ⟨_, -, -, inner, shape, same⟩
      · exact absurd whole (other quote member plain text)
      · rw [whole] at shape
        obtain ⟨rfl, rest⟩ := List.cons.inj shape
        rw [same, ← List.append_cancel_right rest, trimmed]

/-- A client whose service echoes the texts of some calls whenever it answers them, and else fails
outside the configuration. -/
structure Client.Echoes (client : Client σ) (calls : List Call) : Prop where
  answers : ∀ call ∈ calls, ∀ reply, client.service.Answers (client.job call).request reply →
    CodeProse.Echoes call.text reply
  failures : ∀ call ∈ calls, ∀ state failure,
    (client.service.reply state (client.job call).request).1 = .error failure →
      failure.isConfiguration = false

/-- What to expect of calls that are echoed: the text itself. -/
def Expectation.echo {client : Client σ} {calls : List Call} (echoes : client.Echoes calls)
    (trimmed : ∀ call ∈ calls, Text.trim call.text = call.text) (distinct : HaveOwnDigests calls) :
    Expectation client calls where
  allows call text := text = call.text
  mayFail _ := True
  answered asked known call called same text outcome _ := by
    obtain ⟨texts, -⟩ := CorrectionOptions.key_inj same
    have echo := echoes.answers asked known text outcome.answers.2
    rw [texts] at echo
    exact echo.unwrap_eq (trimmed call called)
  failed asked known _ _ _ _ outcome :=
    ⟨outcome.isConfiguration_eq_false_of (echoes.failures asked known), trivial⟩
  shared stored known call called digest storedDigest ownDigest text allowed := by
    obtain ⟨texts, -⟩ := CorrectionOptions.key_inj
      (distinct stored known call called digest storedDigest ownDigest)
    rw [allowed, texts]

theorem Expectation.echo_unchanged {client : Client σ} {calls : List Call}
    {echoes : client.Echoes calls} {trimmed : ∀ call ∈ calls, Text.trim call.text = call.text}
    {distinct : HaveOwnDigests calls} {options : CorrectionOptions} {span : Span}
    {corrected : Corrected}
    (meets : (echo echoes trimmed distinct).Meets (span.call options) span corrected) :
    corrected.correction.changed = false := by
  cases meets with
  | @answer text origin allowed =>
      have same : text = span.text := allowed
      simp [Correction.changed, Span.correctedBy, same]
  | failure failing => simp [Correction.changed, Span.correctedBy]

/-- A call that is echoed can be written down if its key can. -/
theorem Client.Echoes.isWritable {client : Client σ} {calls : List Call} {call : Call}
    (echoes : client.Echoes calls) (known : call ∈ calls) (trimmed : Text.trim call.text = call.text)
    (key : Text.IsWhole call.key) : client.IsWritable call := by
  refine ⟨key, fun text outcome => ?_⟩
  rw [(echoes.answers call known text outcome.answers.2).unwrap_eq trimmed]
  exact (Text.isWhole_append.mp key).1

namespace Workspace

variable {corrector : Corrector σ} {document : Document} {given? : Option CorrectionOptions}

/-- Corrections that equal their drafts leave no trace in a document or a workspace. -/
theorem place_of_unchanged (corrector : Corrector σ) (document : Document)
    {corrections : List Correction} (same : ∀ correction ∈ corrections, correction.changed = false)
    (workspace : Workspace σ) :
    workspace.place corrector document corrections = (some [], document, workspace) := by
  have none : corrections.filter Correction.changed = [] :=
    List.filter_eq_nil_iff.mpr fun correction member => by simp [same correction member]
  have plan : EditPlan.ofCorrections document corrections = {} := by
    rw [← EditPlan.ofCorrections_filter_changed, none]
    rfl
  rw [place, plan]
  rfl

/-- A run over an echoing service fails only where some key cannot be written down, and none of its
corrections differs. -/
theorem correctSpans_echo {spans : List Span} {workspace : Workspace σ}
    (positive : 0 < corrector.chunkSize)
    (echoes : corrector.client.Echoes
      (spans.map (Span.call (given?.getD corrector.correctionOptions))))
    (trimmed : ∀ span ∈ spans, Text.trim span.text = span.text)
    (distinct : HaveOwnDigests (spans.map (Span.call (given?.getD corrector.correctionOptions))))
    (empty : workspace.cache.entries = []) (few : spans.length < Binary64.integerBound) :
    match correctSpans corrector spans given? workspace with
    | (.ok run, after) => (∀ correction ∈ run.corrections, correction.changed = false) ∧
        (run.state = .cancelled → after.session.isCancelled = true)
    | (.error failure, _) => failure = .fault .unencodable ∧
        ∃ call ∈ spans.map (Span.call (given?.getD corrector.correctionOptions)),
          ¬ Text.IsWhole call.key := by
  have trimmedCalls : ∀ call ∈ spans.map (Span.call (given?.getD corrector.correctionOptions)),
      Text.trim call.text = call.text := List.forall_mem_map.mpr trimmed
  have ranks : workspace.CanRank spans.length :=
    canRank_of_hits few (by simp [empty])
  have agrees : workspace.Agrees (.echo echoes trimmedCalls distinct) := by
    intro call _ entry member
    rw [empty] at member
    cases member
  have result := correctSpans_agrees _ True positive (fun _ => ranks) agrees
  generalize correctSpans corrector spans given? workspace = outcome at result ⊢
  rcases outcome with ⟨failure | run, after⟩
  · cases result with
    | unwritable known foreign =>
        exact ⟨rfl, _, known, fun key =>
          foreign (echoes.isWritable known (trimmedCalls _ known) key)⟩
    | unranked unranked => exact absurd trivial unranked
  · have unchanged : ∀ {passed : List Span}, MetBy (.echo echoes trimmedCalls distinct)
        (workspace.session.inFlight = []) (given?.getD corrector.correctionOptions) passed
          run.corrections → ∀ correction ∈ run.corrections, correction.changed = false := by
      rintro passed ⟨corrected, same, some, -, -, aligned⟩ correction member
      rw [same] at member
      obtain ⟨result, known, rfl⟩ := List.mem_map.mp member
      obtain ⟨span, -, fits⟩ := exists_aligned_of_mem_right aligned known
      exact Expectation.echo_unchanged fits.2
    rcases result with ⟨completed, -, met⟩ | ⟨-, cancelled, passed, -, met⟩
    · refine ⟨unchanged met, fun stopped => ?_⟩
      rw [completed] at stopped
      cases stopped
    · exact ⟨unchanged met, fun _ => cancelled⟩

/-- For every document and all options, from an empty cache and any undo stack: where the service
echoes the prose of the document, correcting the document changes nothing. It applies nothing, keeps
the document, the undo stack and the history, and succeeds unless it is cancelled; a preview lists
nothing. Either fails only where the key of some span cannot be written down. -/
theorem applyAll_echo (corrector : Corrector σ) (document : Document)
    (given? : Option CorrectionOptions) (workspace : Workspace σ)
    (positive : 0 < corrector.chunkSize)
    (echoes : corrector.client.Echoes (corrector.callsFor document given?))
    (distinct : HaveOwnDigests (corrector.callsFor document given?))
    (empty : workspace.cache.entries = [])
    (few : (corrector.spans document).length < Binary64.integerBound) :
    ((∃ application after, applyAll corrector (some document) given? workspace =
            (.ok (application, document), after) ∧
          application.applied = [] ∧
          (after.session.isCancelled = false → application.succeeded = true) ∧
          workspace.SameRecords after) ∨
        (applyAll corrector (some document) given? workspace).1 = .error (.fault .unencodable) ∧
          ∃ call ∈ corrector.callsFor document given?, ¬ Text.IsWhole call.key) ∧
      ((∃ shown after, preview corrector (some document) given? workspace = (.ok shown, after) ∧
          shown.corrections = [] ∧ workspace.SameRecords after) ∨
        (preview corrector (some document) given? workspace).1 = .error (.fault .unencodable) ∧
          ∃ call ∈ corrector.callsFor document given?, ¬ Text.IsWhole call.key) := by
  have trimmed : ∀ span ∈ corrector.spans document, Text.trim span.text = span.text :=
    fun span member => trim_of_mem_extract member
  have logged : (workspace.logExtraction corrector document).cache.entries = [] := empty
  have echoed := correctSpans_echo positive echoes trimmed distinct logged few
  have frame := correctSpans_frame corrector (corrector.spans document) given?
    (workspace.logExtraction corrector document)
  constructor
  · have course := correctAndPlace_applies corrector document (corrector.spans document) given?
      (workspace.logExtraction corrector document)
    rw [applyAll]
    generalize correctAndPlace corrector document (corrector.spans document) given?
      (workspace.logExtraction corrector document) = outcome at course ⊢
    cases course with
    | nothing none kept =>
        exact .inl ⟨_, _, rfl, rfl, fun _ => rfl, kept.undoStack, kept.history⟩
    | failed fails =>
        rw [fails] at echoed
        exact .inr ⟨by rw [echoed.1], echoed.2⟩
    | cancelled corrects ended =>
        rw [corrects] at echoed frame
        refine .inl ⟨_, _, rfl, rfl, fun uncancelled => ?_, frame.1.undoStack, frame.1.history⟩
        exact absurd (echoed.2 ended) (ne_true_of_eq_false uncancelled)
    | placed corrects finished =>
        rw [corrects] at echoed frame
        rw [place_of_unchanged corrector document echoed.1]
        exact .inl ⟨_, _, rfl, rfl, fun _ => rfl, frame.1.undoStack, frame.1.history⟩
  · simp only [preview]
    generalize correctSpans corrector (corrector.spans document) given?
      (workspace.logExtraction corrector document) = outcome at echoed frame ⊢
    rcases outcome with ⟨failure | run, after⟩
    · exact .inr ⟨by rw [echoed.1], echoed.2⟩
    · refine .inl ⟨_, _, rfl, ?_, frame.1.undoStack, frame.1.history⟩
      exact List.filter_eq_nil_iff.mpr fun correction member => by
        simp [echoed.1 correction member]

/-- A comment that starts and ends with a quote, without standing in a pair of them. -/
def quotingNote : Document where
  identity := "note"
  languageId := "python"
  text := "# \"Teh\" cat \"sat\""

/-- A corrector whose service echoes the comment between other quotes. -/
def echoingCorrector : Corrector Unit where
  client :=
    { service := { reply := fun state _ => (.ok (some "\x60\"Teh\" cat \"sat\"\x60"), state) }
      model := [] }

/-- The quotes of the comment are kept, those around the reply are taken off. -/
theorem applyAll_echo_quotingNote :
    let workspace : Workspace Unit :=
      { session := { service := () }, undoStack := [⟨"other", [], []⟩] }
    ∃ application after, applyAll echoingCorrector (some quotingNote) none workspace =
        (.ok (application, quotingNote), after) ∧
      application.succeeded = true ∧ after.undoStack = workspace.undoStack := by
  intro workspace
  have single : echoingCorrector.callsFor quotingNote none =
      [⟨"\"Teh\" cat \"sat\"", { context := some quotingNote.text }⟩] := by
    decide +kernel
  have echoes : echoingCorrector.client.Echoes (echoingCorrector.callsFor quotingNote none) := by
    rw [single]
    refine ⟨fun call known reply answers => ?_, fun _ _ state failure replied => ?_⟩
    · rw [List.mem_singleton.mp known]
      obtain ⟨state, replied, -⟩ := answers
      cases replied
      exact .quoted (by decide) (by decide)
    · cases replied
  have distinct : HaveOwnDigests (echoingCorrector.callsFor quotingNote none) := by
    rw [single]
    intro left leftKnown right rightKnown _ _ _
    rw [List.mem_singleton.mp leftKnown, List.mem_singleton.mp rightKnown]
  have few : (echoingCorrector.spans quotingNote).length < Binary64.integerBound := by
    have one : (echoingCorrector.spans quotingNote).length = 1 := by decide +kernel
    rw [one]
    decide +kernel
  have runs : (applyAll echoingCorrector (some quotingNote) none workspace).1.isOk = true ∧
      (applyAll echoingCorrector (some quotingNote) none workspace).2.session.isCancelled = false := by
    decide +kernel
  obtain ⟨⟨application, after, applies, -, succeeds, records⟩ | ⟨failed, -⟩, -⟩ :=
    applyAll_echo echoingCorrector quotingNote none workspace (by decide) echoes distinct rfl few
  · rw [applies] at runs
    exact ⟨application, after, applies, succeeds runs.2, records.undoStack⟩
  · rw [failed] at runs
    cases runs.1

/-- A service that gives back the one text that it is asked about. -/
def mirroringCorrector : Corrector Unit where
  client :=
    { service := { reply := fun state _ => (.ok (some "Teh cat"), state) }
      model := []
      policy := { attempts := 1 } }

/-- A style with half of a surrogate pair in it gets into the key, so the cache gives up before the
service is asked. -/
theorem not_forall_applyAll_echo :
    ¬ ∀ (corrector : Corrector Unit) (document : Document) (options : CorrectionOptions)
      (workspace : Workspace Unit), 0 < corrector.chunkSize →
      corrector.client.Echoes (corrector.callsFor document (some options)) →
      HaveOwnDigests (corrector.callsFor document (some options)) →
      workspace.cache.entries = [] →
      (corrector.spans document).length < Binary64.integerBound →
      ∃ application after, applyAll corrector (some document) (some options) workspace =
        (.ok (application, document), after) := by
  intro claimed
  let options : CorrectionOptions := { style := some [.surrogate 0x3D] }
  let note : Document := { identity := "note", languageId := "python", text := "# Teh cat" }
  have single : mirroringCorrector.callsFor note (some options) =
      [⟨"Teh cat", { options with context := some note.text }⟩] := by
    decide +kernel
  have echoes : mirroringCorrector.client.Echoes (mirroringCorrector.callsFor note (some options)) := by
    rw [single]
    refine ⟨fun call known reply answers => ?_, fun _ _ state failure replied => ?_⟩
    · rw [List.mem_singleton.mp known]
      obtain ⟨state, replied, -⟩ := answers
      cases replied
      exact .bare
    · cases replied
  have distinct : HaveOwnDigests (mirroringCorrector.callsFor note (some options)) := by
    rw [single]
    intro left leftKnown right rightKnown _ _ _
    rw [List.mem_singleton.mp leftKnown, List.mem_singleton.mp rightKnown]
  have few : (mirroringCorrector.spans note).length < Binary64.integerBound := by
    have one : (mirroringCorrector.spans note).length = 1 := by decide +kernel
    rw [one]
    decide +kernel
  have fails : (applyAll mirroringCorrector (some note) (some options)
      { session := { service := () } }).1.isOk = false := by
    decide +kernel
  obtain ⟨application, after, applies⟩ := claimed mirroringCorrector note options
    { session := { service := () } } (by decide) echoes distinct rfl few
  rw [applies] at fails
  cases fails

end Workspace

end CodeProse
