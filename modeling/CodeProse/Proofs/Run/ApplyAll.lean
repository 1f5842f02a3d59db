import CodeProse.Proofs.Run.Apply
import CodeProse.Proofs.Run.Reference

/-!
# Correcting a whole document

A document that takes edits is corrected whatever its service answers, unless the cache gives up: the
corrections that make a difference replace their ranges all at once, and nothing else changes.
-/

set_option autoImplicit false

namespace CodeProse

variable {σ : Type}

/-- The calls for the spans of a document. -/
def Corrector.callsFor (corrector : Corrector σ) (document : Document)
    (given? : Option CorrectionOptions) : List Call :=
  (corrector.spans document).map (Span.call (given?.getD corrector.correctionOptions))

/-- The edits of some corrections by offsets in a document. -/
def Document.offsetEdits (document : Document) (corrections : List Correction) : List OffsetEdit :=
  corrections.map fun correction => (correction.editIn document).clamp document.text

/-- The text of a document with the ranges of some corrections replaced all at once. -/
def Document.textWith (document : Document) (corrections : List Correction) : Text :=
  replacedFrom document.text 0 (document.offsetEdits corrections)

/-- What carrying out corrections in a document means: those that make a difference are applied,
their ranges lie in the text and do not reach over one another, and their replacements stand in
the place of the ranges in an otherwise unchanged text. -/
structure Document.CarriesOut (document : Document) (corrections applied : List Correction)
    (changed : Document) : Prop where
  selected : applied.Perm (corrections.filter (·.makesDifference document))
  follow : FollowOn document.text.length 0 (document.offsetEdits applied)
  replaced : changed = { document with text := document.textWith applied }

section Edits

variable {document : Document} {corrections : List Correction}

theorem fits_editIn (spaced : Spaced (corrections.map Correction.range)) {correction : Correction}
    (member : correction ∈ corrections) (inside : correction.range.start.LiesIn document.text ∧
      correction.range.stop.LiesIn document.text) :
    (correction.editIn document).Fits document.text := by
  have extent := spaced.extent correction.range (List.mem_map_of_mem member)
  exact ⟨inside.1, inside.2, Nat.le_of_lt (inside.1.offsetAt_lt inside.2 extent)⟩

/-- Edits with gaps between their ranges follow on one another where all of them fit. -/
theorem followOn_offsetEdits (apart : Apart (corrections.map Correction.range))
    (fit : ∀ correction ∈ corrections, (correction.editIn document).Fits document.text) :
    FollowOn document.text.length 0 (document.offsetEdits corrections) := by
  have ranges : (corrections.map (·.editIn document)).map Edit.range =
      corrections.map Correction.range := List.map_map
  have follow := followOn_clamp (ranges ▸ apart) (List.forall_mem_map.mpr fit)
  rw [List.map_map] at follow
  exact follow

end Edits

namespace Workspace

section Place

variable {document : Document} {corrections : List Correction}

/-- The edits of spaced corrections that make a difference are taken where all of them fit. -/
theorem replaceRanges?_effective (writable : document.readOnly = false)
    (spaced : Spaced (corrections.map Correction.range))
    (inside : ∀ correction ∈ EditPlan.effective document corrections,
      correction.range.start.LiesIn document.text ∧ correction.range.stop.LiesIn document.text) :
    FollowOn document.text.length 0
        (document.offsetEdits (EditPlan.effective document corrections)) ∧
      document.replaceRanges? (EditPlan.ofCorrections document corrections).edits =
        some { document with
          text := document.textWith (EditPlan.effective document corrections) } := by
  obtain ⟨-, edits⟩ := EditPlan.ofCorrections_of_spaced document spaced
  have apart := EditPlan.apart_effective document spaced
  have fit : ∀ correction ∈ EditPlan.effective document corrections,
      (correction.editIn document).Fits document.text := by
    intro correction member
    have known : correction ∈ corrections := mem_stableSort.mp (List.mem_filter.mp member).1
    exact fits_editIn spaced known (inside correction member)
  have replaced := replaceRanges?_of_apart apart (List.forall_mem_map.mpr fit)
  rw [List.map_map] at apart replaced
  exact ⟨followOn_offsetEdits apart fit, Document.replaceRanges?_eq_some_iff_writable.mpr
    ⟨writable, _, edits ▸ replaced, rfl⟩⟩

theorem place_effective (corrector : Corrector σ) (writable : document.readOnly = false)
    (spaced : Spaced (corrections.map Correction.range))
    (inside : ∀ correction ∈ EditPlan.effective document corrections,
      correction.range.start.LiesIn document.text ∧ correction.range.stop.LiesIn document.text)
    (workspace : Workspace σ) :
    ∃ after, workspace.place corrector document corrections =
      (some (EditPlan.effective document corrections),
        { document with text := document.textWith (EditPlan.effective document corrections) },
        after) := by
  obtain ⟨planned, edits⟩ := EditPlan.ofCorrections_of_spaced document spaced
  obtain ⟨-, taken⟩ := replaceRanges?_effective writable spaced inside
  have puts := place_putsIn corrector document corrections workspace
  generalize workspace.place corrector document corrections = result at puts ⊢
  cases puts with
  | idle empty records =>
      rw [edits, List.map_eq_nil_iff] at empty
      rw [empty]
      exact ⟨_, rfl⟩
  | refused refused records =>
      rw [taken] at refused
      cases refused
  | taken filled accepted records =>
      rw [taken] at accepted
      cases accepted
      rw [planned]
      exact ⟨_, rfl⟩

/-- Spaced corrections that lie in a document which takes edits are carried out. -/
theorem place_carriesOut (corrector : Corrector σ) (writable : document.readOnly = false)
    (spaced : Spaced (corrections.map Correction.range))
    (inside : ∀ correction ∈ corrections, correction.range.start.LiesIn document.text ∧
      correction.range.stop.LiesIn document.text) (workspace : Workspace σ) :
    ∃ applied changed after,
      workspace.place corrector document corrections = (some applied, changed, after) ∧
        document.CarriesOut corrections applied changed := by
  have fits : ∀ correction ∈ EditPlan.effective document corrections,
      correction.range.start.LiesIn document.text ∧ correction.range.stop.LiesIn document.text :=
    fun correction member => inside correction (mem_stableSort.mp (List.mem_filter.mp member).1)
  obtain ⟨after, placed⟩ := place_effective corrector writable spaced fits workspace
  obtain ⟨follow, -⟩ := replaceRanges?_effective writable spaced fits
  exact ⟨_, _, after, placed, (stableSort_perm _ _).filter _, follow, rfl⟩

/-- Where the document refuses the edits of some corrections, nothing is placed and nothing recorded. -/
theorem place_of_refused (corrector : Corrector σ)
    (refused : document.replaceRanges? (EditPlan.ofCorrections document corrections).edits = none)
    (workspace : Workspace σ) :
    (workspace.place corrector document corrections).1.getD [] = [] ∧
      (workspace.place corrector document corrections).2.1 = document ∧
      workspace.SameRecords (workspace.place corrector document corrections).2.2 := by
  have puts := place_putsIn corrector document corrections workspace
  generalize workspace.place corrector document corrections = result at puts ⊢
  cases puts with
  | idle empty records => exact ⟨rfl, rfl, rfl, rfl⟩
  | refused refused records => exact ⟨rfl, rfl, rfl, rfl⟩
  | taken filled taken records =>
      rw [refused] at taken
      cases taken

/-- Spaced corrections none of which makes a difference leave no trace but a report. -/
theorem place_of_idle (corrector : Corrector σ)
    (spaced : Spaced (corrections.map Correction.range))
    (idle : ∀ correction ∈ corrections, correction.makesDifference document = false)
    (workspace : Workspace σ) :
    workspace.place corrector document corrections = (some [], document,
      workspace.logSkipped (EditPlan.ofCorrections document corrections)) := by
  have none : EditPlan.effective document corrections = [] :=
    List.filter_eq_nil_iff.mpr fun correction member => by
      simp [idle correction (mem_stableSort.mp member)]
  have edits : (EditPlan.ofCorrections document corrections).edits = [] := by
    rw [(EditPlan.ofCorrections_of_spaced document spaced).2, none, List.map_nil]
  simp only [place, edits, List.isEmpty_nil, if_true]

theorem place_isCancelled (corrector : Corrector σ) (workspace : Workspace σ) :
    (workspace.place corrector document corrections).2.2.session.isCancelled =
      workspace.session.isCancelled := by
  have puts := place_putsIn corrector document corrections workspace
  generalize workspace.place corrector document corrections = result at puts ⊢
  cases puts <;> rfl

theorem correctAndPlace_isCancelled (corrector : Corrector σ) {spans : List Span}
    (some : spans.isEmpty = false) (given? : Option CorrectionOptions) (workspace : Workspace σ) :
    (correctAndPlace corrector document spans given? workspace).2.session.isCancelled =
      (correctSpans corrector spans given? workspace).2.session.isCancelled := by
  have course := correctAndPlace_applies corrector document spans given? workspace
  generalize correctAndPlace corrector document spans given? workspace = outcome at course ⊢
  cases course with
  | nothing none =>
      rw [none] at some
      cases some
  | failed corrects => rw [corrects]
  | cancelled corrects stopped => rw [corrects]
  | placed corrects finished =>
      rw [corrects]
      exact place_isCancelled corrector _

end Place

section Whole

variable {corrector : Corrector σ} {document : Document}

/-- Corrections that stand for the spans of a document one by one. -/
def StandFor (spans : List Span) (corrections : List Correction) : Prop :=
  List.Forall₂ (fun span correction =>
    correction.range = span.range ∧ correction.draft = span.text) spans corrections

/-- A correction of a span on a single line that differs from the span replaces its range by the
corrected text. -/
theorem replacementIn_of_single {registry : Registry} {options : ExtractionOptions} {span : Span}
    (member : span ∈ document.spans registry options) {correction : Correction}
    (range : correction.range = span.range) (draft : correction.draft = span.text)
    (single : correction.range.start.line = correction.range.stop.line) :
    correction.replacementIn document = correction.text ∧
      document.textIn correction.range = correction.draft := by
  have nonempty := Document.textIn_ne_nil_of_mem_spans member
  rw [range] at single
  have source := Document.textIn_of_mem_spans member single
  rw [Correction.replacementIn, range, draft, source]
  exact ⟨buildReplacement_self (source ▸ nonempty), rfl⟩

/-- The corrections of spans of a document are placed, each single one of them that differs. -/
theorem place_standFor {corrections : List Correction}
    (stand : StandFor (corrector.spans document) corrections)
    (writable : document.readOnly = false) (workspace : Workspace σ) :
    ∃ applied changed after,
      workspace.place corrector document corrections = (some applied, changed, after) ∧
        document.CarriesOut corrections applied changed ∧
        ∀ correction ∈ corrections, correction.changed = true →
          (correction.range.start.line = correction.range.stop.line →
            correction ∈ applied ∧ correction.replacementIn document = correction.text) ∧
          (correction ∉ applied →
            correction.replacementIn document = document.textIn correction.range) := by
  have ranges : (corrector.spans document).map Span.range = corrections.map Correction.range :=
    map_eq_map_of_forall₂ Span.range Correction.range (fun _ _ same => same.1.symm) stand
  have spaced : Spaced (corrections.map Correction.range) := ranges ▸ spaced_extract
  have inside : ∀ correction ∈ corrections, correction.range.start.LiesIn document.text ∧
      correction.range.stop.LiesIn document.text := by
    intro correction member
    obtain ⟨span, known, range, -⟩ := exists_aligned_of_mem_right stand member
    rw [range]
    exact Document.liesIn_of_mem_spans known
  obtain ⟨applied, changed, after, placed, carried⟩ :=
    place_carriesOut corrector writable spaced inside workspace
  have effective : ∀ correction ∈ corrections, correction.changed = true →
      correction.replacementIn document ≠ document.textIn correction.range →
        correction ∈ applied := by
    intro correction member differs effect
    refine carried.selected.mem_iff.mpr (List.mem_filter.mpr ⟨member, ?_⟩)
    simp [Correction.makesDifference, differs, effect]
  refine ⟨applied, changed, after, placed, carried, fun correction member differs => ⟨?_, ?_⟩⟩
  · intro single
    obtain ⟨span, known, range, draft⟩ := exists_aligned_of_mem_right stand member
    obtain ⟨replacement, source⟩ := replacementIn_of_single known range draft single
    refine ⟨effective correction member differs ?_, replacement⟩
    rw [replacement, source]
    simpa [Correction.changed] using differs
  · intro omitted
    exact Classical.byContradiction fun effect =>
      omitted (effective correction member differs effect)

/-- Correcting a whole document that takes edits, by a service without failures of the
configuration and without a cancellation, succeeds, unless the cache gives up on a span and the whole
work fails. The run is completed with a correction for each span, and the document has the ranges of
those that make a difference replaced all at once. The range of a span on a single line then holds the
corrected text, and a correction is left out only where its replacement is what stands there
already. -/
theorem applyAll_carriesOut (corrector : Corrector σ) (document : Document)
    (given? : Option CorrectionOptions) (workspace : Workspace σ)
    (harmless : corrector.client.service.IsHarmless) (positive : 0 < corrector.chunkSize)
    (idle : workspace.session.inFlight = []) (writable : document.readOnly = false)
    (uncancelled : (applyAll corrector (some document) given? workspace).2.session.isCancelled =
      false) :
    (∃ application changed after run,
      applyAll corrector (some document) given? workspace = (.ok (application, changed), after) ∧
        application.succeeded = true ∧ application.run = some run ∧ run.state = .completed ∧
        StandFor (corrector.spans document) run.corrections ∧
        document.CarriesOut run.corrections application.applied changed ∧
        ∀ correction ∈ run.corrections, correction.changed = true →
          (correction.range.start.line = correction.range.stop.line →
            correction ∈ application.applied ∧
              correction.replacementIn document = correction.text) ∧
          (correction ∉ application.applied →
            correction.replacementIn document = document.textIn correction.range)) ∨
      ∃ failure, (applyAll corrector (some document) given? workspace).1 = .error failure ∧
        corrector.client.GivesUp (corrector.callsFor document given?)
          (workspace.CanRank (corrector.spans document).length) failure := by
  rw [applyAll] at uncancelled ⊢
  have logged : workspace.CanRank (corrector.spans document).length →
      (workspace.logExtraction corrector document).CanRank (corrector.spans document).length :=
    fun ranks => ⟨ranks.few, ranks.scores⟩
  have quiet : (workspace.logExtraction corrector document).session.inFlight = [] := idle
  generalize workspace.logExtraction corrector document = start at logged quiet uncancelled ⊢
  cases none : (corrector.spans document).isEmpty with
  | true =>
      rw [correctAndPlace, if_pos none]
      refine .inl ⟨_, _, _, _, rfl, rfl, rfl, rfl, ?_, ⟨.nil, Nat.zero_le _, rfl⟩, by simp⟩
      rw [List.isEmpty_iff.mp none]
      exact .nil
  | false =>
      rw [correctAndPlace_isCancelled corrector none given? start] at uncancelled
      rcases correctSpans_expected (.any harmless _)
          (workspace.CanRank (corrector.spans document).length) positive quiet logged
          (fun _ _ _ _ _ _ _ => trivial) uncancelled with
        ⟨run, after, corrected, corrects, completed, -, corrections, aligned⟩ |
          ⟨failure, failed, givesUp⟩
      · have stand : StandFor (corrector.spans document) run.corrections := by
          rw [corrections, StandFor, List.forall₂_map_right_iff]
          refine aligned.imp fun span result fits => ?_
          obtain ⟨text, confidence, corrected⟩ := fits.2.corrects
          rw [corrected]
          exact ⟨rfl, rfl⟩
        obtain ⟨applied, changed, last, placed, carried, facts⟩ :=
          place_standFor stand writable after
        have unfinished : ¬ run.state = .cancelled := by
          rw [completed]
          simp
        rw [correctAndPlace, if_neg (ne_true_of_eq_false none), corrects]
        simp only [unfinished, if_false, placed]
        exact .inl ⟨_, _, _, _, rfl, rfl, rfl, completed, stand, carried, facts⟩
      · refine .inr ⟨failure, ?_, givesUp⟩
        rw [correctAndPlace, if_neg (ne_true_of_eq_false none)]
        generalize correctSpans corrector (corrector.spans document) given? start = outcome at failed
        obtain ⟨cause, after⟩ := outcome
        rw [show cause = .error failure from failed]

def catCorrector : Corrector Unit where
  client :=
    { service := { reply := fun state _ => (.ok (some "The cat is here."), state) }
      model := [] }

def catNote : Document where
  identity := "note"
  languageId := "python"
  text := "x = 1\n  # Teh cat is here.\ny = x"

/-- Correcting the document replaces the prose of its comment and keeps the code around it. -/
theorem applyAll_catNote :
    ∃ application changed after,
      applyAll catCorrector (some catNote) none { session := { service := () } } =
        (.ok (application, changed), after) ∧
      application.succeeded = true ∧ changed.text = "x = 1\n  # The cat is here.\ny = x".toText := by
  have text : ((applyAll catCorrector (some catNote) none
      { session := { service := () } }).1.toOption.map fun applied => applied.2.text) =
        some "x = 1\n  # The cat is here.\ny = x".toText := by
    decide +kernel
  rcases applyAll_carriesOut catCorrector catNote none { session := { service := () } }
      (fun state request failure replied => by cases replied) (by decide) rfl rfl
      (by decide +kernel) with
    ⟨application, changed, after, run, applies, succeeded, -⟩ | ⟨failure, failed, -⟩
  · rw [applies] at text
    exact ⟨application, changed, after, applies, succeeded, Option.some.inj text⟩
  · rw [failed] at text
    cases text

/-- A service whose answer the cache cannot write down: correcting the document fails. -/
theorem not_forall_applyAll_carriesOut :
    ¬ ∀ (corrector : Corrector Unit) (document : Document) (workspace : Workspace Unit),
      corrector.client.service.IsHarmless → 0 < corrector.chunkSize → document.readOnly = false →
      (applyAll corrector (some document) none workspace).2.session.isCancelled = false →
      ∃ application changed after,
        applyAll corrector (some document) none workspace = (.ok (application, changed), after) ∧
          application.succeeded = true := by
  intro claimed
  have answers : halvedCorrector.client.service.AnswersBy halvedReply :=
    ⟨fun _ _ => rfl, fun _ _ replied => by cases replied⟩
  have fails : (applyAll halvedCorrector (some catNote) none
      { session := { service := () } }).1.isOk = false := by
    decide +kernel
  obtain ⟨application, changed, after, applies, -⟩ := claimed halvedCorrector catNote
    { session := { service := () } } answers.isHarmless (by decide) rfl (by decide +kernel)
  rw [applies] at fails
  cases fails

end Whole

end Workspace

end CodeProse
