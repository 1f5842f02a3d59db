import CodeProse.Proofs.Correction.Plan
import CodeProse.Proofs.Document.Batch

/-!
# Plans of any corrections

A plan is made in one sweep over the corrections in document order. However their ranges overlap,
nest or touch, each correction that differs from its draft is planned or left out, the planned ones
do not overlap, and one that is left out overlaps a planned one or changes nothing.
-/

set_option autoImplicit false

namespace CodeProse

namespace EditPlan

variable {document : Document} {reached : Option Position} {corrections : List Correction}
  {swept : EditPlan}

/-- Whether a correction has to give way to a planned one, which stands before it and overlaps it. -/
def YieldsTo (swept : EditPlan) (correction : Correction) : Prop :=
  ∃ planned ∈ swept.corrections, planned.range.notAfter correction.range = true ∧
    planned.range.Overlaps correction.range

/-- How a sweep goes on at each of the corrections, behind edits that reach up to a position. -/
inductive Sweeps (document : Document) :
    Option Position → List Correction → EditPlan → Prop where
  | done {reached : Option Position} : Sweeps document reached [] {}
  | unchanged {reached : Option Position} {correction : Correction} {rest : List Correction}
      {swept : EditPlan} (same : correction.changed = false)
      (further : Sweeps document reached rest swept) :
      Sweeps document reached (correction :: rest) swept
  | overlapping {position : Position} {correction : Correction} {rest : List Correction}
      {swept : EditPlan} (differs : correction.changed = true)
      (across : correction.range.start < position)
      (further : Sweeps document (some position) rest swept) :
      Sweeps document (some position) (correction :: rest) (skip correction swept)
  | idle {reached : Option Position} {correction : Correction} {rest : List Correction}
      {swept : EditPlan} (differs : correction.changed = true)
      (kept : correction.replacementIn document = document.textIn correction.range)
      (further : Sweeps document reached rest swept) :
      Sweeps document reached (correction :: rest) (skip correction swept)
  | planned {reached : Option Position} {correction : Correction} {rest : List Correction}
      {swept : EditPlan} (differs : correction.changed = true)
      (clear : ∀ position ∈ reached, position ≤ correction.range.start)
      (further : Sweeps document (some correction.range.stop) rest swept) :
      Sweeps document reached (correction :: rest)
        (plan correction (correction.replacementIn document) swept)

theorem planOrdered_sweeps (document : Document) (reached : Option Position)
    (corrections : List Correction) :
    Sweeps document reached corrections (planOrdered document reached corrections) := by
  induction corrections generalizing reached with
  | nil => exact .done
  | cons correction rest ih =>
      unfold planOrdered
      cases differs : correction.changed with
      | false => exact .unchanged differs (ih reached)
      | true =>
          simp only [Bool.not_true, Bool.false_eq_true, if_false]
          split
          · next across =>
              cases reached with
              | none => cases across
              | some position => exact .overlapping differs (by simpa using across) (ih _)
          · next clear =>
              split
              · next kept => exact .idle differs kept (ih reached)
              · apply Sweeps.planned differs
                · intro position known
                  rw [known] at clear
                  simpa using clear
                · exact ih _

/-- Corrections that equal their drafts leave no trace in a sweep. -/
theorem planOrdered_filter_changed (document : Document) (reached : Option Position)
    (corrections : List Correction) :
    planOrdered document reached (corrections.filter Correction.changed) =
      planOrdered document reached corrections := by
  induction corrections generalizing reached with
  | nil => rfl
  | cons correction rest ih =>
      cases differs : correction.changed with
      | false => simp [planOrdered, differs, ih]
      | true => simp [planOrdered, differs, ih]

/-- A plan is made of the corrections that differ from their drafts. -/
theorem ofCorrections_filter_changed (document : Document) (corrections : List Correction) :
    ofCorrections document (corrections.filter Correction.changed) =
      ofCorrections document corrections := by
  rw [ofCorrections, ofCorrections,
    ← planOrdered_filter_changed document none (stableSort _ corrections)]
  congr 1
  symm
  apply filter_stableSort
  · exact fun left middle right => Range.notAfter_trans left.range middle.range right.range
  · exact fun left _ right _ => Range.notAfter_total left.range right.range

namespace Sweeps

/-- Each correction that differs is planned or left out, and no other is. -/
theorem perm (sweeps : Sweeps document reached corrections swept) :
    (swept.corrections ++ swept.skipped).Perm (corrections.filter Correction.changed) := by
  induction sweeps with
  | done => exact .refl _
  | unchanged same further ih => simpa [same] using ih
  | overlapping differs across further ih =>
      rw [List.filter_cons_of_pos differs]
      exact List.perm_middle.trans (ih.cons _)
  | idle differs kept further ih =>
      rw [List.filter_cons_of_pos differs]
      exact List.perm_middle.trans (ih.cons _)
  | planned differs clear further ih =>
      rw [List.filter_cons_of_pos differs]
      exact ih.cons _

theorem edits_eq (sweeps : Sweeps document reached corrections swept) :
    swept.edits = swept.corrections.map (·.editIn document) := by
  induction sweeps with
  | done => rfl
  | unchanged _ _ ih => exact ih
  | overlapping _ _ _ ih => exact ih
  | idle _ _ _ ih => exact ih
  | planned _ _ _ ih => exact congrArg (List.cons _) ih

theorem le_start (sweeps : Sweeps document reached corrections swept)
    (ordered : ∀ correction ∈ corrections, correction.range.start ≤ correction.range.stop) :
    ∀ position ∈ reached, ∀ planned ∈ swept.corrections, position ≤ planned.range.start := by
  induction sweeps with
  | done => exact fun _ _ _ none => absurd none List.not_mem_nil
  | unchanged same further ih => exact ih (List.forall_mem_cons.mp ordered).2
  | overlapping differs across further ih => exact ih (List.forall_mem_cons.mp ordered).2
  | idle differs kept further ih => exact ih (List.forall_mem_cons.mp ordered).2
  | @planned reached correction rest swept differs clear further ih =>
      obtain ⟨extent, orderedRest⟩ := List.forall_mem_cons.mp ordered
      intro position known planned member
      rcases List.mem_cons.mp member with rfl | later
      · exact clear position known
      · exact ((clear position known).trans extent).trans (ih orderedRest _ rfl planned later)

theorem pairwise (sweeps : Sweeps document reached corrections swept)
    (ordered : ∀ correction ∈ corrections, correction.range.start ≤ correction.range.stop) :
    swept.corrections.Pairwise (·.range.stop ≤ ·.range.start) := by
  induction sweeps with
  | done => exact List.Pairwise.nil
  | unchanged same further ih => exact ih (List.forall_mem_cons.mp ordered).2
  | overlapping differs across further ih => exact ih (List.forall_mem_cons.mp ordered).2
  | idle differs kept further ih => exact ih (List.forall_mem_cons.mp ordered).2
  | planned differs clear further ih =>
      obtain ⟨-, orderedRest⟩ := List.forall_mem_cons.mp ordered
      exact List.pairwise_cons.mpr ⟨further.le_start orderedRest _ rfl, ih orderedRest⟩

/-- A correction that is left out changes nothing, or it starts in front of where the sweep had come
to, or it overlaps one that is planned before it. -/
theorem skipped_cases (sweeps : Sweeps document reached corrections swept)
    (ordered : ∀ correction ∈ corrections, correction.range.start ≤ correction.range.stop)
    (sorted : corrections.Pairwise (·.range.notAfter ·.range)) :
    ∀ skipped ∈ swept.skipped, swept.YieldsTo skipped ∨
      (∃ position ∈ reached, skipped.range.start < position) ∨
        skipped.replacementIn document = document.textIn skipped.range := by
  induction sweeps with
  | done => exact fun _ none => absurd none List.not_mem_nil
  | unchanged same further ih =>
      exact ih (List.forall_mem_cons.mp ordered).2 (List.pairwise_cons.mp sorted).2
  | overlapping differs across further ih =>
      intro skipped member
      rcases List.mem_cons.mp member with rfl | later
      · exact .inr (.inl ⟨_, rfl, across⟩)
      · exact ih (List.forall_mem_cons.mp ordered).2 (List.pairwise_cons.mp sorted).2 skipped later
  | idle differs kept further ih =>
      intro skipped member
      rcases List.mem_cons.mp member with rfl | later
      · exact .inr (.inr kept)
      · exact ih (List.forall_mem_cons.mp ordered).2 (List.pairwise_cons.mp sorted).2 skipped later
  | @planned reached correction rest swept differs clear further ih =>
      obtain ⟨-, orderedRest⟩ := List.forall_mem_cons.mp ordered
      obtain ⟨first, sortedRest⟩ := List.pairwise_cons.mp sorted
      intro skipped member
      have listed : skipped ∈ rest :=
        (List.mem_filter.mp (further.perm.subset (List.mem_append_right _ member))).1
      rcases ih orderedRest sortedRest skipped member with ⟨other, known, facts⟩ | cut | kept
      · exact .inl ⟨other, List.mem_cons_of_mem correction known, facts⟩
      · -- The sweep had come to the stop of the correction that was planned last.
        obtain ⟨_, ⟨rfl⟩, short⟩ := cut
        have before := first skipped listed
        have extent := orderedRest skipped listed
        refine .inl ⟨correction, List.mem_cons_self, before, ?_, short⟩
        rcases Range.notAfter_iff.mp before with earlier | ⟨same, stops⟩
        · exact earlier.trans_le extent
        · rw [same]
          exact short.trans_le stops
      · exact .inr (.inr kept)

end Sweeps

/-- The edits of a sweep over corrections that lie in a document are taken by it. -/
theorem Sweeps.accepted (sweeps : Sweeps document reached corrections swept)
    (ordered : ∀ correction ∈ corrections, correction.range.start ≤ correction.range.stop)
    (inside : ∀ correction ∈ corrections, correction.range.start.LiesIn document.text ∧
      correction.range.stop.LiesIn document.text) :
    ∃ text, replaceRanges? document.text swept.edits = some text := by
  have listed : ∀ planned ∈ swept.corrections, planned ∈ corrections := by
    intro planned member
    exact (List.mem_filter.mp (sweeps.perm.subset (List.mem_append_left _ member))).1
  refine ⟨_, replaceRanges?_eq_some_iff.mpr ⟨⟨?_, ?_⟩, rfl⟩⟩
  · intro edit member
    rw [sweeps.edits_eq] at member
    obtain ⟨planned, known, rfl⟩ := List.mem_map.mp member
    obtain ⟨start, stop⟩ := inside planned (listed planned known)
    exact ⟨start, stop, start.offsetAt_le stop (ordered planned (listed planned known))⟩
  · rw [sweeps.edits_eq, List.pairwise_map]
    refine (sweeps.pairwise ordered).imp ?_
    intro left right gap overlap
    exact not_lt_of_ge gap overlap.2

/-- Where no two changed corrections have one range, the plan does not depend on how they are
listed. -/
theorem ofCorrections_of_perm (document : Document) {corrections other : List Correction}
    (same : corrections.Perm other)
    (distinct : ((corrections.filter Correction.changed).map Correction.range).Nodup) :
    ofCorrections document other = ofCorrections document corrections := by
  rw [← ofCorrections_filter_changed document other,
    ← ofCorrections_filter_changed document corrections, ofCorrections, ofCorrections]
  congr 1
  symm
  apply stableSort_eq_of_perm
  · exact fun left middle right => Range.notAfter_trans left.range middle.range right.range
  · exact same.filter _
  · exact fun left _ right _ => Range.notAfter_total left.range right.range
  · intro left leftMember right rightMember before behind
    exact List.inj_on_of_nodup_map distinct leftMember rightMember
      (Range.notAfter_antisymm before behind)

/-- Whatever corrections are given for a document, as long as their ranges lie in it with their ends
in order: each one that differs from its draft is either planned or left out, and no other is. The
planned ones are listed with their edits in document order and do not overlap, so that the document
takes the edits. One that is left out overlaps a planned one before it, or changes nothing. Where no
two of them have one range, the plan does not depend on how they are listed. -/
theorem ofCorrections_partitions (document : Document) (corrections : List Correction)
    (inside : ∀ correction ∈ corrections, correction.range.start.LiesIn document.text ∧
      correction.range.stop.LiesIn document.text)
    (ordered : ∀ correction ∈ corrections, correction.range.start ≤ correction.range.stop) :
    let made := ofCorrections document corrections
    (made.corrections ++ made.skipped).Perm (corrections.filter Correction.changed) ∧
      made.edits = made.corrections.map (·.editIn document) ∧
      made.corrections.Pairwise (·.range.stop ≤ ·.range.start) ∧
      (document.readOnly = false → ∃ changed, document.replaceRanges? made.edits = some changed) ∧
      (∀ skipped ∈ made.skipped, made.YieldsTo skipped ∨
        skipped.replacementIn document = document.textIn skipped.range) ∧
      (((corrections.filter Correction.changed).map Correction.range).Nodup →
        ∀ other, corrections.Perm other → ofCorrections document other = made) := by
  intro made
  have permuted := stableSort_perm
    (fun left right : Correction => left.range.notAfter right.range) corrections
  have sweeps : Sweeps document none (stableSort _ corrections) made :=
    planOrdered_sweeps document none _
  have orderedSorted := fun correction member => ordered correction (permuted.mem_iff.mp member)
  have insideSorted := fun correction member => inside correction (permuted.mem_iff.mp member)
  refine ⟨sweeps.perm.trans (permuted.filter _), sweeps.edits_eq, sweeps.pairwise orderedSorted,
    ?_, ?_, ?_⟩
  · intro writable
    obtain ⟨text, accepted⟩ := sweeps.accepted orderedSorted insideSorted
    exact ⟨_, Document.replaceRanges?_eq_some_iff_writable.mpr ⟨writable, text, accepted, rfl⟩⟩
  · intro skipped member
    have sorted : (stableSort (fun left right : Correction => left.range.notAfter right.range)
        corrections).Pairwise (·.range.notAfter ·.range) :=
      pairwise_stableSort
        (fun left middle right => Range.notAfter_trans left.range middle.range right.range)
        fun left _ right _ => Range.notAfter_total left.range right.range
    rcases sweeps.skipped_cases orderedSorted sorted skipped member with yields | cut | kept
    · exact .inl yields
    · obtain ⟨_, none, -⟩ := cut
      cases none
    · exact .inr kept
  · exact fun distinct other same => ofCorrections_of_perm document same distinct

def plainLine : Document where
  identity := "note"
  languageId := Document.plainLanguage
  text := "abcdef"

/-- Corrections of one line that overlap and touch, insertions at both ends of it, one that changes
nothing, and two of one range that equal their drafts. -/
def tangledCorrections : List Correction :=
  [spelled 2 5 "cde" "CDE", spelled 0 3 "abc" "ABC", spelled 3 4 "d" "D", spelled 0 0 "" "+",
    spelled 4 5 "x" "e", spelled 4 6 "ef" "ef", spelled 4 6 "f" "f", spelled 6 6 "" "!"]
where
  spelled (start stop : Nat) (draft text : String) : Correction :=
    { text, draft, range := ⟨⟨0, start⟩, ⟨0, stop⟩⟩, confidence := 1 }

/-- Of the two that overlap the later one gives way, and the plan is the same for the reversed
list. -/
theorem ofCorrections_partitions_tangledCorrections :
    let made := ofCorrections plainLine tangledCorrections
    made.corrections.map Correction.text = ["+".toText, "ABC", "D", "!"] ∧
      made.skipped.map Correction.text = ["CDE".toText, "e"] ∧
      (∃ changed, plainLine.replaceRanges? made.edits = some changed) ∧
      ofCorrections plainLine tangledCorrections.reverse = made := by
  intro made
  have inside : ∀ correction ∈ tangledCorrections,
      correction.range.start.LiesIn plainLine.text ∧ correction.range.stop.LiesIn plainLine.text := by
    decide +kernel
  have ordered : ∀ correction ∈ tangledCorrections,
      correction.range.start ≤ correction.range.stop := by
    decide +kernel
  obtain ⟨-, -, -, accepted, -, listed⟩ :=
    ofCorrections_partitions plainLine tangledCorrections inside ordered
  refine ⟨by decide +kernel, by decide +kernel, accepted rfl, ?_⟩
  exact listed (by decide +kernel) _ (List.reverse_perm _).symm

end EditPlan

end CodeProse
