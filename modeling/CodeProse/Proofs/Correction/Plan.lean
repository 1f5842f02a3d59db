import CodeProse.Correction.Plan
import CodeProse.Proofs.Document.Edit
import CodeProse.Proofs.Text.Search

/-!
# Laws of edit plans

Of corrections whose ranges are spaced none is left out for overlapping another: the plan has
an edit for each one that makes a difference, in document order.
-/

set_option autoImplicit false

namespace CodeProse

theorem buildReplacement_self {draft corrected : Text} (nonempty : draft ≠ []) :
    buildReplacement draft draft corrected = corrected := by
  by_cases same : draft = corrected
  · rw [buildReplacement, if_pos same, same]
  · have whole : Text.contains draft draft = true :=
      Text.contains_iff_isInfix.mpr (List.infix_refl draft)
    rw [buildReplacement, if_neg same, if_pos (by simp [nonempty, whole])]
    exact Text.replaceFirst_self

namespace Correction

/-- What a correction makes of the source of its range. -/
def replacementIn (document : Document) (correction : Correction) : Text :=
  buildReplacement (document.textIn correction.range) correction.draft correction.text

/-- Whether a correction makes a difference to its range: it differs from its draft, and its
replacement from its source. -/
def makesDifference (document : Document) (correction : Correction) : Bool :=
  correction.changed &&
    decide (correction.replacementIn document ≠ document.textIn correction.range)

/-- The edit that carries out a correction. -/
def editIn (document : Document) (correction : Correction) : Edit :=
  ⟨correction.range, correction.replacementIn document⟩

theorem replacementIn_of_idle {document : Document} {correction : Correction}
    (idle : correction.makesDifference document = false) :
    correction.replacementIn document = document.textIn correction.range := by
  rcases Bool.and_eq_false_iff.mp idle with unchanged | same
  · have kept : correction.draft = correction.text := (bne_eq_false_iff_eq.mp unchanged).symm
    rw [replacementIn, buildReplacement, if_pos kept]
  · exact Decidable.of_not_not (of_decide_eq_false same)

end Correction

namespace EditPlan

variable (document : Document) {corrections : List Correction}

/-- Ordered corrections with gaps between their ranges are planned one by one. -/
theorem planOrdered_of_apart {reached : Option Position}
    (apart : Apart (corrections.map Correction.range))
    (beyond : ∀ position ∈ reached, ∀ correction ∈ corrections,
      position ≤ correction.range.start) :
    planOrdered document reached corrections =
      { edits := (corrections.filter (·.makesDifference document)).map (·.editIn document)
        corrections := corrections.filter (·.makesDifference document)
        skipped := corrections.filter fun correction =>
          correction.changed && !correction.makesDifference document } := by
  induction corrections generalizing reached with
  | nil => rfl
  | cons correction rest ih =>
      rw [List.map_cons, Apart, List.pairwise_cons] at apart
      obtain ⟨gap, further⟩ := apart
      have beyondRest : ∀ position ∈ reached, ∀ later ∈ rest, position ≤ later.range.start :=
        fun position known later member => beyond position known later (List.mem_cons_of_mem _ member)
      cases changed : correction.changed with
      | false =>
          have idle : correction.makesDifference document = false := by
            simp [Correction.makesDifference, changed]
          simp [planOrdered, changed, idle, ih further beyondRest]
      | true =>
          have clear : (reached.any fun position => correction.range.start < position) = false := by
            cases reached with
            | none => rfl
            | some position =>
                simpa using beyond position rfl correction List.mem_cons_self
          by_cases same : correction.replacementIn document = document.textIn correction.range
          · have idle : correction.makesDifference document = false := by
              simp [Correction.makesDifference, same]
            have source : buildReplacement (document.textIn correction.range) correction.draft
                correction.text = document.textIn correction.range := same
            simp [planOrdered, changed, clear, source, idle, skip, ih further beyondRest]
          · have effective : correction.makesDifference document = true := by
              simp [Correction.makesDifference, changed, same]
            have source : buildReplacement (document.textIn correction.range) correction.draft
                correction.text ≠ document.textIn correction.range := same
            have beyondStop : ∀ position ∈ some correction.range.stop, ∀ later ∈ rest,
                position ≤ later.range.start := by
              rintro position ⟨rfl⟩ later member
              exact (gap later.range (List.mem_map_of_mem member)).le
            simp only [planOrdered, changed, clear, source, ih further beyondStop,
              List.filter_cons, effective]
            rfl

/-- The corrections in document order that make a difference to a document. -/
def effective (document : Document) (corrections : List Correction) : List Correction :=
  (stableSort (fun left right => left.range.notAfter right.range) corrections).filter
    (·.makesDifference document)

/-- The corrections in document order that differ from their drafts and yet make no difference to a
document. -/
def idle (document : Document) (corrections : List Correction) : List Correction :=
  (stableSort (fun left right => left.range.notAfter right.range) corrections).filter
    fun correction => correction.changed && !correction.makesDifference document

/-- The plan of spaced corrections: an edit for each correction that makes a difference, and only
idle ones left out. -/
theorem ofCorrections_eq_of_spaced (spaced : Spaced (corrections.map Correction.range)) :
    ofCorrections document corrections =
      { edits := (effective document corrections).map (·.editIn document)
        corrections := effective document corrections
        skipped := idle document corrections } := by
  have apart := spaced.apart
  rw [← map_stableSort] at apart
  exact planOrdered_of_apart document apart fun _ impossible => by cases impossible

theorem ofCorrections_of_spaced (spaced : Spaced (corrections.map Correction.range)) :
    (ofCorrections document corrections).corrections = effective document corrections ∧
      (ofCorrections document corrections).edits =
        (effective document corrections).map (·.editIn document) := by
  rw [ofCorrections_eq_of_spaced document spaced]
  exact ⟨rfl, rfl⟩

theorem apart_effective (spaced : Spaced (corrections.map Correction.range)) :
    Apart (((effective document corrections).map (·.editIn document)).map Edit.range) := by
  have apart := spaced.apart
  rw [← map_stableSort] at apart
  rw [List.map_map]
  exact apart.sublist ((List.filter_sublist).map _)

end EditPlan

end CodeProse
