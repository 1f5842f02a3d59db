import CodeProse.Correction.Plan
import CodeProse.Proofs.Document.Batch

/-!
# Laws of inverse edits

The inverse edits name the stretches that the new texts of some edits take in the text behind them.
Replaced all at once they give back the text in front of the edits, whatever the new texts are and in
whatever order insertions at one offset have come out.
-/

set_option autoImplicit false

namespace CodeProse

section Following

variable {limit place : Nat} {edits : List OffsetEdit}

theorem FollowOn.bounds (follow : FollowOn limit place edits) :
    ∀ edit ∈ edits, (place : Int) ≤ edit.start ∧ edit.start ≤ edit.stop ∧ edit.stop ≤ limit := by
  induction edits generalizing place with
  | nil => exact fun _ impossible => absurd impossible List.not_mem_nil
  | cons edit rest ih =>
      obtain ⟨begins, ends, later⟩ := follow
      have reached := later.place_le
      intro other member
      rcases List.mem_cons.mp member with rfl | further
      · exact ⟨begins, ends, by omega⟩
      · obtain ⟨start, stop, within⟩ := ih later other further
        exact ⟨by omega, stop, within⟩

theorem FollowOn.separate (follow : FollowOn limit place edits) : Separate limit edits := by
  constructor
  · induction edits generalizing place with
    | nil => exact List.Pairwise.nil
    | cons edit rest ih =>
        obtain ⟨begins, ends, later⟩ := follow
        refine List.pairwise_cons.mpr ⟨fun next member => ?_, ih later⟩
        obtain ⟨reached, -, -⟩ := later.bounds next member
        omega
  · intro edit member
    obtain ⟨begins, ends, within⟩ := follow.bounds edit member
    exact ⟨by omega, ends, within⟩

theorem Separate.followOn (separate : Separate limit edits) : FollowOn limit 0 edits :=
  followOn_of_pairwise separate.apart separate.ends (Nat.zero_le limit)

theorem Separate.inDocumentOrder_eq (separate : Separate limit edits) :
    inDocumentOrder edits = edits := by
  have sorted : edits.Pairwise (·.notAfter · = true) := by
    refine separate.apart.imp_of_mem ?_
    intro left right leftMember rightMember gap
    obtain ⟨-, leftOrdered, -⟩ := separate.ends left leftMember
    obtain ⟨-, rightOrdered, -⟩ := separate.ends right rightMember
    rw [OffsetEdit.notAfter_iff]
    omega
  exact stableSort_of_pairwise sorted

theorem Separate.not_overlaps (separate : Separate limit edits) :
    edits.Pairwise fun left right => ¬ left.Overlaps right := by
  refine separate.apart.imp ?_
  intro left right gap overlap
  exact Int.not_lt.mpr gap overlap.2

end Following

/-- The inverses of ordered edits by offsets of the text behind them. -/
def invertedOffsets (text : Text) : Int → List OffsetEdit → List OffsetEdit
  | _, [] => []
  | shift, edit :: rest =>
      ⟨edit.start + shift, edit.start + shift + edit.replacement.length,
          slice text edit.start.toNat edit.stop.toNat⟩ ::
        invertedOffsets text
          (shift + edit.replacement.length - (edit.stop - edit.start)) rest

/-- An edit by offsets as an edit by positions. -/
def OffsetEdit.positioned (text : Text) (edit : OffsetEdit) : Edit :=
  ⟨⟨positionAt text edit.start, positionAt text edit.stop⟩, edit.replacement⟩

theorem invertOrdered_eq_map (text after : Text) (shift : Int) (edits : List OffsetEdit) :
    invertOrdered text after shift edits =
      (invertedOffsets text shift edits).map (OffsetEdit.positioned after) := by
  induction edits generalizing shift with
  | nil => rfl
  | cons edit rest ih =>
      rw [invertOrdered, invertedOffsets, List.map_cons, ih]
      rfl

/-- What stands from an offset on when each stretch of ordered edits holds some text as long as the
new one. -/
inductive Reshaped (text : Text) : Nat → List OffsetEdit → Text → Prop where
  | done {place : Nat} : Reshaped text place [] (text.drop place)
  | edit {place : Nat} {edit : OffsetEdit} {rest : List OffsetEdit} {piece further : Text}
      (size : piece.length = edit.replacement.length)
      (later : Reshaped text edit.stop.toNat rest further) :
      Reshaped text place (edit :: rest) (slice text place edit.start.toNat ++ piece ++ further)

namespace Reshaped

variable {text part : Text} {edits later : List OffsetEdit} {place : Nat}

/-- A text that is reshaped from an offset on is so from an earlier one on, with what stands between
the two in front. -/
theorem lower {edit : OffsetEdit} {lower : Nat} (reshaped : Reshaped text place (edit :: edits) part)
    (here : edit.start = place) :
    Reshaped text lower (edit :: edits) (slice text lower place ++ part) := by
  cases reshaped with
  | @edit _ _ _ piece further size later =>
      have whole : slice text lower place ++ (slice text place edit.start.toNat ++ piece ++ further) =
          slice text lower edit.start.toNat ++ piece ++ further := by
        rw [here, Int.toNat_natCast, slice_self, List.nil_append, List.append_assoc]
      rw [whole]
      exact .edit size later

/-- Insertions at one offset make room for a text as long as all of theirs. -/
theorem insertions {insertions : List OffsetEdit} {piece : Text}
    (inserts : ∀ edit ∈ insertions, edit.insertsAt place = true)
    (size : piece.length = (insertions.map (·.replacement)).flatten.length)
    (reshaped : Reshaped text place later part) :
    Reshaped text place (insertions ++ later) (piece ++ part) := by
  induction insertions generalizing piece with
  | nil =>
      rw [List.eq_nil_of_length_eq_zero size]
      exact reshaped
  | cons edit insertions ih =>
      obtain ⟨start, stop⟩ := OffsetEdit.insertsAt_iff.mp (inserts edit List.mem_cons_self)
      rw [List.map_cons, List.flatten_cons, List.length_append] at size
      have front : (piece.take edit.replacement.length).length = edit.replacement.length :=
        List.length_take_of_le (by omega)
      have back : (piece.drop edit.replacement.length).length =
          (insertions.map (·.replacement)).flatten.length := by
        rw [List.length_drop]
        omega
      have cut : piece ++ part = slice text place edit.start.toNat ++
          piece.take edit.replacement.length ++ (piece.drop edit.replacement.length ++ part) := by
        rw [start, Int.toNat_natCast, slice_self, List.nil_append, ← List.append_assoc,
          List.take_append_drop]
      rw [cut]
      apply Reshaped.edit front
      rw [stop, Int.toNat_natCast]
      exact ih (fun next member => inserts next (List.mem_cons_of_mem edit member)) back

end Reshaped

section BackToFront

variable {text : Text} {edits insertions rewriting later : List OffsetEdit} {place : Nat}

/-- Edits at one offset in front of others: the texts inserted there, and a stretch rewritten there if
there is one, make room for a text as long as all of theirs. -/
private theorem exists_reshaped_append (within : place ≤ text.length)
    (inserts : ∀ edit ∈ insertions, edit.insertsAt place = true)
    (rewrites : rewriting = [] ∨ ∃ edit, rewriting = [edit] ∧ edit.rewritesAt place = true)
    (behind : ∀ edit ∈ later, (place : Int) < edit.start)
    (separate : Separate text.length (insertions ++ (rewriting ++ later)))
    (rest : ∀ reached ≤ text.length, (∀ edit ∈ later, (reached : Int) ≤ edit.start) →
      ∃ part, applyEdits text later = text.take reached ++ part ∧ Reshaped text reached later part) :
    ∃ part, applyEdits text (insertions ++ (rewriting ++ later)) = text.take place ++ part ∧
      Reshaped text place (insertions ++ (rewriting ++ later)) part := by
  have starts : ∀ edit ∈ insertions, edit.start = place := fun edit member =>
    (OffsetEdit.insertsAt_iff.mp (inserts edit member)).1
  have turned := (insertions.map (·.replacement)).reverse_perm.flatten.length_eq
  rcases rewrites with rfl | ⟨edit, rfl, rewrites⟩
  · obtain ⟨part, applied, reshaped⟩ := rest place within fun edit member => (behind edit member).le
    refine ⟨(insertions.map (·.replacement)).reverse.flatten ++ part, ?_,
      Reshaped.insertions inserts turned reshaped⟩
    rw [List.nil_append, applyEdits_append starts behind, applied,
      foldl_apply_insertions within inserts]
  · obtain ⟨start, extent⟩ := OffsetEdit.rewritesAt_iff.mp rewrites
    obtain ⟨-, -, reached⟩ := separate.ends edit (by simp)
    obtain ⟨stop, stopEq⟩ := Int.eq_ofNat_of_zero_le (show 0 ≤ edit.stop by omega)
    have gaps : ∀ next ∈ later, edit.stop ≤ next.start := fun next member =>
      List.rel_of_pairwise_cons (List.pairwise_append.mp separate.apart).2.1 member
    obtain ⟨part, applied, reshaped⟩ := rest stop (by omega) fun next member => by
      have gap := gaps next member
      omega
    have carriedOut :=
      applyEdits_overwritten inserts start stopEq (by omega) (by omega) behind applied
    rw [List.append_assoc insertions] at carriedOut
    -- What stands there is cut where the room of the insertions ends and that of the new text starts.
    have size : (overwritten text (insertions.map (·.replacement)) edit).length =
        (insertions.map (·.replacement)).flatten.length + edit.replacement.length :=
      length_overwritten reached
    generalize overwritten text (insertions.map (·.replacement)) edit = piece at carriedOut size
    generalize roomEq : (insertions.map (·.replacement)).flatten.length = room at size
    have rewritten : Reshaped text place ([edit] ++ later) (piece.drop room ++ part) := by
      have cut : piece.drop room ++ part =
          slice text place edit.start.toNat ++ piece.drop room ++ part := by
        rw [start, Int.toNat_natCast, slice_self, List.nil_append]
      rw [cut]
      apply Reshaped.edit
      · rw [List.length_drop]
        omega
      · rw [stopEq, Int.toNat_natCast]
        exact reshaped
    refine ⟨piece ++ part, carriedOut, ?_⟩
    rw [← List.take_append_drop room piece, List.append_assoc]
    apply Reshaped.insertions inserts
    · rw [List.length_take, roomEq]
      omega
    · exact rewritten

/-- Separate edits, carried out from the back to the front, give each of their new texts the room that
it needs. -/
theorem exists_reshaped (separate : Separate text.length edits) (within : place ≤ text.length)
    (starts : ∀ edit ∈ edits, (place : Int) ≤ edit.start) :
    ∃ part, applyEdits text edits = text.take place ++ part ∧ Reshaped text place edits part := by
  -- By induction on the number of edits: those with the first start are carried out last.
  induction size : edits.length using Nat.strong_induction_on generalizing edits place with
  | h count ih =>
      cases edits with
      | nil =>
          refine ⟨text.drop place, ?_, .done⟩
          rw [List.take_append_drop]
          rfl
      | cons edit rest =>
          have begins := starts edit List.mem_cons_self
          obtain ⟨first, further⟩ := List.pairwise_cons.mp separate.apart
          obtain ⟨nonneg, ordered, reached⟩ := separate.ends edit List.mem_cons_self
          obtain ⟨start, startEq⟩ := Int.eq_ofNat_of_zero_le nonneg
          have startsAll : ∀ next ∈ edit :: rest, (start : Int) ≤ next.start := by
            intro next member
            rcases List.mem_cons.mp member with rfl | later
            · omega
            · have gap := first next later
              omega
          obtain ⟨insertions, rewriting, later, shape, inserts, rewrites, behind⟩ :=
            separate.exists_split startsAll
          have shorter : later.length < count := by
            have whole := congrArg List.length shape
            simp only [List.length_append] at whole
            rcases Nat.lt_or_eq_of_le (show later.length ≤ (edit :: rest).length by omega)
              with less | same
            · omega
            · have none : insertions = [] ∧ rewriting = [] :=
                ⟨List.eq_nil_of_length_eq_zero (by omega), List.eq_nil_of_length_eq_zero (by omega)⟩
              rw [none.1, none.2, List.nil_append, List.nil_append] at shape
              have beyond := behind edit (shape ▸ List.mem_cons_self)
              omega
          have separateLater : Separate text.length later := (shape ▸ separate).sublist <|
            (List.sublist_append_right _ later).trans (List.sublist_append_right _ _)
          obtain ⟨part, applied, reshaped⟩ := exists_reshaped_append (by omega) inserts rewrites
            behind (shape ▸ separate) fun reached inside beyond =>
              ih later.length shorter separateLater inside beyond rfl
          rw [← shape] at applied reshaped
          refine ⟨slice text place start ++ part, ?_, reshaped.lower startEq⟩
          rw [applied, ← List.append_assoc, take_append_slice text (by omega)]

end BackToFront

/-- In a text that some edits have reshaped the inverse edits follow on, and replacing their stretches
gives back the text from the first edit on. -/
theorem replacedFrom_invertedOffsets {text front after part : Text} {place : Nat} {shift : Int}
    {edits : List OffsetEdit} (follow : FollowOn text.length place edits)
    (moved : (front.length : Int) = place + shift) (reshaped : Reshaped text place edits part)
    (composed : after = front ++ part) :
    FollowOn after.length front.length (invertedOffsets text shift edits) ∧
      replacedFrom after front.length (invertedOffsets text shift edits) = text.drop place := by
  induction reshaped generalizing front shift with
  | done =>
      rw [composed]
      exact ⟨by simp [invertedOffsets, FollowOn],
        by simp [invertedOffsets, replacedFrom]⟩
  | @edit place edit rest piece further size reshapedLater ih =>
      obtain ⟨begins, ends, later⟩ := follow
      obtain ⟨start, startEq⟩ := Int.eq_ofNat_of_zero_le (show 0 ≤ edit.start by omega)
      obtain ⟨stop, stopEq⟩ := Int.eq_ofNat_of_zero_le (show 0 ≤ edit.stop by omega)
      rw [startEq, Int.toNat_natCast] at composed
      rw [stopEq, Int.toNat_natCast] at later reshapedLater ih
      have inside := later.place_le
      have placeStart : place ≤ start := by omega
      have startStop : start ≤ stop := by omega
      have kept : (slice text place start).length = start - place :=
        length_slice text place start (by omega)
      -- everything up to the end of the first piece, the front of the remaining edits
      have grown : ((front ++ slice text place start ++ piece).length : Int) =
          stop + (shift + edit.replacement.length - (edit.stop - edit.start)) := by
        simp only [List.length_append, kept, size]
        omega
      have recomposed : after = (front ++ slice text place start ++ piece) ++ further := by
        rw [composed]
        simp only [List.append_assoc]
      obtain ⟨followRest, restored⟩ := ih later grown recomposed
      have newStart : edit.start + shift = ((front ++ slice text place start).length : Nat) := by
        simp only [List.length_append, kept]
        omega
      have newStop : edit.start + shift + edit.replacement.length =
          ((front ++ slice text place start ++ piece).length : Nat) := by
        rw [newStart, ← size]
        simp only [List.length_append, Int.natCast_add]
      have unchanged : slice after front.length (front ++ slice text place start).length =
          slice text place start := by
        rw [recomposed, slice, List.append_assoc (front ++ slice text place start),
          List.take_left, List.drop_left]
      refine ⟨⟨?_, ?_, ?_⟩, ?_⟩
      · show (front.length : Int) ≤ edit.start + shift
        omega
      · show edit.start + shift ≤ edit.start + shift + edit.replacement.length
        omega
      · show FollowOn after.length (edit.start + shift + edit.replacement.length).toNat _
        rw [newStop, Int.toNat_natCast]
        exact followRest
      · show slice after front.length (edit.start + shift).toNat ++
            slice text edit.start.toNat edit.stop.toNat ++
            replacedFrom after (edit.start + shift + edit.replacement.length).toNat _ = _
        rw [newStop, Int.toNat_natCast, restored, newStart, Int.toNat_natCast, unchanged, startEq,
          stopEq, Int.toNat_natCast, Int.toNat_natCast, List.append_assoc,
          slice_append_drop text startStop, slice_append_drop text placeStart]

/-- In the text behind separate edits the inverse edits follow on, and replacing their stretches all at
once gives back the text in front of the edits. -/
theorem replacedFrom_invertedOffsets_applyEdits {text : Text} {edits : List OffsetEdit}
    (separate : Separate text.length edits) :
    FollowOn (applyEdits text edits).length 0 (invertedOffsets text 0 edits) ∧
      replacedFrom (applyEdits text edits) 0 (invertedOffsets text 0 edits) = text := by
  obtain ⟨part, applied, reshaped⟩ := exists_reshaped separate (Nat.zero_le _)
    fun edit member => (separate.ends edit member).1
  have unmoved : ((([] : Text).length : Nat) : Int) = (0 : Nat) + 0 := rfl
  exact replacedFrom_invertedOffsets separate.followOn unmoved reshaped applied

section Positioned

variable {text : Text} {edits : List OffsetEdit}

theorem clamp_positioned {edit : OffsetEdit} (nonneg : 0 ≤ edit.start)
    (ordered : edit.start ≤ edit.stop) (within : edit.stop ≤ text.length) :
    (edit.positioned text).clamp text = edit ∧ (edit.positioned text).Fits text := by
  obtain ⟨start, stop, replacement⟩ := edit
  obtain ⟨start, rfl⟩ := Int.eq_ofNat_of_zero_le nonneg
  obtain ⟨stop, rfl⟩ := Int.eq_ofNat_of_zero_le (Int.le_trans nonneg ordered)
  have stopInside : stop ≤ text.length := Int.ofNat_le.mp within
  have startInside : start ≤ text.length := Nat.le_trans (Int.ofNat_le.mp ordered) stopInside
  refine ⟨?_, positionAt_liesIn startInside, positionAt_liesIn stopInside, ?_⟩
  · simp only [Edit.clamp, OffsetEdit.positioned, offsetAt_positionAt startInside,
      offsetAt_positionAt stopInside]
  · simp only [OffsetEdit.positioned, offsetAt_positionAt startInside,
      offsetAt_positionAt stopInside]
    exact Int.ofNat_le.mp ordered

/-- Edits by positions that were computed from the offsets of separate edits are taken, and carry
those out. -/
theorem replaceRanges?_positioned (separate : Separate text.length edits) :
    replaceRanges? text (edits.map (OffsetEdit.positioned text)) = some (applyEdits text edits) := by
  have settled : ∀ edit ∈ edits, (edit.positioned text).clamp text = edit ∧
      (edit.positioned text).Fits text := by
    intro edit member
    obtain ⟨nonneg, ordered, within⟩ := separate.ends edit member
    exact clamp_positioned nonneg ordered within
  have same : (edits.map (OffsetEdit.positioned text)).map (Edit.clamp text) = edits := by
    rw [List.map_map]
    exact (List.map_congr_left fun edit member => (settled edit member).1).trans (List.map_id _)
  have fit : ∀ edit ∈ edits.map (OffsetEdit.positioned text), edit.Fits text := by
    intro edit member
    obtain ⟨offsets, known, rfl⟩ := List.mem_map.mp member
    exact (settled offsets known).2
  rw [replaceRanges?_eq_some_iff, ← pairwise_overlaps_clamp fit, same, separate.inDocumentOrder_eq]
  exact ⟨⟨fit, separate.not_overlaps⟩, rfl⟩

end Positioned

end CodeProse
