import CodeProse.Proofs.Document.InverseEdits

/-!
# Restoring a text

The inverse edits of a batch are always taken by the text behind it, but they are carried out from the
back to the front like any others. Where a stretch was removed without a new text, its old text is
inserted again, and an insertion may come out in front of another one or be cut by a stretch that is
rewritten at the same offset. The batch is undone exactly if that does no harm.
-/

set_option autoImplicit false

namespace CodeProse

/-- What stands in a text with all edits done at once where an offset was, the texts inserted there as
they are listed. -/
def listedAt (text : Text) (edits : List OffsetEdit) (place : Nat) : Text :=
  replacedAt text edits (insertedAt edits place) place

section Listed

variable {text : Text} {edits rest : List OffsetEdit} {edit : OffsetEdit} {place : Nat}

theorem listedAt_of_behind (behind : ∀ edit ∈ edits, (place : Int) < edit.start) :
    listedAt text edits place = text[place]?.toList := by
  have noInsertion : edits.filter (·.insertsAt place) = [] := by
    refine List.filter_eq_nil_iff.mpr fun edit member => ?_
    have after := behind edit member
    rw [OffsetEdit.insertsAt_iff]
    omega
  have noRewriting : edits.filter (·.rewritesAt place) = [] := by
    refine List.filter_eq_nil_iff.mpr fun edit member => ?_
    have after := behind edit member
    rw [OffsetEdit.rewritesAt_iff]
    omega
  have noCover : edits.any (·.covers place) = false := by
    refine List.any_eq_false.mpr fun edit member => ?_
    have after := behind edit member
    rw [OffsetEdit.covers_iff]
    omega
  simp [listedAt, replacedAt, insertedAt, rewrittenAt, keptAt, noInsertion, noRewriting, noCover]

theorem listedAt_cons_of_passed (before : edit.start < place) (passed : edit.stop ≤ place) :
    listedAt text (edit :: rest) place = listedAt text rest place := by
  have inserts : edit.insertsAt place = false := by simp [OffsetEdit.insertsAt]; omega
  have rewrites : edit.rewritesAt place = false := by simp [OffsetEdit.rewritesAt]; omega
  have covers : edit.covers place = false := by simp [OffsetEdit.covers]; omega
  simp [listedAt, replacedAt, insertedAt, rewrittenAt, keptAt, inserts, rewrites, covers]

theorem listedAt_cons_of_insertsAt (inserts : edit.insertsAt place = true) :
    listedAt text (edit :: rest) place = edit.replacement ++ listedAt text rest place := by
  obtain ⟨start, stop⟩ := OffsetEdit.insertsAt_iff.mp inserts
  have rewrites : edit.rewritesAt place = false := by simp [OffsetEdit.rewritesAt, stop]
  have covers : edit.covers place = false := by simp [OffsetEdit.covers, stop]
  simp [listedAt, replacedAt, insertedAt, rewrittenAt, keptAt, inserts, rewrites, covers]

theorem listedAt_cons_of_covers (covers : edit.covers place = true)
    (behind : ∀ next ∈ rest, (place : Int) < next.start) :
    listedAt text (edit :: rest) place = if edit.start = place then edit.replacement else [] := by
  obtain ⟨before, beyond⟩ := OffsetEdit.covers_iff.mp covers
  have inserts : edit.insertsAt place = false := by simp [OffsetEdit.insertsAt]; omega
  have noInsertion : rest.filter (·.insertsAt place) = [] := by
    refine List.filter_eq_nil_iff.mpr fun next member => ?_
    have after := behind next member
    rw [OffsetEdit.insertsAt_iff]
    omega
  have noRewriting : rest.filter (·.rewritesAt place) = [] := by
    refine List.filter_eq_nil_iff.mpr fun next member => ?_
    have after := behind next member
    rw [OffsetEdit.rewritesAt_iff]
    omega
  by_cases here : edit.start = place
  · have rewrites : edit.rewritesAt place = true := OffsetEdit.rewritesAt_iff.mpr ⟨here, beyond⟩
    simp [listedAt, replacedAt, insertedAt, rewrittenAt, keptAt, inserts, rewrites, covers,
      noInsertion, noRewriting, here]
  · have rewrites : edit.rewritesAt place = false := by simp [OffsetEdit.rewritesAt, here]
    simp [listedAt, replacedAt, insertedAt, rewrittenAt, keptAt, inserts, rewrites, covers,
      noInsertion, noRewriting, here]

theorem flatMap_listedAt_of_behind {count : Nat}
    (behind : ∀ edit ∈ edits, ((place + count : Nat) : Int) ≤ edit.start) :
    (List.range' place count).flatMap (listedAt text edits) = slice text place (place + count) := by
  refine flatMap_range'_eq_slice fun offset reached within => listedAt_of_behind fun edit known => ?_
  have after := behind edit known
  omega

theorem flatMap_listedAt_cons {width further : Nat} (start : edit.start = place)
    (stop : edit.stop = ((place + width : Nat) : Int))
    (behind : ∀ next ∈ rest, edit.stop ≤ next.start) :
    (List.range' place (width + (further + 1))).flatMap (listedAt text (edit :: rest)) =
      edit.replacement ++ (List.range' (place + width) (further + 1)).flatMap (listedAt text rest) := by
  cases width with
  | zero =>
      have inserts : edit.insertsAt place = true :=
        OffsetEdit.insertsAt_iff.mpr ⟨start, by simpa using stop⟩
      have later : (List.range' (place + 1) further).flatMap (listedAt text (edit :: rest)) =
          (List.range' (place + 1) further).flatMap (listedAt text rest) := by
        refine List.flatMap_congr fun offset member => ?_
        have reached := (List.mem_range'_1.mp member).1
        exact listedAt_cons_of_passed (by omega) (by omega)
      simp only [Nat.zero_add, Nat.add_zero, List.range'_succ, List.flatMap_cons]
      rw [later, listedAt_cons_of_insertsAt inserts, List.append_assoc]
  | succ width =>
      have inside : (List.range' (place + 1) width).flatMap (listedAt text (edit :: rest)) = [] := by
        refine List.flatMap_eq_nil_iff.mpr fun offset member => ?_
        obtain ⟨reached, within⟩ := List.mem_range'_1.mp member
        have covers : edit.covers offset = true := OffsetEdit.covers_iff.mpr ⟨by omega, by omega⟩
        rw [listedAt_cons_of_covers covers, if_neg (by omega)]
        intro next known
        have gap := behind next known
        omega
      have here : listedAt text (edit :: rest) place = edit.replacement := by
        have covers : edit.covers place = true := OffsetEdit.covers_iff.mpr ⟨by omega, by omega⟩
        rw [listedAt_cons_of_covers covers, if_pos start]
        intro next known
        have gap := behind next known
        omega
      have later : (List.range' (place + (width + 1)) (further + 1)).flatMap
          (listedAt text (edit :: rest)) =
            (List.range' (place + (width + 1)) (further + 1)).flatMap (listedAt text rest) := by
        refine List.flatMap_congr fun offset member => ?_
        have reached := (List.mem_range'_1.mp member).1
        exact listedAt_cons_of_passed (by omega) (by omega)
      rw [← List.range'_append_1, List.flatMap_append, later, List.range'_succ, List.flatMap_cons,
        here, inside, List.append_nil]

/-- Replacing the stretches of separate edits all at once, offset by offset. -/
theorem replacedFrom_eq_listed {count : Nat} (follow : FollowOn text.length place edits)
    (reach : place + count = text.length + 1) :
    replacedFrom text place edits = (List.range' place count).flatMap (listedAt text edits) := by
  induction edits generalizing place count with
  | nil =>
      rw [flatMap_listedAt_of_behind fun edit none => absurd none List.not_mem_nil, reach, slice,
        List.take_of_length_le (Nat.le_succ _)]
      rfl
  | cons edit rest ih =>
      have separate := follow.separate.apart
      obtain ⟨begins, ends, later⟩ := follow
      have gaps : ∀ next ∈ rest, edit.stop ≤ next.start := fun next member =>
        List.rel_of_pairwise_cons separate member
      have inside := later.place_le
      obtain ⟨before, startEq⟩ : ∃ before : Nat, edit.start = ((place + before : Nat) : Int) :=
        ⟨(edit.start - place).toNat, by omega⟩
      obtain ⟨width, stopEq⟩ : ∃ width : Nat, edit.stop = ((place + before + width : Nat) : Int) :=
        ⟨(edit.stop - edit.start).toNat, by omega⟩
      obtain ⟨further, counted⟩ : ∃ further, count = before + (width + (further + 1)) :=
        ⟨count - before - width - 1, by omega⟩
      have front : ∀ next ∈ edit :: rest, ((place + before : Nat) : Int) ≤ next.start := by
        intro next member
        rcases List.mem_cons.mp member with rfl | known
        · omega
        · have gap := gaps next known
          omega
      rw [stopEq, Int.toNat_natCast] at later
      rw [counted, ← List.range'_append_1, List.flatMap_append, flatMap_listedAt_of_behind front,
        flatMap_listedAt_cons startEq stopEq gaps, ← ih later (by omega), replacedFrom, startEq,
        stopEq, Int.toNat_natCast, Int.toNat_natCast, List.append_assoc]

end Listed

/-- Separate edits that come out as they are listed: where no stretch is rewritten, the texts inserted
at an offset read the same in reverse order, and a stretch that is rewritten keeps the texts inserted at
its start, in their order. -/
structure ComesOutListed (text : Text) (edits : List OffsetEdit) : Prop where
  insertions : ∀ place, (∀ edit ∈ edits, ¬ edit.rewritesAt place = true) →
    (insertedAt edits place).reverse.flatten = (insertedAt edits place).flatten
  stretches : ∀ edit ∈ edits, edit.start < edit.stop →
    overwritten text (insertedAt edits edit.start.toNat) edit =
      (insertedAt edits edit.start.toNat).flatten ++ edit.replacement

section ComesOut

variable {text : Text} {edits : List OffsetEdit}

theorem insertedAt_of_beyond (separate : Separate text.length edits) {place : Nat}
    (beyond : text.length < place) : insertedAt edits place = [] := by
  rw [insertedAt, List.map_eq_nil_iff, List.filter_eq_nil_iff]
  intro edit member
  obtain ⟨-, -, within⟩ := separate.ends edit member
  rw [OffsetEdit.insertsAt_iff]
  omega

theorem carriedOutAt_eq_listedAt_iff (separate : Separate text.length edits) :
    (∀ place ∈ List.range' 0 (text.length + 1),
        carriedOutAt text edits place = listedAt text edits place) ↔
      ComesOutListed text edits := by
  have apart := separate.not_overlaps
  have sorted := separate.inDocumentOrder_eq
  constructor
  · intro pieces
    constructor
    · intro place none
      rcases Nat.lt_or_ge text.length place with beyond | inside
      · rw [insertedAt_of_beyond separate beyond]
        rfl
      have here := pieces place (List.mem_range'_1.mpr ⟨Nat.zero_le _, by omega⟩)
      have turned : carriedOutAt text (inDocumentOrder edits) place =
          replacedAt text edits (insertedAt edits place).reverse place :=
        carriedOutAt_of_forall_not none
      rw [sorted, here, listedAt, replacedAt, replacedAt, List.append_cancel_right_eq,
        List.append_cancel_right_eq] at turned
      exact turned.symm
    · intro edit member extent
      obtain ⟨nonneg, -, within⟩ := separate.ends edit member
      have rewrites : edit.rewritesAt edit.start.toNat = true :=
        OffsetEdit.rewritesAt_iff.mpr ⟨by omega, by omega⟩
      have here := pieces edit.start.toNat (List.mem_range'_1.mpr ⟨Nat.zero_le _, by omega⟩)
      have written : carriedOutAt text (inDocumentOrder edits) edit.start.toNat =
          overwritten text (insertedAt edits edit.start.toNat) edit :=
        carriedOutAt_of_rewritesAt apart member rewrites
      rw [← written, sorted, here, listedAt, replacedAt_of_rewritesAt apart member rewrites]
  · intro listed place _
    by_cases stretch : ∃ edit ∈ edits, edit.rewritesAt place = true
    · obtain ⟨edit, member, rewrites⟩ := stretch
      obtain ⟨start, extent⟩ := OffsetEdit.rewritesAt_iff.mp rewrites
      have kept := listed.stretches edit member (by omega)
      have written : carriedOutAt text (inDocumentOrder edits) place =
          overwritten text (insertedAt edits place) edit :=
        carriedOutAt_of_rewritesAt apart member rewrites
      rw [start, Int.toNat_natCast] at kept
      rw [← sorted, written, kept, sorted, listedAt, replacedAt_of_rewritesAt apart member rewrites]
    · have none : ∀ edit ∈ edits, ¬ edit.rewritesAt place = true :=
        fun edit member rewrites => stretch ⟨edit, member, rewrites⟩
      have turned : carriedOutAt text (inDocumentOrder edits) place =
          replacedAt text edits (insertedAt edits place).reverse place :=
        carriedOutAt_of_forall_not none
      rw [sorted] at turned
      rw [turned, listedAt, replacedAt, replacedAt, listed.insertions place none]

/-- Separate edits, carried out from the back to the front, replace their stretches all at once exactly
if they come out as they are listed. -/
theorem applyEdits_eq_replacedFrom_iff (separate : Separate text.length edits) :
    applyEdits text edits = replacedFrom text 0 edits ↔ ComesOutListed text edits := by
  have within : ∀ edit ∈ edits, edit.stop ≤ text.length := fun edit member =>
    (separate.ends edit member).2.2
  have sizes : ∀ place ∈ List.range' 0 (text.length + 1),
      (carriedOutAt text edits place).length ≤ (listedAt text edits place).length := by
    intro place _
    have same : (carriedOutAt text (inDocumentOrder edits) place).length =
        (listedAt text edits place).length :=
      length_carriedOutAt separate.not_overlaps within (.refl _)
    rw [separate.inDocumentOrder_eq] at same
    exact same.le
  have carriedOut : applyEdits text edits =
      (List.range' 0 (text.length + 1)).flatMap (carriedOutAt text edits) :=
    applyEdits_eq_carriedOut separate (fun edit member => (separate.ends edit member).1)
      (Nat.zero_add _)
  rw [carriedOut, replacedFrom_eq_listed separate.followOn (Nat.zero_add _),
    ← carriedOutAt_eq_listedAt_iff separate]
  constructor
  · exact fun same => forall_eq_of_flatMap_eq sizes same
  · exact fun pieces => List.flatMap_congr pieces

end ComesOut

section Gaps

variable {text : Text} {edits : List OffsetEdit}

theorem lt_start_of_mem_invertedOffsets {bound shift : Int}
    (apart : edits.Pairwise (·.stop ≤ ·.start)) (beyond : ∀ edit ∈ edits, bound < edit.start) :
    ∀ inverse ∈ invertedOffsets text shift edits, bound + shift < inverse.start := by
  induction edits generalizing bound shift with
  | nil => exact fun _ impossible => absurd impossible List.not_mem_nil
  | cons edit rest ih =>
      obtain ⟨first, further⟩ := List.pairwise_cons.mp apart
      have here := beyond edit List.mem_cons_self
      intro inverse member
      rcases List.mem_cons.mp member with rfl | later
      · show bound + shift < edit.start + shift
        omega
      · have gaps : ∀ next ∈ rest, edit.stop - 1 < next.start :=
          fun next known => Int.sub_one_lt_of_le (first next known)
        have behind := ih further gaps inverse later
        omega

/-- An old text that is inserted again has a gap behind it if the stretch that was removed has one. -/
theorem pairwise_invertedOffsets {shift : Int} (apart : edits.Pairwise (·.stop ≤ ·.start))
    (gaps : edits.Pairwise fun removing next =>
      removing.start < removing.stop → removing.replacement = [] → removing.stop < next.start) :
    (invertedOffsets text shift edits).Pairwise fun inserting next =>
      inserting.start = inserting.stop → inserting.replacement ≠ [] →
        inserting.stop < next.start := by
  induction edits generalizing shift with
  | nil => exact List.Pairwise.nil
  | cons edit rest ih =>
      obtain ⟨-, apartRest⟩ := List.pairwise_cons.mp apart
      obtain ⟨first, further⟩ := List.pairwise_cons.mp gaps
      refine List.pairwise_cons.mpr ⟨?_, ih apartRest further⟩
      intro inverse member empty solid
      have none : edit.replacement = [] := by
        apply List.eq_nil_of_length_eq_zero
        have room : edit.start + shift = edit.start + shift + edit.replacement.length := empty
        omega
      have extent : edit.start < edit.stop := by
        apply Int.not_le.mp
        intro short
        apply solid
        rw [slice, List.drop_eq_nil_of_le]
        rw [List.length_take]
        omega
      have behind := lt_start_of_mem_invertedOffsets apartRest
        (fun next known => first next known extent none) inverse member
      show edit.start + shift + edit.replacement.length < inverse.start
      omega

/-- Separate edits come out as they are listed if each text that is inserted has a gap behind it. -/
theorem ComesOutListed.of_pairwise (separate : Separate text.length edits)
    (gaps : edits.Pairwise fun inserting next =>
      inserting.start = inserting.stop → inserting.replacement ≠ [] →
        inserting.stop < next.start) : ComesOutListed text edits := by
  constructor
  · intro place _
    apply flatten_reverse_of_pairwise
    rw [insertedAt, List.pairwise_map]
    refine (gaps.sublist List.filter_sublist).imp_of_mem ?_
    intro left right leftMember rightMember gap
    obtain ⟨start, stop⟩ := OffsetEdit.insertsAt_iff.mp (List.mem_filter.mp leftMember).2
    obtain ⟨next, -⟩ := OffsetEdit.insertsAt_iff.mp (List.mem_filter.mp rightMember).2
    by_contra solid
    have behind := gap (by omega) solid
    omega
  · intro edit member extent
    obtain ⟨nonneg, -, within⟩ := separate.ends edit member
    obtain ⟨front, back, rfl⟩ := List.append_of_mem member
    have empty : ∀ piece ∈ insertedAt (front ++ edit :: back) edit.start.toNat, piece = [] := by
      intro piece known
      obtain ⟨other, listed, rfl⟩ := List.mem_map.mp known
      obtain ⟨otherMember, inserts⟩ := List.mem_filter.mp listed
      obtain ⟨start, stop⟩ := OffsetEdit.insertsAt_iff.mp inserts
      obtain ⟨-, behind, before⟩ := List.pairwise_append.mp gaps
      rcases List.mem_append.mp otherMember with earlier | later
      · by_contra solid
        have gap := before other earlier edit List.mem_cons_self (by omega) solid
        omega
      · -- Behind a stretch that is rewritten nothing starts where it does.
        have apart := (List.pairwise_append.mp separate.apart).2.1
        rcases List.mem_cons.mp later with rfl | further
        · omega
        · have gap := List.rel_of_pairwise_cons apart further
          omega
    rw [overwritten_of_forall_empty within empty, List.flatten_eq_nil_iff.mpr empty, List.nil_append]

end Gaps

section Batch

variable {text after : Text} {edits : List Edit}

/-- A batch that lists edits of one start by their stops. -/
def ListedByStop (batch : List OffsetEdit) : Prop :=
  batch.Pairwise fun left right => left.start = right.start → left.stop ≤ right.stop

instance (batch : List OffsetEdit) : Decidable (ListedByStop batch) :=
  inferInstanceAs (Decidable (List.Pairwise _ batch))

theorem clampedEdits_eq_inDocumentOrder (listed : ListedByStop (edits.map (Edit.clamp text))) :
    clampedEdits text edits = inDocumentOrder (edits.map (Edit.clamp text)) := by
  apply stableSort_congr
  refine listed.imp ?_
  intro left right stops
  by_cases same : left.start = right.start
  · simp [same, stops same]
  · simp [same, Int.lt_iff_le_and_ne]

theorem separate_inDocumentOrder_clamp (fit : ∀ edit ∈ edits, edit.Fits text)
    (apart : edits.Pairwise fun left right => ¬ left.range.Overlaps right.range) :
    Separate text.length (inDocumentOrder (edits.map (Edit.clamp text))) := by
  have ends := ends_clamp fit
  refine ⟨?_, fun edit member => ends edit (mem_stableSort.mp member)⟩
  rw [pairwise_inDocumentOrder_iff fun edit member => (ends edit member).2.1]
  exact (pairwise_overlaps_clamp fit).mpr apart

/-- The inverse edits of a batch are taken by the text behind it, and restore the text in front of it
exactly if they come out as they are listed. -/
theorem replaceRanges?_inverseEdits_of_listed (accepted : replaceRanges? text edits = some after)
    (listed : ListedByStop (edits.map (Edit.clamp text))) :
    let inverse := invertedOffsets text 0 (inDocumentOrder (edits.map (Edit.clamp text)))
    Separate after.length inverse ∧
      replaceRanges? after (inverseEdits text edits) = some (applyEdits after inverse) ∧
      (applyEdits after inverse = text ↔ ComesOutListed after inverse) := by
  intro inverse
  obtain ⟨⟨fit, apart⟩, rfl⟩ := replaceRanges?_eq_some_iff.mp accepted
  have separate := separate_inDocumentOrder_clamp fit apart
  obtain ⟨follow, restored⟩ := replacedFrom_invertedOffsets_applyEdits separate
  have named : inverseEdits text edits = inverse.map (OffsetEdit.positioned
      (applyEdits text (inDocumentOrder (edits.map (Edit.clamp text))))) := by
    rw [inverseEdits, clampedEdits_eq_inDocumentOrder listed]
    exact invertOrdered_eq_map _ _ 0 _
  refine ⟨follow.separate, ?_, ?_⟩
  · rw [named]
    exact replaceRanges?_positioned follow.separate
  · rw [← applyEdits_eq_replacedFrom_iff follow.separate, restored]

/-- Each stretch that a batch removes without a new text has no other edit directly behind it. -/
def GapsBehindRemovals (batch : List OffsetEdit) : Prop :=
  ∀ removing ∈ batch, removing.start < removing.stop → removing.replacement = [] →
    ∀ next ∈ batch, next.start ≠ removing.stop

instance (batch : List OffsetEdit) : Decidable (GapsBehindRemovals batch) :=
  inferInstanceAs (Decidable (∀ removing ∈ batch, _ → _ → ∀ next ∈ batch, _))

theorem gapsBehindRemovals_of_pairwise {batch : List OffsetEdit}
    (ordered : ∀ edit ∈ batch, edit.start ≤ edit.stop) (gaps : batch.Pairwise (·.stop < ·.start)) :
    GapsBehindRemovals batch := by
  intro removing removingMember extent _ next nextMember
  obtain ⟨front, back, rfl⟩ := List.append_of_mem removingMember
  obtain ⟨-, behind, before⟩ := List.pairwise_append.mp gaps
  rcases List.mem_append.mp nextMember with earlier | later
  · have gap := before next earlier removing List.mem_cons_self
    have reach := ordered next nextMember
    omega
  · rcases List.mem_cons.mp later with rfl | further
    · omega
    · have gap := List.rel_of_pairwise_cons behind further
      omega

theorem comesOutListed_invertedOffsets (accepted : replaceRanges? text edits = some after)
    (listed : ListedByStop (edits.map (Edit.clamp text)))
    (gaps : GapsBehindRemovals (edits.map (Edit.clamp text))) :
    ComesOutListed after
      (invertedOffsets text 0 (inDocumentOrder (edits.map (Edit.clamp text)))) := by
  obtain ⟨separate, -, -⟩ := replaceRanges?_inverseEdits_of_listed accepted listed
  obtain ⟨⟨fit, apart⟩, -⟩ := replaceRanges?_eq_some_iff.mp accepted
  have before := (separate_inDocumentOrder_clamp fit apart).apart
  apply ComesOutListed.of_pairwise separate
  refine pairwise_invertedOffsets before (before.imp_of_mem ?_)
  intro removing next removingMember nextMember reach extent none
  have apartStarts := gaps removing (mem_stableSort.mp removingMember) extent none next
    (mem_stableSort.mp nextMember)
  omega

/-- The inverse edits lead back to the text that some edits with gaps between them changed. -/
theorem replaceRanges?_inverseEdits (apart : Apart (edits.map Edit.range))
    (accepted : replaceRanges? text edits = some after) :
    replaceRanges? after (inverseEdits text edits) = some text := by
  have fit := fits_of_replaceRanges? accepted
  have starts := pairwise_start_clamp apart fit
  have gaps := pairwise_clamp apart fit
  have ends := ends_clamp fit
  have listed : ListedByStop (edits.map (Edit.clamp text)) :=
    starts.imp fun before same => absurd same (Int.ne_of_lt before)
  have behind : GapsBehindRemovals (edits.map (Edit.clamp text)) :=
    gapsBehindRemovals_of_pairwise (fun edit member => (ends edit member).2.1) gaps
  obtain ⟨-, taken, restored⟩ := replaceRanges?_inverseEdits_of_listed accepted listed
  rw [taken, restored.mpr (comesOutListed_invertedOffsets accepted listed behind)]

/-- For every batch that a document takes, listed by stop where edits start together: the inverse edits,
computed in front of the batch, are taken behind it, and the document is as it was exactly if they come
out as they are listed. That is so wherever no stretch that the batch removes has another of its edits
directly behind it. -/
theorem Document.replaceRanges?_inverseEdits_iff {document changed : Document}
    (accepted : document.replaceRanges? edits = some changed)
    (listed : ListedByStop (edits.map (Edit.clamp document.text))) :
    let batch := edits.map (Edit.clamp document.text)
    ∃ reverted, changed.replaceRanges? (inverseEdits document.text edits) = some reverted ∧
      (reverted = document ↔
        ComesOutListed changed.text (invertedOffsets document.text 0 (inDocumentOrder batch))) ∧
      (GapsBehindRemovals batch → reverted = document) := by
  intro batch
  obtain ⟨writable, text, replaced, rfl⟩ := replaceRanges?_eq_some_iff_writable.mp accepted
  obtain ⟨-, taken, restored⟩ := replaceRanges?_inverseEdits_of_listed replaced listed
  have unchanged : ∀ reverted : Text,
      ({ document with text := reverted } : Document) = document ↔ reverted = document.text := by
    intro reverted
    constructor
    · exact fun same => congrArg Document.text same
    · rintro rfl
      rfl
  refine ⟨_, replaceRanges?_eq_some_iff_writable.mpr ⟨writable, _, taken, rfl⟩, ?_, ?_⟩
  · rw [unchanged]
    exact restored
  · intro gaps
    rw [unchanged]
    exact restored.mpr (comesOutListed_invertedOffsets replaced listed gaps)

def foldedNote : Document where
  identity := "note"
  languageId := Document.plainLanguage
  text := "abcd\nef"

/-- A line end that is removed, and in front of it a text on two lines that is inserted where a rewritten
stretch stops. -/
def foldingEdits : List Edit :=
  [⟨⟨⟨0, 4⟩, ⟨1, 0⟩⟩, ""⟩, ⟨⟨⟨0, 0⟩, ⟨0, 2⟩⟩, "Y"⟩, ⟨⟨⟨0, 2⟩, ⟨0, 2⟩⟩, "v\nw"⟩]

theorem Document.replaceRanges?_inverseEdits_foldedNote :
    foldedNote.replaceRanges? foldingEdits = some { foldedNote with text := "Yv\nwcdef" } ∧
      Document.replaceRanges? { foldedNote with text := "Yv\nwcdef" }
        (inverseEdits foldedNote.text foldingEdits) = some foldedNote := by
  have accepted : foldedNote.replaceRanges? foldingEdits =
      some { foldedNote with text := "Yv\nwcdef" } := by decide
  obtain ⟨reverted, taken, -, restored⟩ :=
    Document.replaceRanges?_inverseEdits_iff accepted (by decide)
  rw [restored (by decide)] at taken
  exact ⟨accepted, taken⟩

/-- A stretch that is removed, and behind it one that is rewritten. -/
def removingEdits : List Edit :=
  [⟨⟨⟨0, 1⟩, ⟨0, 2⟩⟩, ""⟩, ⟨⟨⟨0, 2⟩, ⟨0, 3⟩⟩, "Y"⟩]

/-- The removed text is inserted at the start of the stretch that is rewritten back, and cut there. -/
theorem Document.not_forall_replaceRanges?_inverseEdits :
    ¬ ∀ (document changed : Document) (edits : List Edit),
      document.replaceRanges? edits = some changed →
        changed.replaceRanges? (inverseEdits document.text edits) = some document := by
  intro law
  have accepted : shortNote.replaceRanges? removingEdits =
      some { shortNote with text := "aYd" } := by decide
  have reverted : Document.replaceRanges? { shortNote with text := "aYd" }
      (inverseEdits shortNote.text removingEdits) = some { shortNote with text := "acYd" } := by
    decide
  have claimed := law shortNote _ removingEdits accepted
  rw [reverted] at claimed
  exact absurd claimed (by decide)

end Batch

end CodeProse
