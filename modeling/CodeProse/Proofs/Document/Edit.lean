import CodeProse.Document.Basic
import CodeProse.Proofs.Document.Coordinates
import CodeProse.Proofs.Document.Position

/-!
# Laws of edits

Edits that do not reach over one another replace their stretches all at once: every character
outside them is kept, in order. A batch of edits with gaps between their ranges is taken exactly
when every range is well formed.
-/

set_option autoImplicit false

namespace CodeProse

/-- The text from an offset on with the stretches of ordered edits replaced at once. -/
def replacedFrom (text : Text) : Nat → List OffsetEdit → Text
  | place, [] => text.drop place
  | place, edit :: rest =>
      slice text place edit.start.toNat ++ edit.replacement ++
        replacedFrom text edit.stop.toNat rest

/-- Edits that stand in order between an offset and a limit, none reaching over the next. -/
def FollowOn (limit : Nat) : Nat → List OffsetEdit → Prop
  | place, [] => place ≤ limit
  | place, edit :: rest =>
      (place : Int) ≤ edit.start ∧ edit.start ≤ edit.stop ∧ FollowOn limit edit.stop.toNat rest

theorem FollowOn.place_le {limit place : Nat} {edits : List OffsetEdit}
    (follow : FollowOn limit place edits) : place ≤ limit := by
  induction edits generalizing place with
  | nil => exact follow
  | cons edit rest ih =>
      obtain ⟨start, stop, later⟩ := follow
      have reached := ih later
      omega

theorem followOn_of_pairwise {limit place : Nat} {edits : List OffsetEdit}
    (ordered : edits.Pairwise (·.stop ≤ ·.start))
    (bounded : ∀ edit ∈ edits, (place : Int) ≤ edit.start ∧ edit.start ≤ edit.stop ∧
      edit.stop ≤ limit)
    (within : place ≤ limit) : FollowOn limit place edits := by
  induction edits generalizing place with
  | nil => exact within
  | cons edit rest ih =>
      obtain ⟨first, further⟩ := List.pairwise_cons.mp ordered
      obtain ⟨start, stop, end_⟩ := bounded edit List.mem_cons_self
      refine ⟨start, stop, ih further (fun next member => ?_) (by omega)⟩
      obtain ⟨-, nextStop, nextEnd⟩ := bounded next (List.mem_cons_of_mem edit member)
      have gap := first next member
      exact ⟨by omega, nextStop, nextEnd⟩

/-- Applying edits that follow on from the last to the first leaves the text in front of them
and replaces all of them at once. -/
theorem foldr_apply_eq {text : Text} {place : Nat} {edits : List OffsetEdit}
    (follow : FollowOn text.length place edits) :
    edits.foldr (fun edit changed => OffsetEdit.apply changed edit) text =
      text.take place ++ replacedFrom text place edits := by
  induction edits generalizing place with
  | nil => exact (List.take_append_drop place text).symm
  | cons edit rest ih =>
      obtain ⟨begins, ends, later⟩ := follow
      obtain ⟨start, startEq⟩ := Int.eq_ofNat_of_zero_le (show 0 ≤ edit.start by omega)
      obtain ⟨stop, stopEq⟩ := Int.eq_ofNat_of_zero_le (show 0 ≤ edit.stop by omega)
      rw [stopEq, Int.toNat_natCast] at later
      have inside := later.place_le
      have ordered : start ≤ stop := by omega
      have split : text.take stop = text.take place ++ (slice text place start ++
          slice text start stop) := by
        rw [← List.append_assoc, take_append_slice text (by omega : place ≤ start),
          take_append_slice text ordered]
      have front : (text.take stop).take start = text.take start := by
        rw [List.take_take, Nat.min_eq_left ordered]
      have stopLength : (text.take stop).length = stop := List.length_take_of_le inside
      rw [List.foldr_cons, ih later, replacedFrom, OffsetEdit.apply, startEq, stopEq,
        upTo_natCast, since_natCast, Int.toNat_natCast, Int.toNat_natCast,
        List.take_append_of_le_length (by omega), front, List.drop_left' stopLength,
        ← take_append_slice text (show place ≤ start by omega)]
      simp only [List.append_assoc]

theorem backToFront_eq_reverse {edits : List OffsetEdit}
    (ordered : edits.Pairwise (·.start < ·.start)) : backToFront edits = edits.reverse := by
  apply stableSort_eq_reverse
  refine ordered.imp fun {left right} before => ?_
  exact decide_eq_false (Int.not_le.mpr before)

/-- Edits that follow on, no two starting together, replace their stretches at once. -/
theorem applyEdits_eq_replacedFrom {text : Text} {edits : List OffsetEdit}
    (ordered : edits.Pairwise (·.start < ·.start)) (follow : FollowOn text.length 0 edits) :
    applyEdits text edits = replacedFrom text 0 edits := by
  rw [applyEdits, backToFront_eq_reverse ordered, List.foldl_reverse, foldr_apply_eq follow]
  rfl

/-- The edit by offsets, its ends moved into the text. -/
def Edit.clamp (text : Text) (edit : Edit) : OffsetEdit :=
  ⟨offsetAt text edit.range.start, offsetAt text edit.range.stop, edit.replacement⟩

/-- An edit whose range lies in a text, its ends in order. -/
structure Edit.Fits (text : Text) (edit : Edit) : Prop where
  start : edit.range.start.LiesIn text
  stop : edit.range.stop.LiesIn text
  ordered : offsetAt text edit.range.start ≤ offsetAt text edit.range.stop

theorem Edit.resolve?_eq_some_iff {text : Text} {edit : Edit} {resolved : OffsetEdit} :
    edit.resolve? text = some resolved ↔ edit.Fits text ∧ resolved = edit.clamp text := by
  simp only [Edit.resolve?, Option.bind_eq_bind, Option.bind_eq_some_iff,
    checkedOffset?_eq_some_iff]
  constructor
  · rintro ⟨start, ⟨startInside, rfl⟩, stop, ⟨stopInside, rfl⟩, chosen⟩
    split at chosen
    · cases chosen
    · next ordered =>
        exact ⟨⟨startInside, stopInside, Nat.not_lt.mp ordered⟩, (Option.some.inj chosen).symm⟩
  · rintro ⟨⟨startInside, stopInside, ordered⟩, rfl⟩
    exact ⟨_, ⟨startInside, rfl⟩, _, ⟨stopInside, rfl⟩, if_neg (Nat.not_lt.mpr ordered)⟩

theorem mapM_resolve?_eq_some_iff {text : Text} {edits : List Edit}
    {resolved : List OffsetEdit} :
    edits.mapM (Edit.resolve? text) = some resolved ↔
      (∀ edit ∈ edits, edit.Fits text) ∧ resolved = edits.map (Edit.clamp text) := by
  induction edits generalizing resolved with
  | nil => simp [eq_comm]
  | cons edit rest ih =>
      simp only [List.mapM_cons, Option.bind_eq_bind, Option.bind_eq_some_iff,
        Edit.resolve?_eq_some_iff, ih, List.forall_mem_cons, List.map_cons]
      constructor
      · rintro ⟨_, ⟨fits, rfl⟩, _, ⟨restFit, rfl⟩, shape⟩
        exact ⟨⟨fits, restFit⟩, (Option.some.inj shape).symm⟩
      · rintro ⟨⟨fits, restFit⟩, rfl⟩
        exact ⟨_, ⟨fits, rfl⟩, _, ⟨restFit, rfl⟩, rfl⟩

theorem fits_of_replaceRanges? {text after : Text} {edits : List Edit}
    (accepted : replaceRanges? text edits = some after) : ∀ edit ∈ edits, edit.Fits text := by
  simp only [replaceRanges?, Option.bind_eq_bind, Option.bind_eq_some_iff] at accepted
  obtain ⟨resolved, found, -⟩ := accepted
  exact (mapM_resolve?_eq_some_iff.mp found).1

theorem areSeparate_of_pairwise {edits : List OffsetEdit}
    (ordered : edits.Pairwise (·.stop ≤ ·.start)) : areSeparate edits = true := by
  induction edits with
  | nil => rfl
  | cons first rest ih =>
      cases rest with
      | nil => rfl
      | cons second rest =>
          obtain ⟨gap, further⟩ := List.pairwise_cons.mp ordered
          simp [areSeparate, gap second List.mem_cons_self, ih further]

section Apart

variable {text : Text} {edits : List Edit}

theorem pairwise_clamp (apart : Apart (edits.map Edit.range))
    (fit : ∀ edit ∈ edits, edit.Fits text) :
    (edits.map (Edit.clamp text)).Pairwise (·.stop < ·.start) := by
  rw [Apart, List.pairwise_map] at apart
  rw [List.pairwise_map]
  refine apart.imp_of_mem fun {left right} leftMember rightMember gap => ?_
  exact Int.ofNat_lt.mpr ((fit left leftMember).stop.offsetAt_lt (fit right rightMember).start gap)

theorem ends_clamp (fit : ∀ edit ∈ edits, edit.Fits text) :
    ∀ resolved ∈ edits.map (Edit.clamp text),
      0 ≤ resolved.start ∧ resolved.start ≤ resolved.stop ∧ resolved.stop ≤ text.length := by
  intro resolved member
  obtain ⟨edit, known, rfl⟩ := List.mem_map.mp member
  have fits := fit edit known
  exact ⟨Int.natCast_nonneg _, Int.ofNat_le.mpr fits.ordered,
    Int.ofNat_le.mpr fits.stop.offsetAt_le_length⟩

theorem pairwise_start_clamp (apart : Apart (edits.map Edit.range))
    (fit : ∀ edit ∈ edits, edit.Fits text) :
    (edits.map (Edit.clamp text)).Pairwise (·.start < ·.start) := by
  refine (pairwise_clamp apart fit).imp_of_mem fun {left right} leftMember _ gap => ?_
  obtain ⟨-, ordered, -⟩ := ends_clamp fit left leftMember
  omega

theorem followOn_clamp (apart : Apart (edits.map Edit.range))
    (fit : ∀ edit ∈ edits, edit.Fits text) :
    FollowOn text.length 0 (edits.map (Edit.clamp text)) :=
  followOn_of_pairwise ((pairwise_clamp apart fit).imp Int.le_of_lt) (ends_clamp fit) (Nat.zero_le _)

/-- Edits with gaps between their ranges are taken when all fit, and replace their ranges at
once. -/
theorem replaceRanges?_of_apart (apart : Apart (edits.map Edit.range))
    (fit : ∀ edit ∈ edits, edit.Fits text) :
    replaceRanges? text edits = some (replacedFrom text 0 (edits.map (Edit.clamp text))) := by
  have resolved := mapM_resolve?_eq_some_iff.mpr ⟨fit, rfl⟩
  have starts := pairwise_start_clamp apart fit
  have ordered : inDocumentOrder (edits.map (Edit.clamp text)) = edits.map (Edit.clamp text) := by
    apply stableSort_of_pairwise
    refine starts.imp fun {left right} before => ?_
    simp [before]
  have separate : areSeparate (edits.map (Edit.clamp text)) = true :=
    areSeparate_of_pairwise ((pairwise_clamp apart fit).imp Int.le_of_lt)
  simp only [replaceRanges?, resolved, Option.bind_eq_bind, Option.bind_some, ordered, separate,
    if_true, applyEdits_eq_replacedFrom starts (followOn_clamp apart fit)]

end Apart

theorem Document.replaceRanges?_eq_some_iff_writable {document changed : Document}
    {edits : List Edit} :
    document.replaceRanges? edits = some changed ↔
      document.readOnly = false ∧ ∃ text, CodeProse.replaceRanges? document.text edits = some text ∧
        { document with text } = changed := by
  unfold Document.replaceRanges?
  split
  · next refused => simp [refused]
  · next writable => simp [writable]

end CodeProse
