import CodeProse.Proofs.Document.Edit

/-!
# Edits that keep coordinates

A text reaches from the first position to the one where it ends. Where every replacement reaches as
far as what it replaces, every position outside the edits keeps its place, and the range of an edit
holds its replacement.
-/

set_option autoImplicit false

namespace CodeProse

namespace Text

/-- The position where a text ends. -/
def extent (text : Text) : Position :=
  positionAt text text.length

theorem extent_of_not_mem {text : Text} (plain : .scalar '\n' ∉ text) :
    text.extent = ⟨0, text.length⟩ := by
  have kept : text.reverse.takeWhile (· ≠ .scalar '\n') = text.reverse := by
    refine List.takeWhile_eq_self_iff.mpr fun char member => decide_eq_true ?_
    rintro rfl
    exact plain (List.mem_reverse.mp member)
  have whole : clampTo text.length (text.length : Int) = text.length := by
    simp [clampTo]
  rw [extent, positionAt, whole, List.take_length, kept, List.length_reverse,
    List.count_eq_zero.mpr plain]
  rfl

theorem positionAt_eq_extent {text : Text} {offset : Nat} (within : offset ≤ text.length) :
    positionAt text offset = extent (text.take offset) := by
  rw [extent, List.length_take_of_le within, positionAt_take within]

theorem positionAt_append_length (front back : Text) :
    positionAt (front ++ back) front.length = front.extent := by
  rw [positionAt_eq_extent (List.length_append ▸ Nat.le_add_right _ _), List.take_left]

theorem extent_append (front back : Text) : (front ++ back).extent =
    front.extent.within back.extent.line.toNat back.extent.column.toNat := by
  have rest : (front ++ back).drop front.length = back := List.drop_left
  have prefixed : back <+: (front ++ back).drop front.length := by simp [rest]
  have short : front.length ≤ (front ++ back).length :=
    List.length_append ▸ Nat.le_add_right _ _
  have joined := positionAt_add prefixed short (Nat.le_refl back.length)
  rw [positionAt_append_length, ← List.length_append] at joined
  exact joined

theorem extent_append_congr {front other back more : Text} (fronts : front.extent = other.extent)
    (backs : back.extent = more.extent) : (front ++ back).extent = (other ++ more).extent := by
  rw [extent_append, extent_append, fronts, backs]

/-- A part of a text stands where the texts in front of it and up to its end do end. -/
theorem slice_of_extents {before part behind : Text} {range : Range}
    (start : range.start = before.extent) (stop : range.stop = (before ++ part).extent) :
    slice (before ++ (part ++ behind)) (offsetAt (before ++ (part ++ behind)) range.start)
      (offsetAt (before ++ (part ++ behind)) range.stop) = part := by
  have startAt : offsetAt (before ++ (part ++ behind)) range.start = before.length := by
    rw [start, ← positionAt_append_length before (part ++ behind)]
    exact offsetAt_positionAt (by simp)
  have stopAt : offsetAt (before ++ (part ++ behind)) range.stop =
      (before ++ part).length := by
    rw [stop, ← positionAt_append_length (before ++ part) behind, List.append_assoc]
    exact offsetAt_positionAt (by simp)
  rw [startAt, stopAt, slice, ← List.append_assoc, List.take_left, List.drop_left]

end Text

/-- A position is where the text up to it ends. -/
theorem Position.LiesIn.eq_extent {text : Text} {position : Position}
    (inside : position.LiesIn text) :
    position = Text.extent (text.take (offsetAt text position)) := by
  rw [← Text.positionAt_eq_extent inside.offsetAt_le_length, inside.positionAt_offsetAt]

section Edits

variable {text : Text}

theorem FollowOn.mono {limit place later : Nat} {edits : List OffsetEdit}
    (follow : FollowOn limit later edits) (before : place ≤ later) : FollowOn limit place edits := by
  cases edits with
  | nil => exact before.trans follow
  | cons edit rest =>
      obtain ⟨begins, ends, further⟩ := follow
      exact ⟨by omega, ends, further⟩

theorem replacedFrom_eq_append {place later : Nat} {edits : List OffsetEdit}
    (before : place ≤ later) (follow : FollowOn text.length later edits) :
    replacedFrom text place edits = slice text place later ++ replacedFrom text later edits := by
  have front : text.take place ++ replacedFrom text place edits =
      text.take place ++ (slice text place later ++ replacedFrom text later edits) := by
    rw [← foldr_apply_eq (follow.mono before), foldr_apply_eq follow, ← List.append_assoc,
      take_append_slice text before]
  exact List.append_cancel_left front

/-- Edits that put back what stands there make no difference. -/
theorem replacedFrom_filter {α : Type} (edit : α → OffsetEdit) (keep : α → Bool) {items : List α}
    {place : Nat} (follow : FollowOn text.length place (items.map edit))
    (idle : ∀ item ∈ items, keep item = false →
      (edit item).replacement = slice text (edit item).start.toNat (edit item).stop.toNat) :
    replacedFrom text place ((items.filter keep).map edit) =
      replacedFrom text place (items.map edit) := by
  induction items generalizing place with
  | nil => rfl
  | cons item rest ih =>
      obtain ⟨begins, ends, further⟩ := follow
      obtain ⟨here, idleRest⟩ := List.forall_mem_cons.mp idle
      cases kept : keep item with
      | true =>
          rw [List.filter_cons_of_pos kept, List.map_cons, List.map_cons, replacedFrom,
            replacedFrom, ih further idleRest]
      | false =>
          have start : place ≤ (edit item).start.toNat := by omega
          have stop : (edit item).start.toNat ≤ (edit item).stop.toNat := by omega
          rw [List.filter_cons_of_neg (by simp [kept]), List.map_cons, replacedFrom, here kept,
            ih (further.mono (start.trans stop)) idleRest,
            replacedFrom_eq_append start (further.mono stop), replacedFrom_eq_append stop further,
            List.append_assoc]

/-- Where every replacement reaches as far as what it replaces, each of them stands in the text
between the places where its edit starts and stops. The induction runs over the edits, with a text
in front that reaches as far as the original does up to there. -/
theorem exists_replacedFrom_cut {edits : List OffsetEdit} {place : Nat} {front : Text}
    (follow : FollowOn text.length place edits)
    (reaches : ∀ edit ∈ edits, edit.replacement.extent =
      Text.extent (slice text edit.start.toNat edit.stop.toNat))
    (same : front.extent = Text.extent (text.take place)) :
    ∀ edit ∈ edits, ∃ before behind,
      front ++ replacedFrom text place edits = before ++ (edit.replacement ++ behind) ∧
        before.extent = Text.extent (text.take edit.start.toNat) ∧
        (before ++ edit.replacement).extent = Text.extent (text.take edit.stop.toNat) := by
  induction edits generalizing place front with
  | nil => exact fun edit member => absurd member List.not_mem_nil
  | cons edit rest ih =>
      obtain ⟨begins, ends, further⟩ := follow
      obtain ⟨here, reachesRest⟩ := List.forall_mem_cons.mp reaches
      have start : place ≤ edit.start.toNat := by omega
      have stop : edit.start.toNat ≤ edit.stop.toNat := by omega
      have before : Text.extent (front ++ slice text place edit.start.toNat) =
          Text.extent (text.take edit.start.toNat) := by
        rw [← take_append_slice text start]
        exact Text.extent_append_congr same rfl
      have through : (front ++ slice text place edit.start.toNat ++ edit.replacement).extent =
          Text.extent (text.take edit.stop.toNat) := by
        rw [← take_append_slice text stop]
        exact Text.extent_append_congr before here
      rw [replacedFrom]
      intro other member
      rcases List.mem_cons.mp member with rfl | later
      · exact ⟨_, replacedFrom text other.stop.toNat rest, by simp only [List.append_assoc], before,
          through⟩
      · obtain ⟨part, behind, cut, places⟩ := ih further reachesRest through other later
        refine ⟨part, behind, ?_, places⟩
        rw [← cut]
        simp only [List.append_assoc]

end Edits

end CodeProse
