import CodeProse.Proofs.Text.Blank
import CodeProse.Proofs.Text.Lines
import CodeProse.Proofs.Text.Search

/-!
# Laws of occurrences

Where a piece of text occurs, and what may be cut off around it without losing an occurrence.
-/

set_option autoImplicit false

namespace CodeProse.Text

section Cuts

variable {needle text : Text} {drops : CodePoint → Bool}

/-- An occurrence does not start among characters other than its first one. -/
theorem infix_append_iff_of_head (front text : Text)
    (foreign : ∀ char ∈ front, needle.head? ≠ some char) (nonempty : needle ≠ []) :
    needle <:+: front ++ text ↔ needle <:+: text := by
  induction front with
  | nil => exact Iff.rfl
  | cons char rest ih =>
      obtain ⟨here, further⟩ := List.forall_mem_cons.mp foreign
      rw [List.cons_append, List.infix_cons_iff, ih further]
      refine or_iff_right fun found => here ?_
      obtain ⟨first, behind, rfl⟩ := List.exists_cons_of_ne_nil nonempty
      rw [List.head?_cons, (List.cons_prefix_cons.mp found).1]

/-- An occurrence does not end among characters other than its last one. -/
theorem infix_append_iff_of_last (text back : Text)
    (foreign : ∀ char ∈ back, needle.getLast? ≠ some char) (nonempty : needle ≠ []) :
    needle <:+: text ++ back ↔ needle <:+: text := by
  rw [← List.reverse_infix, List.reverse_append, infix_append_iff_of_head, List.reverse_infix]
  · intro char member
    rw [List.head?_reverse]
    exact foreign char (List.mem_reverse.mp member)
  · exact fun none => nonempty (List.reverse_eq_nil_iff.mp none)

/-- A piece behind characters other than its first one is found first there. -/
theorem indexOf?_append_of_head (front rest : Text)
    (foreign : ∀ char ∈ front, needle.head? ≠ some char) (nonempty : needle ≠ []) :
    indexOf? needle (front ++ (needle ++ rest)) = some front.length := by
  induction front with
  | nil =>
      obtain ⟨first, behind, rfl⟩ := List.exists_cons_of_ne_nil nonempty
      have here : (first :: behind).isPrefixOf (first :: (behind ++ rest)) = true :=
        List.isPrefixOf_iff_prefix.mpr (List.prefix_append (first :: behind) rest)
      rw [List.nil_append, List.cons_append, indexOf?, if_pos here, List.length_nil]
  | cons char front ih =>
      obtain ⟨other, further⟩ := List.forall_mem_cons.mp foreign
      have elsewhere : ¬ needle.isPrefixOf (char :: (front ++ (needle ++ rest))) = true := by
        intro found
        obtain ⟨first, behind, rfl⟩ := List.exists_cons_of_ne_nil nonempty
        have same := (List.cons_prefix_cons.mp (List.isPrefixOf_iff_prefix.mp found)).1
        exact other (congrArg some same)
      rw [List.cons_append, indexOf?, if_neg elsewhere, ih further, Option.map_some,
        List.length_cons]

theorem infix_dropWhile_iff (kept : needle.head?.any fun first => !drops first) :
    needle <:+: text.dropWhile drops ↔ needle <:+: text := by
  cases needle with
  | nil => simp at kept
  | cons first behind =>
      have stays : drops first = false := by simpa using kept
      have foreign : ∀ char ∈ text.takeWhile drops, (first :: behind).head? ≠ some char := by
        intro char member same
        rw [List.head?_cons, Option.some.injEq] at same
        have dropped := List.all_eq_true.mp List.all_takeWhile char member
        rw [← same, stays] at dropped
        cases dropped
      have cut := infix_append_iff_of_head _ (text.dropWhile drops) foreign
        (List.cons_ne_nil first behind)
      rwa [List.takeWhile_append_dropWhile, Iff.comm] at cut

theorem infix_dropEndWhile_iff (kept : needle.getLast?.any fun last => !drops last) :
    needle <:+: dropEndWhile drops text ↔ needle <:+: text := by
  rw [dropEndWhile, ← List.reverse_infix, List.reverse_reverse, infix_dropWhile_iff,
    List.reverse_infix]
  rw [List.head?_reverse]
  exact kept

/-- A piece of text that starts and ends with a character that is not blank. -/
structure IsSolid (needle : Text) : Prop where
  head : needle.head?.any fun first => !CodeProse.isBlank first
  last : needle.getLast?.any fun last => !CodeProse.isBlank last

namespace IsSolid

theorem infix_trimStart_iff (solid : needle.IsSolid) :
    needle <:+: trimStart text ↔ needle <:+: text :=
  infix_dropWhile_iff solid.head

theorem infix_trim_iff (solid : needle.IsSolid) : needle <:+: trim text ↔ needle <:+: text := by
  rw [trim, trimEnd, infix_dropEndWhile_iff solid.last, solid.infix_trimStart_iff]

theorem ne_nil (solid : needle.IsSolid) : needle ≠ [] := by
  intro empty
  have head := solid.head
  rw [empty] at head
  cases head

theorem trim_eq (solid : text.IsSolid) : trim text = text := by
  obtain ⟨first, behind, shape⟩ := List.exists_cons_of_ne_nil solid.ne_nil
  have start : trimStart text = text := by
    have head := solid.head
    rw [shape] at head ⊢
    exact List.dropWhile_cons_of_neg (by simpa using head)
  obtain ⟨front, last, ends⟩ := (List.eq_nil_or_concat' text).resolve_left solid.ne_nil
  have final := solid.last
  rw [ends, List.getLast?_concat] at final
  rw [trim, start, trimEnd, dropEndWhile, ends, List.reverse_concat,
    List.dropWhile_cons_of_neg (by simpa using final), List.reverse_cons, List.reverse_reverse]

end IsSolid

theorem trimStart_append (solid : needle.IsSolid) :
    trimStart (text ++ needle) = trimStart text ++ needle := by
  obtain ⟨first, behind, rfl⟩ := List.exists_cons_of_ne_nil solid.ne_nil
  have head := solid.head
  rw [trimStart, List.dropWhile_append]
  split
  · next blank =>
      rw [List.isEmpty_iff] at blank
      rw [trimStart, blank, List.dropWhile_cons_of_neg (by simpa using head), List.nil_append]
  · rfl

theorem isSolid_trim (some : trim text ≠ []) : (trim text).IsSolid := by
  constructor
  · have front : trim text <+: trimStart text := prefix_trimEnd _
    obtain ⟨first, behind, shape⟩ := List.exists_cons_of_ne_nil some
    rw [shape] at front ⊢
    obtain ⟨rest, joined⟩ := front
    have head := List.head?_dropWhile_not CodeProse.isBlank text
    rw [← trimStart, ← joined, List.cons_append, List.head?_cons] at head
    simpa using head
  · have kept := List.head?_dropWhile_not CodeProse.isBlank (trimStart text).reverse
    rw [trim, trimEnd, dropEndWhile] at some ⊢
    rw [List.getLast?_reverse]
    cases shape : (List.dropWhile CodeProse.isBlank (trimStart text).reverse) with
    | nil => simp [shape] at some
    | cons last rest =>
        rw [shape] at kept
        simpa using kept

theorem trim_trim : trim (trim text) = trim text := by
  by_cases none : trim text = []
  · rw [none]
    rfl
  · exact (isSolid_trim none).trim_eq

theorem isBlank_append (front back : Text) :
    (front ++ back).isBlank = (front.isBlank && back.isBlank) :=
  List.all_append

theorem exists_trim_eq (text : Text) :
    ∃ before after : Text, before.isBlank = true ∧ after.isBlank = true ∧
      text = before ++ (trim text ++ after) := by
  have front : text.takeWhile CodeProse.isBlank ++ trimStart text = text :=
    List.takeWhile_append_dropWhile
  have back : trim text ++ ((trimStart text).reverse.takeWhile CodeProse.isBlank).reverse =
      trimStart text := by
    rw [trim, trimEnd, dropEndWhile, ← List.reverse_append, List.takeWhile_append_dropWhile,
      List.reverse_reverse]
  have blankBack : isBlank ((trimStart text).reverse.takeWhile CodeProse.isBlank).reverse = true := by
    rw [isBlank, List.all_reverse]
    exact List.all_takeWhile
  refine ⟨text.takeWhile CodeProse.isBlank, _, List.all_takeWhile, blankBack, ?_⟩
  rw [back, front]

theorem isBlank_trim (text : Text) : (trim text).isBlank = text.isBlank := by
  obtain ⟨before, after, blankBefore, blankAfter, shape⟩ := exists_trim_eq text
  have whole := congrArg isBlank shape
  rw [isBlank_append, isBlank_append, blankBefore, blankAfter, Bool.true_and, Bool.and_true] at whole
  exact whole.symm

theorem trim_eq_nil_iff : trim text = [] ↔ text.isBlank = true := by
  rw [← isBlank_trim]
  constructor
  · intro none
    rw [none]
    rfl
  · intro blank
    by_contra some
    obtain ⟨first, rest, shape⟩ := List.exists_cons_of_ne_nil some
    have head := (isSolid_trim some).head
    rw [shape] at blank head
    have first := List.all_eq_true.mp blank _ List.mem_cons_self
    simp [first] at head

theorem trimStart_of_between {before inner : Text} (solid : inner.IsSolid)
    (blank : before.isBlank = true) (after : Text) :
    trimStart (before ++ (inner ++ after)) = inner ++ after := by
  obtain ⟨first, behind, rfl⟩ := List.exists_cons_of_ne_nil solid.ne_nil
  have head := solid.head
  rw [trimStart, List.dropWhile_append_of_pos (List.all_eq_true.mp blank), List.cons_append,
    List.dropWhile_cons_of_neg (by simpa using head)]

theorem trim_of_between {before inner after : Text} (solid : inner.IsSolid)
    (blankBefore : before.isBlank = true) (blankAfter : after.isBlank = true) :
    trim (before ++ (inner ++ after)) = inner := by
  rw [trim, trimStart_of_between solid blankBefore, trimEnd,
    dropEndWhile_append (List.all_eq_true.mp blankAfter) solid.last]

end Cuts

section Rows

variable {needle : Text} {mark : CodePoint}

/-- What a text without a mark starts with, it starts with where the mark follows. -/
theorem prefix_append_cons_iff (plain : mark ∉ needle) {front back : Text} :
    needle <+: front ++ mark :: back ↔ needle <+: front := by
  refine ⟨fun found => ?_, fun found => found.trans (List.prefix_append front _)⟩
  rcases List.prefix_or_prefix_of_prefix found (List.prefix_append front _) with here | ⟨rest, rfl⟩
  · exact here
  · cases rest with
    | nil => exact (List.append_nil front).symm ▸ List.prefix_refl front
    | cons char rest =>
        have marked := (List.cons_prefix_cons.mp ((List.prefix_append_right_inj front).mp found)).1
        exact absurd (marked ▸ List.mem_append_right front List.mem_cons_self) plain

/-- An occurrence without a mark stands before or behind the mark. -/
theorem infix_append_cons_iff (plain : mark ∉ needle) {front back : Text} :
    needle <:+: front ++ mark :: back ↔ needle <:+: front ∨ needle <:+: back := by
  induction front with
  | nil =>
      have front : needle <+: [] ++ mark :: back ↔ needle <+: [] := prefix_append_cons_iff plain
      rw [List.nil_append] at front ⊢
      rw [List.infix_cons_iff, front, List.prefix_nil, List.infix_nil]
  | cons char rest ih =>
      have front : needle <+: char :: rest ++ mark :: back ↔ needle <+: char :: rest :=
        prefix_append_cons_iff plain
      rw [List.cons_append] at front ⊢
      rw [List.infix_cons_iff, front, ih, List.infix_cons_iff, or_assoc]

/-- A piece whose first character does not come again in it is found first where it is put behind a
text, exactly if it does not stand in the text. -/
theorem indexOf?_append_eq_length_iff {rest : Text} (once : mark ∉ rest) (front back : Text) :
    indexOf? (mark :: rest) (front ++ mark :: (rest ++ back)) = some front.length ↔
      ¬ mark :: rest <:+: front := by
  induction front with
  | nil =>
      have here : (mark :: rest).isPrefixOf (mark :: (rest ++ back)) = true :=
        List.isPrefixOf_iff_prefix.mpr (List.prefix_append (mark :: rest) back)
      rw [List.nil_append, indexOf?, if_pos here, List.infix_nil]
      exact iff_of_true rfl (List.cons_ne_nil mark rest)
  | cons char front ih =>
      have here : (mark :: rest).isPrefixOf (char :: (front ++ mark :: (rest ++ back))) = true ↔
          mark :: rest <+: char :: front := by
        rw [List.isPrefixOf_iff_prefix, List.cons_prefix_cons, List.cons_prefix_cons,
          prefix_append_cons_iff once]
      rw [List.cons_append, indexOf?, List.length_cons, List.infix_cons_iff, not_or, ← ih]
      by_cases found : mark :: rest <+: char :: front
      · simp [here, found]
      · simp [here, found]

/-- The last place of a mark is the one with no other behind it. -/
theorem lastIndexOf?_append_cons {back : Text} (last : mark ∉ back) (front : Text) :
    lastIndexOf? [mark] (front ++ mark :: back) = some front.length := by
  induction front with
  | nil =>
      have none : lastIndexOf? [mark] back = none :=
        lastIndexOf?_eq_none_iff.mpr fun found => last (found.subset List.mem_cons_self)
      simp [lastIndexOf?, none]
  | cons char front ih => rw [List.cons_append, lastIndexOf?, ih, List.length_cons]

/-- An occurrence without a line feed stands on one of the lines. -/
theorem infix_unlines_iff (plain : .scalar '\n' ∉ needle) {rows : List Text} (some : rows ≠ []) :
    needle <:+: unlines rows ↔ ∃ row ∈ rows, needle <:+: row := by
  induction rows with
  | nil => exact absurd rfl some
  | cons row rest ih =>
      by_cases last : rest = []
      · simp [last]
      · rw [unlines_cons last, infix_append_cons_iff plain, ih last, List.exists_mem_cons_iff]

end Rows

section Count

variable {needle text : Text}

theorem countFrom_skip (skip : Nat) :
    countFrom needle skip text = countFrom needle 0 (text.drop skip) := by
  induction text generalizing skip with
  | nil => cases skip <;> rfl
  | cons char rest ih =>
      cases skip with
      | zero => rfl
      | succ skip => rw [countFrom, ih, List.drop_succ_cons]

theorem not_infix_of_count_eq_zero (nonempty : needle ≠ []) (none : count needle text = 0) :
    ¬ needle <:+: text := by
  rw [count] at none
  induction text with
  | nil => exact fun found => nonempty (List.infix_nil.mp found)
  | cons char rest ih =>
      rw [countFrom] at none
      split at none
      · omega
      · next other =>
          rw [List.infix_cons_iff, not_or]
          exact ⟨fun found => other (List.isPrefixOf_iff_prefix.mpr found), ih none⟩

/-- What is counted is the first occurrence and what stands behind it. -/
theorem count_of_indexOf? (nonempty : needle ≠ []) {index : Nat}
    (first : indexOf? needle text = some index) :
    count needle text = 1 + count needle (text.drop (index + needle.length)) := by
  induction text generalizing index with
  | nil => simp [indexOf?, nonempty] at first
  | cons char rest ih =>
      rw [indexOf?] at first
      rw [count, countFrom]
      split at first
      · next here =>
          cases first
          have length := List.length_pos_iff.mpr nonempty
          obtain ⟨behind, more⟩ := Nat.exists_eq_add_one_of_ne_zero (Nat.ne_of_gt length)
          rw [if_pos here, countFrom_skip, more, Nat.zero_add, List.drop_succ_cons,
            Nat.add_sub_cancel]
          rfl
      · next other =>
          obtain ⟨later, found, rfl⟩ := Option.map_eq_some_iff.mp first
          rw [if_neg other, Nat.add_right_comm, List.drop_succ_cons]
          exact ih found

end Count

end CodeProse.Text
