import CodeProse.Text.Basic
import CodeProse.Proofs.Sequence

/-!
# Laws of lines

How the lines of a text grow with the text, that they hold no line feed, and that joining them
gives the text back.
-/

set_option autoImplicit false

namespace CodeProse.Text

@[simp] theorem lines_nil : lines [] = [[]] := rfl

@[simp] theorem lines_lineFeed_cons (text : Text) :
    lines (.scalar '\n' :: text) = [] :: lines text := by
  simp [lines, List.splitOn_cons_eq_if_modifyHead]

theorem lines_cons {char : CodePoint} (other : char ≠ '\n') (text : Text) :
    lines (char :: text) = (lines text).modifyHead (char :: ·) := by
  simp [lines, List.splitOn_cons_eq_if_modifyHead, other]

@[simp] theorem lines_ne_nil (text : Text) : lines text ≠ [] :=
  List.splitOn_ne_nil _ text

theorem length_lines_pos (text : Text) : 0 < (lines text).length :=
  List.length_pos_iff.mpr (lines_ne_nil text)

theorem exists_lines_eq_cons (text : Text) : ∃ first further, lines text = first :: further :=
  List.exists_cons_of_ne_nil (lines_ne_nil text)

theorem length_lines (text : Text) : (lines text).length = List.count (.scalar '\n') text + 1 := by
  induction text with
  | nil => rfl
  | cons char rest ih =>
      by_cases feed : char = '\n'
      · rw [feed, lines_lineFeed_cons, List.length_cons, ih, List.count_cons_self]
      · rw [lines_cons feed, List.length_modifyHead, ih, List.count_cons_of_ne feed]

@[simp] theorem unlines_lines (text : Text) : unlines (lines text) = text :=
  List.intercalate_splitOn _

theorem lines_unlines {rows : List Text} (plain : ∀ row ∈ rows, .scalar '\n' ∉ row) (some : rows ≠ []) :
    lines (unlines rows) = rows :=
  List.splitOn_intercalate _ plain some

theorem lineFeed_not_mem_of_mem_lines {text row : Text} (member : row ∈ lines text) :
    .scalar '\n' ∉ row := by
  induction text generalizing row with
  | nil =>
      rw [lines_nil, List.mem_singleton] at member
      simp [member]
  | cons char rest ih =>
      by_cases feed : char = '\n'
      · rw [feed, lines_lineFeed_cons, List.mem_cons] at member
        rcases member with rfl | later
        · simp
        · exact ih later
      · obtain ⟨first, further, split⟩ := exists_lines_eq_cons rest
        rw [lines_cons feed, split, List.modifyHead_cons, List.mem_cons] at member
        rcases member with rfl | later
        · have plain : .scalar '\n' ∉ first := ih (split ▸ List.mem_cons_self)
          simp [plain, Ne.symm feed]
        · exact ih (split ▸ List.mem_cons_of_mem _ later)

theorem lineFeed_not_mem_getD {rows : List Text} (plain : ∀ row ∈ rows, .scalar '\n' ∉ row)
    (index : Nat) : .scalar '\n' ∉ rows.getD index [] := by
  rw [List.getD_eq_getElem?_getD]
  cases found : rows[index]? with
  | none => simp
  | some row => exact plain row (List.mem_of_getElem? found)

@[simp] theorem unlines_singleton (row : Text) : unlines [row] = row := by
  simp [unlines]

theorem lines_of_not_mem {row : Text} (plain : .scalar '\n' ∉ row) : lines row = [row] := by
  have whole : lines (unlines [row]) = [row] :=
    lines_unlines (by simpa using plain) (List.cons_ne_nil _ _)
  rwa [unlines_singleton] at whole

theorem unlines_cons_cons (first second : Text) (rows : List Text) :
    unlines (first :: second :: rows) = first ++ .scalar '\n' :: unlines (second :: rows) := by
  simp [unlines, List.intercalate_cons_cons]

theorem unlines_cons {first : Text} {rows : List Text} (some : rows ≠ []) :
    unlines (first :: rows) = first ++ .scalar '\n' :: unlines rows := by
  obtain ⟨second, rest, rfl⟩ := List.exists_cons_of_ne_nil some
  exact unlines_cons_cons first second rest

theorem unlines_append_concat (rows : List Text) (row back : Text) :
    unlines (rows ++ [row ++ back]) = unlines (rows ++ [row]) ++ back := by
  induction rows with
  | nil => simp
  | cons first rest ih =>
      rw [List.cons_append, unlines_cons (by simp), ih, List.cons_append, unlines_cons (by simp),
        List.append_assoc, List.cons_append]

theorem prefix_unlines_cons {front row : Text} (rows : List Text) (within : front <+: row) :
    front <+: unlines (row :: rows) := by
  cases rows with
  | nil => rwa [unlines_singleton]
  | cons second rows =>
      rw [unlines_cons_cons]
      exact within.trans (List.prefix_append row _)

theorem suffix_unlines_concat (rows : List Text) (row back : Text) :
    back <:+ unlines (rows ++ [row ++ back]) := by
  rw [unlines_append_concat]
  exact List.suffix_append _ back

theorem prefix_headD_lines (text : Text) : text.lines.headD [] <+: text := by
  obtain ⟨first, further, split⟩ := exists_lines_eq_cons text
  have front := prefix_unlines_cons further (List.prefix_refl first)
  rw [← split, unlines_lines] at front
  rw [split]
  exact front

theorem lines_append_lineFeed_cons (front back : Text) :
    lines (front ++ .scalar '\n' :: back) = lines front ++ lines back := by
  induction front with
  | nil => rw [List.nil_append, lines_lineFeed_cons, lines_nil, List.singleton_append]
  | cons char rest ih =>
      rw [List.cons_append]
      by_cases feed : char = '\n'
      · rw [feed, lines_lineFeed_cons, lines_lineFeed_cons, ih, List.cons_append]
      · obtain ⟨first, further, split⟩ := exists_lines_eq_cons rest
        rw [lines_cons feed, lines_cons feed, ih, split, List.cons_append, List.modifyHead_cons,
          List.modifyHead_cons, List.cons_append]

theorem length_lines_append (front back : Text) :
    (lines (front ++ back)).length + 1 = (lines front).length + (lines back).length := by
  rw [length_lines, length_lines, length_lines, List.count_append]
  omega

/-- Behind the last line of a front, which goes on with the first line of the rest, come the other
lines of the rest. -/
theorem drop_lines_append (front back : Text) :
    (lines (front ++ back)).drop (lines front).length = (lines back).tail := by
  induction front with
  | nil => rw [List.nil_append, lines_nil, List.length_singleton, List.drop_one]
  | cons char rest ih =>
      rw [List.cons_append]
      by_cases feed : char = '\n'
      · rw [feed, lines_lineFeed_cons, lines_lineFeed_cons, List.length_cons, List.drop_succ_cons, ih]
      · obtain ⟨first, further, split⟩ := exists_lines_eq_cons (rest ++ back)
        rw [split] at ih
        rw [lines_cons feed, lines_cons feed, List.length_modifyHead, split, List.modifyHead_cons,
          ← ih]
        obtain ⟨height, positive⟩ := Nat.exists_eq_add_one.mpr (length_lines_pos rest)
        rw [positive, List.drop_succ_cons, List.drop_succ_cons]

theorem lines_append_of_not_mem {front : Text} (plain : .scalar '\n' ∉ front) (text : Text) :
    lines (front ++ text) = (lines text).modifyHead (front ++ ·) := by
  induction front with
  | nil =>
      obtain ⟨first, further, split⟩ := exists_lines_eq_cons text
      rw [split]
      exact split
  | cons char rest ih =>
      rw [List.mem_cons, not_or] at plain
      obtain ⟨other, plainRest⟩ := plain
      obtain ⟨first, further, split⟩ := exists_lines_eq_cons text
      rw [List.cons_append, lines_cons (Ne.symm other), ih plainRest, split]
      rfl

/-- A last row with line feeds in it is as many lines. -/
theorem lines_unlines_concat {rows : List Text} (plain : ∀ row ∈ rows, .scalar '\n' ∉ row)
    (last : Text) :
    lines (unlines (rows ++ [last])) = rows ++ lines last := by
  induction rows with
  | nil => rw [List.nil_append, unlines_singleton, List.nil_append]
  | cons row rows ih =>
      obtain ⟨here, further⟩ := List.forall_mem_cons.mp plain
      rw [List.cons_append, unlines_cons (by simp), lines_append_lineFeed_cons, ih further,
        lines_of_not_mem here]
      rfl

end CodeProse.Text
