import CodeProse.Document.Coordinates
import CodeProse.Proofs.Document.Position
import CodeProse.Proofs.Text.Lines
import Mathlib.Data.List.TakeWhile

/-!
# Laws of offsets and positions

The positions that lie in a text correspond to its offsets, in order: both checked and
unchecked conversion agree on them, and positions computed from offsets lie in the text.
-/

set_option autoImplicit false

namespace CodeProse

section Lines

@[simp] theorem lineStart_zero (rows : List Text) : lineStart rows 0 = 0 := rfl

@[simp] theorem lineStart_cons_succ (first : Text) (rows : List Text) (line : Nat) :
    lineStart (first :: rows) (line + 1) = first.length + 1 + lineStart rows line := by
  simp [lineStart]

@[simp] theorem lineLength_cons_zero (first : Text) (rows : List Text) :
    lineLength (first :: rows) 0 = first.length := rfl

@[simp] theorem lineLength_cons_succ (first : Text) (rows : List Text) (line : Nat) :
    lineLength (first :: rows) (line + 1) = lineLength rows line := rfl

theorem lineStart_succ {rows : List Text} {line : Nat} (known : line < rows.length) :
    lineStart rows (line + 1) = lineStart rows line + lineLength rows line + 1 := by
  induction rows generalizing line with
  | nil => exact absurd known (Nat.not_lt_zero line)
  | cons first rows ih =>
      cases line with
      | zero => simp
      | succ line =>
          rw [lineStart_cons_succ, ih (Nat.lt_of_succ_lt_succ known), lineStart_cons_succ,
            lineLength_cons_succ]
          omega

/-- A line ends before any later one starts, with the line feed between them. -/
theorem lineEnd_lt_lineStart {rows : List Text} {line later : Nat} (before : line < later)
    (known : later ≤ rows.length) :
    lineStart rows line + lineLength rows line < lineStart rows later := by
  induction later with
  | zero => omega
  | succ later ih =>
      have step := lineStart_succ known
      rcases Nat.lt_or_eq_of_le (Nat.le_of_lt_succ before) with earlier | same
      · have reached := ih earlier (Nat.le_of_succ_le known)
        omega
      · rw [same]
        omega

theorem lineStart_length {rows : List Text} (nonempty : rows ≠ []) :
    lineStart rows rows.length = (Text.unlines rows).length + 1 := by
  induction rows with
  | nil => exact absurd rfl nonempty
  | cons first rows ih =>
      cases rows with
      | nil => simp
      | cons second rows =>
          rw [List.length_cons, lineStart_cons_succ, ih (by simp), Text.unlines_cons_cons]
          simp only [List.length_append, List.length_cons]
          omega

theorem lineEnd_le_length {text : Text} {line : Nat} (known : line < text.lines.length) :
    lineStart text.lines line + lineLength text.lines line ≤ text.length := by
  have before := lineEnd_lt_lineStart known (Nat.le_refl text.lines.length)
  rw [lineStart_length (Text.lines_ne_nil text), Text.unlines_lines] at before
  omega

/-- From the start of a line on a text consists of that line and those behind it. -/
theorem drop_lineStart {rows : List Text} {line : Nat} (known : line < rows.length) :
    (Text.unlines rows).drop (lineStart rows line) = Text.unlines (rows.drop line) := by
  induction rows generalizing line with
  | nil => exact absurd known (Nat.not_lt_zero line)
  | cons first rows ih =>
      cases line with
      | zero => rfl
      | succ line =>
          have inside := Nat.lt_of_succ_lt_succ known
          have some : rows ≠ [] := List.ne_nil_of_length_pos (by omega)
          rw [Text.unlines_cons some, lineStart_cons_succ, ← List.drop_drop, ← List.drop_drop,
            List.drop_left, List.drop_one, List.tail_cons, ih inside, List.drop_succ_cons]

theorem slice_line {text : Text} {line start stop : Nat} (known : line < text.lines.length)
    (within : stop ≤ lineLength text.lines line) :
    slice text (lineStart text.lines line + start) (lineStart text.lines line + stop) =
      slice (text.lines.getD line []) start stop := by
  have rest := drop_lineStart known
  rw [Text.unlines_lines, List.drop_eq_getElem_cons known] at rest
  have row : text.lines.getD line [] = text.lines[line] := by
    simp [List.getD_eq_getElem?_getD, known]
  have short : stop ≤ text.lines[line].length := by
    rw [← row]
    exact within
  have front : (Text.unlines (text.lines[line] :: text.lines.drop (line + 1))).take stop =
      text.lines[line].take stop := by
    cases text.lines.drop (line + 1) with
    | nil => simp
    | cons second rows =>
        rw [Text.unlines_cons_cons]
        exact List.take_append_of_le_length short
  rw [slice_eq_take_drop, Nat.add_sub_add_left, ← List.drop_drop, rest, ← List.drop_take, front,
    row, slice]

/-- Up to a place on a line a text consists of the lines before it and the front of that line. -/
theorem take_lineStart {rows : List Text} {line column : Nat} (known : line < rows.length)
    (within : column ≤ lineLength rows line) :
    (Text.unlines rows).take (lineStart rows line + column) =
      Text.unlines (rows.take line ++ [(rows.getD line []).take column]) := by
  induction rows generalizing line with
  | nil => exact absurd known (Nat.not_lt_zero line)
  | cons first rows ih =>
      cases line with
      | zero =>
          have short : column ≤ first.length := within
          simp only [lineStart_zero, Nat.zero_add, List.take_zero, List.nil_append,
            Text.unlines_singleton, List.getD_cons_zero]
          cases rows with
          | nil => rw [Text.unlines_singleton]
          | cons second rows =>
              rw [Text.unlines_cons_cons, List.take_append_of_le_length short]
      | succ line =>
          have inside := Nat.lt_of_succ_lt_succ known
          have some : rows ≠ [] := List.ne_nil_of_length_pos (by omega)
          have length : first.length + 1 + lineStart rows line + column =
              first.length + (lineStart rows line + column + 1) := by omega
          rw [Text.unlines_cons some, lineStart_cons_succ, List.take_succ_cons, List.cons_append,
            Text.unlines_cons (by simp), List.getD_cons_succ, length, List.take_length_add_append,
            List.take_succ_cons, ih inside within]

/-- From a place on a line on a text consists of the rest of that line and the lines behind it. -/
theorem drop_lineStart_add {rows : List Text} {line column : Nat} (known : line < rows.length)
    (within : column ≤ lineLength rows line) :
    (Text.unlines rows).drop (lineStart rows line + column) =
      Text.unlines ((rows.getD line []).drop column :: rows.drop (line + 1)) := by
  have row : rows.getD line [] = rows[line] := by
    simp [List.getD_eq_getElem?_getD, known]
  have short : column ≤ rows[line].length := by
    rw [← row]
    exact within
  rw [← List.drop_drop, drop_lineStart known, List.drop_eq_getElem_cons known, row]
  cases rows.drop (line + 1) with
  | nil => rw [Text.unlines_singleton, Text.unlines_singleton]
  | cons second rest =>
      rw [Text.unlines_cons_cons, Text.unlines_cons_cons, List.drop_append_of_le_length short]

/-- A stretch from the start of a line up to a place on a later one. -/
theorem slice_lineStart {rows : List Text} {start stop column : Nat} (ordered : start ≤ stop)
    (known : stop < rows.length) (within : column ≤ lineLength rows stop) :
    slice (Text.unlines rows) (lineStart rows start) (lineStart rows stop + column) =
      Text.unlines (slice rows start stop ++ [(rows.getD stop []).take column]) := by
  have reached : (rows.take stop).length = stop := by
    rw [List.length_take, Nat.min_eq_left (Nat.le_of_lt known)]
  have same : lineStart rows start =
      lineStart (rows.take stop ++ [(rows.getD stop []).take column]) start := by
    rw [lineStart, lineStart, List.take_append_of_le_length (by omega), List.take_take,
      Nat.min_eq_left ordered]
  have inside : start < (rows.take stop ++ [(rows.getD stop []).take column]).length := by
    rw [List.length_append, List.length_singleton, reached]
    omega
  rw [slice, take_lineStart known within, same, drop_lineStart inside,
    List.drop_append_of_le_length (by omega), slice]

end Lines

/-- A position that lies in a text: on one of its lines, no further than the end of the line. -/
structure Position.LiesIn (text : Text) (position : Position) : Prop where
  line_nonneg : 0 ≤ position.line
  line_lt : position.line < text.lines.length
  column_nonneg : 0 ≤ position.column
  column_le : position.column ≤ lineLength text.lines position.line.toNat

namespace Position.LiesIn

variable {text : Text} {position left right : Position}

instance : Decidable (position.LiesIn text) :=
  decidable_of_iff ((0 ≤ position.line ∧ position.line < text.lines.length) ∧
      0 ≤ position.column ∧ position.column ≤ lineLength text.lines position.line.toNat)
    ⟨fun ⟨line, column⟩ => ⟨line.1, line.2, column.1, column.2⟩,
      fun ⟨nonneg, less, column, within⟩ => ⟨⟨nonneg, less⟩, column, within⟩⟩

theorem toNat_line_lt (inside : position.LiesIn text) :
    position.line.toNat < text.lines.length :=
  (Int.toNat_lt inside.line_nonneg).mpr inside.line_lt

theorem toNat_column_le (inside : position.LiesIn text) :
    position.column.toNat ≤ lineLength text.lines position.line.toNat :=
  Int.toNat_le.mpr inside.column_le

theorem offsetAt_eq (inside : position.LiesIn text) :
    offsetAt text position =
      lineStart text.lines position.line.toNat + position.column.toNat := by
  have line : clampTo (text.lines.length - 1) position.line = position.line.toNat := by
    have known := inside.toNat_line_lt
    exact Nat.min_eq_left (by omega)
  have column : clampTo (lineLength text.lines position.line.toNat) position.column =
      position.column.toNat := Nat.min_eq_left inside.toNat_column_le
  simp only [offsetAt, line, column]

theorem offsetAt_le_length (inside : position.LiesIn text) :
    offsetAt text position ≤ text.length := by
  have reached := lineEnd_le_length inside.toNat_line_lt
  have column := inside.toNat_column_le
  rw [inside.offsetAt_eq]
  omega

theorem offsetAt_lt (leftInside : left.LiesIn text) (rightInside : right.LiesIn text)
    (before : left < right) : offsetAt text left < offsetAt text right := by
  rw [leftInside.offsetAt_eq, rightInside.offsetAt_eq]
  have leftNonneg := leftInside.line_nonneg
  have leftColumn := leftInside.column_nonneg
  rcases before with earlier | ⟨sameLine, earlier⟩
  · have apart : left.line.toNat < right.line.toNat := by omega
    have reached := lineEnd_lt_lineStart apart (Nat.le_of_lt rightInside.toNat_line_lt)
    have column := leftInside.toNat_column_le
    omega
  · rw [sameLine]
    omega

theorem offsetAt_le (leftInside : left.LiesIn text) (rightInside : right.LiesIn text)
    (before : left ≤ right) : offsetAt text left ≤ offsetAt text right := by
  rcases before with earlier | ⟨sameLine, earlier⟩
  · exact Nat.le_of_lt (leftInside.offsetAt_lt rightInside (.inl earlier))
  · rw [leftInside.offsetAt_eq, rightInside.offsetAt_eq, sameLine]
    omega

theorem offsetAt_lt_iff (leftInside : left.LiesIn text) (rightInside : right.LiesIn text) :
    offsetAt text left < offsetAt text right ↔ left < right := by
  refine ⟨fun before => lt_of_not_ge fun behind => ?_, leftInside.offsetAt_lt rightInside⟩
  exact Nat.not_lt.mpr (rightInside.offsetAt_le leftInside behind) before

theorem offsetAt_le_iff (leftInside : left.LiesIn text) (rightInside : right.LiesIn text) :
    offsetAt text left ≤ offsetAt text right ↔ left ≤ right := by
  rw [← not_lt, ← not_lt, rightInside.offsetAt_lt_iff leftInside]

end Position.LiesIn

/-- The checked offset exists for the positions that lie in the text and is the plain one. -/
theorem checkedOffset?_eq_some_iff {text : Text} {position : Position} {offset : Nat} :
    checkedOffset? text position = some offset ↔
      position.LiesIn text ∧ offsetAt text position = offset := by
  simp only [CodeProse.checkedOffset?]
  constructor
  · intro checked
    split at checked
    · cases checked
    · next known =>
        split at checked
        · cases checked
        · next short =>
            have inside : position.LiesIn text :=
              ⟨by omega, by omega, by omega, Int.not_lt.mp short⟩
            exact ⟨inside, inside.offsetAt_eq.trans (Option.some.inj checked)⟩
  · rintro ⟨inside, rfl⟩
    obtain ⟨lineNonneg, lineLt, columnNonneg, columnLe⟩ := inside
    rw [if_neg (by omega), if_neg (Int.not_lt.mpr columnLe)]
    exact congrArg some (Position.LiesIn.offsetAt_eq ⟨lineNonneg, lineLt, columnNonneg, columnLe⟩).symm

theorem Position.LiesIn.checkedOffset? {text : Text} {position : Position}
    (inside : position.LiesIn text) :
    CodeProse.checkedOffset? text position = some (offsetAt text position) :=
  checkedOffset?_eq_some_iff.mpr ⟨inside, rfl⟩

section PositionAt

/-- The column behind a text: how much of it stands behind its last line feed. -/
private def lastColumn (before : Text) : Nat :=
  (before.reverse.takeWhile (· ≠ .scalar '\n')).length

private theorem lastColumn_of_not_mem {before : Text} (plain : .scalar '\n' ∉ before) :
    lastColumn before = before.length := by
  have whole : before.reverse.takeWhile (· ≠ .scalar '\n') = before.reverse := by
    rw [List.takeWhile_eq_self_iff]
    intro char member
    have other : char ≠ '\n' := fun same => plain (same ▸ List.mem_reverse.mp member)
    simpa using other
  rw [lastColumn, whole, List.length_reverse]

private theorem lastColumn_cons_of_mem (char : CodePoint) {before : Text}
    (feed : .scalar '\n' ∈ before) :
    lastColumn (char :: before) = lastColumn before := by
  have stops : (before.reverse.takeWhile (· ≠ .scalar '\n')).length ≠ before.reverse.length := by
    intro whole
    have all := (List.takeWhile_prefix (l := before.reverse) (· ≠ .scalar '\n')).eq_of_length whole
    rw [List.takeWhile_eq_self_iff] at all
    simpa using all (.scalar '\n') (List.mem_reverse.mpr feed)
  rw [lastColumn, lastColumn, List.reverse_cons, List.takeWhile_append, if_neg stops]

private theorem lastColumn_lineFeed_cons (before : Text) :
    lastColumn (.scalar '\n' :: before) = lastColumn before := by
  by_cases feed : .scalar '\n' ∈ before
  · exact lastColumn_cons_of_mem (.scalar '\n') feed
  · have whole : (before.reverse ++ [CodePoint.scalar '\n']).takeWhile (· ≠ .scalar '\n') =
        before.reverse := by
      rw [List.takeWhile_append_of_pos]
      · simp
      · intro char member
        have other : char ≠ '\n' := fun same => feed (same ▸ List.mem_reverse.mp member)
        simpa using other
    rw [lastColumn_of_not_mem feed, lastColumn, List.reverse_cons, whole, List.length_reverse]

private theorem positionAt_natCast {text : Text} {offset : Nat} (within : offset ≤ text.length) :
    positionAt text offset =
      ⟨(text.take offset).count (.scalar '\n'), lastColumn (text.take offset)⟩ := by
  have same : clampTo text.length offset = offset := by
    rw [clampTo, Int.toNat_natCast, Nat.min_eq_left within]
  simp only [positionAt, same, lastColumn]

/-- The line and column of an offset, with what they say about the lines of the text. The
induction is on the text: one character in front moves either the line or, on the first line,
the column. -/
private theorem lines_at_offset {text : Text} {offset : Nat} (within : offset ≤ text.length) :
    let line := (text.take offset).count (.scalar '\n')
    let column := lastColumn (text.take offset)
    line < text.lines.length ∧ column ≤ lineLength text.lines line ∧
      lineStart text.lines line + column = offset := by
  induction text generalizing offset with
  | nil =>
      have start : offset = 0 := Nat.le_zero.mp within
      subst start
      simp [lastColumn]
  | cons char rest ih =>
      cases offset with
      | zero => simp [lastColumn, Text.length_lines_pos]
      | succ offset =>
          have inside : offset ≤ rest.length := Nat.le_of_succ_le_succ within
          obtain ⟨known, short, reached⟩ := ih inside
          rw [List.take_succ_cons]
          by_cases feed : char = '\n'
          · subst feed
            simp only [List.count_cons_self, lastColumn_lineFeed_cons, Text.lines_lineFeed_cons,
              List.length_cons, lineLength_cons_succ, lineStart_cons_succ, List.length_nil]
            exact ⟨Nat.succ_lt_succ known, short, by omega⟩
          · obtain ⟨first, further, split⟩ := Text.exists_lines_eq_cons rest
            rw [split] at known short reached
            rw [Text.lines_cons feed, split, List.modifyHead_cons, List.count_cons_of_ne feed]
            by_cases later : .scalar '\n' ∈ rest.take offset
            · obtain ⟨line, counted⟩ := Nat.exists_eq_succ_of_ne_zero
                (List.count_pos_iff.mpr later).ne'
              rw [counted] at known short reached ⊢
              simp only [lastColumn_cons_of_mem char later, lineStart_cons_succ,
                lineLength_cons_succ, List.length_cons] at known short reached ⊢
              exact ⟨known, short, by omega⟩
            · have plain : .scalar '\n' ∉ char :: rest.take offset := by
                simp [later, Ne.symm feed]
              rw [List.count_eq_zero_of_not_mem later] at known short reached ⊢
              simp only [lastColumn_of_not_mem plain, lastColumn_of_not_mem later,
                lineStart_zero, lineLength_cons_zero, List.length_cons] at known short reached ⊢
              exact ⟨known, by omega, by omega⟩

/-- The position of an offset depends on what stands in front of it alone. -/
theorem positionAt_take {text : Text} {offset : Nat} (within : offset ≤ text.length) :
    positionAt (text.take offset) offset = positionAt text offset := by
  rw [positionAt_natCast within, positionAt_natCast (List.length_take_of_le within).ge,
    List.take_take, Nat.min_self]

theorem positionAt_liesIn {text : Text} {offset : Nat} (within : offset ≤ text.length) :
    (positionAt text offset).LiesIn text := by
  obtain ⟨known, short, -⟩ := lines_at_offset within
  rw [positionAt_natCast within]
  exact ⟨Int.natCast_nonneg _, Int.ofNat_lt.mpr known, Int.natCast_nonneg _,
    Int.ofNat_le.mpr short⟩

@[simp] theorem offsetAt_positionAt {text : Text} {offset : Nat}
    (within : offset ≤ text.length) : offsetAt text (positionAt text offset) = offset := by
  obtain ⟨-, -, reached⟩ := lines_at_offset within
  rw [(positionAt_liesIn within).offsetAt_eq, positionAt_natCast within]
  exact reached

theorem Position.LiesIn.positionAt_offsetAt {text : Text} {position : Position}
    (inside : position.LiesIn text) : positionAt text (offsetAt text position) = position := by
  have within := inside.offsetAt_le_length
  have there := positionAt_liesIn within
  have same : offsetAt text (positionAt text (offsetAt text position)) = offsetAt text position :=
    offsetAt_positionAt within
  rcases lt_trichotomy (positionAt text (offsetAt text position)) position
    with before | equal | behind
  · exact absurd same (Nat.ne_of_lt (there.offsetAt_lt inside before))
  · exact equal
  · exact absurd same.symm (Nat.ne_of_lt (inside.offsetAt_lt there behind))

/-- Up to a position a text has as many lines as the position has lines before it, and its own. -/
theorem Position.LiesIn.length_lines_take {text : Text} {position : Position}
    (inside : position.LiesIn text) :
    (Text.lines (text.take (offsetAt text position))).length = position.line.toNat + 1 := by
  have place := positionAt_natCast inside.offsetAt_le_length
  rw [inside.positionAt_offsetAt] at place
  have line : position.line = (List.count (.scalar '\n') (text.take (offsetAt text position)) : Int) :=
    congrArg Position.line place
  rw [Text.length_lines, line, Int.toNat_natCast]

private theorem lastColumn_append (front back : Text) :
    lastColumn (front ++ back) =
      if .scalar '\n' ∈ back then lastColumn back else lastColumn front + back.length := by
  induction front with
  | nil =>
      split
      · rfl
      · next plain => simpa [lastColumn] using lastColumn_of_not_mem plain
  | cons char rest ih =>
      rw [List.cons_append]
      by_cases feed : char = '\n'
      · rw [feed, lastColumn_lineFeed_cons, lastColumn_lineFeed_cons, ih]
      · by_cases later : .scalar '\n' ∈ rest ++ back
        · rw [lastColumn_cons_of_mem char later, ih]
          split
          · rfl
          · next plain =>
              have earlier : .scalar '\n' ∈ rest := (List.mem_append.mp later).resolve_right plain
              rw [lastColumn_cons_of_mem char earlier]
        · have plain : .scalar '\n' ∉ char :: (rest ++ back) := by simp [later, Ne.symm feed]
          have plainBack : .scalar '\n' ∉ back :=
            fun present => later (List.mem_append_right rest present)
          have plainFront : .scalar '\n' ∉ char :: rest := by
            rw [List.mem_append, not_or] at later
            simp [later.1, Ne.symm feed]
          rw [if_neg plainBack, lastColumn_of_not_mem plain, lastColumn_of_not_mem plainFront,
            List.length_cons, List.length_append, List.length_cons]
          omega

/-- A position in a part of a text, counted from where the part starts. -/
theorem positionAt_add {text part : Text} {start offset : Nat} (front : part <+: text.drop start)
    (startWithin : start ≤ text.length) (within : offset ≤ part.length) :
    positionAt text ((start + offset : Nat) : Int) =
      (positionAt text start).within (positionAt part offset).line.toNat
        (positionAt part offset).column.toNat := by
  have reached : start + offset ≤ text.length := by
    have short := front.length_le
    rw [List.length_drop] at short
    omega
  have cut : text.take (start + offset) = text.take start ++ part.take offset := by
    obtain ⟨rest, joined⟩ := front
    rw [List.take_add, ← joined, List.take_append_of_le_length within]
  rw [positionAt_natCast reached, positionAt_natCast startWithin, positionAt_natCast within, cut,
    List.count_append, lastColumn_append, Position.within]
  simp only [Int.toNat_natCast, List.count_eq_zero]
  split
  · simp
  · next plain =>
      rw [List.count_eq_zero_of_not_mem plain, lastColumn_of_not_mem plain]
      simp

/-- What a position in a part of a text is in the text: it lies there, as far behind the start of the
part as it is in the part. -/
theorem Position.LiesIn.within {text part : Text} {origin position : Position}
    (start : origin.LiesIn text) (front : part <+: text.drop (offsetAt text origin))
    (inside : position.LiesIn part) :
    (origin.within position.line.toNat position.column.toNat).LiesIn text ∧
      offsetAt text (origin.within position.line.toNat position.column.toNat) =
        offsetAt text origin + offsetAt part position := by
  have startWithin := start.offsetAt_le_length
  have within := inside.offsetAt_le_length
  have reached : offsetAt text origin + offsetAt part position ≤ text.length := by
    have short := front.length_le
    rw [List.length_drop] at short
    omega
  have place := positionAt_add front startWithin within
  rw [start.positionAt_offsetAt, inside.positionAt_offsetAt] at place
  rw [← place]
  exact ⟨positionAt_liesIn reached, offsetAt_positionAt reached⟩

end PositionAt

end CodeProse
