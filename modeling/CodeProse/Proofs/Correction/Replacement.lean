import CodeProse.Correction.Replacement
import CodeProse.Proofs.Prose.Closers

/-!
# Laws of replacements

A replacement comes about in one of three ways. Each of them keeps what stands in front of the first
line that it changes and behind the last one, as far as the prose does not reach into it.
-/

set_option autoImplicit false

namespace CodeProse

open Text (RowsWithin)

section Strategies

/-- Whether the lines of a source are written anew: its prose stands in it neither as a whole nor
line by line. -/
def isRebuilt (source draft corrected : Text) : Bool :=
  draft ≠ corrected && (draft.isEmpty || !Text.contains draft source) &&
    (draft.lines.length ≠ corrected.lines.length ||
      (spliceLines? (draft.lines.zip corrected.lines) source.lines).isNone)

/-- The ways in which a source gets another prose. -/
inductive Replaces (source draft corrected : Text) : Text → Prop where
  | unchanged (same : draft = corrected) : Replaces source draft corrected source
  | verbatim {place : Nat} (found : Text.indexOf? draft source = some place) (some : draft ≠ []) :
      Replaces source draft corrected
        (source.take place ++ corrected ++ source.drop (place + draft.length))
  | spliced {rows : List Text} (aligned : draft.lines.length = corrected.lines.length)
      (found : spliceLines? (draft.lines.zip corrected.lines) source.lines = some rows) :
      Replaces source draft corrected (Text.unlines rows)
  | rebuilt (anew : isRebuilt source draft corrected = true) :
      Replaces source draft corrected (Text.unlines (rebuild source.lines corrected.lines))

theorem buildReplacement_replaces (source draft corrected : Text) :
    Replaces source draft corrected (buildReplacement source draft corrected) := by
  rw [buildReplacement]
  split
  · next same => exact .unchanged same
  · next different =>
      split
      · next whole =>
          obtain ⟨some, present⟩ := Bool.and_eq_true_iff.mp whole
          obtain ⟨place, found⟩ := Option.isSome_iff_exists.mp present
          rw [Text.replaceFirst, found]
          exact .verbatim found (by simpa using some)
      · next parted =>
          have nowhere : (draft.isEmpty || !Text.contains draft source) = true := by
            cases empty : draft.isEmpty with
            | true => rfl
            | false =>
                rw [empty] at parted
                simpa using parted
          split
          · next aligned =>
              cases found : spliceLines? (draft.lines.zip corrected.lines) source.lines with
              | some rows => exact .spliced aligned found
              | none => exact .rebuilt (by simp [isRebuilt, different, nowhere, found])
          · next unequal => exact .rebuilt (by simp [isRebuilt, different, nowhere, unequal])

end Strategies

section Splicing

/-- How the lines of a draft are replaced in some rows: a blank one is passed over, any other one is
replaced in the first row that holds it, and the search goes on behind that row. -/
inductive Splices : List (Text × Text) → List Text → List Text → Prop where
  | done {rows : List Text} : Splices [] rows rows
  | blank {draft corrected : Text} {pairs : List (Text × Text)} {rows result : List Text}
      (empty : Text.isBlank draft = true) (none : Text.isBlank corrected = true)
      (further : Splices pairs rows result) : Splices ((draft, corrected) :: pairs) rows result
  | line {draft corrected : Text} {pairs : List (Text × Text)} {rows rest : List Text} {index : Nat}
      (solid : Text.isBlank draft = false)
      (found : rows.findIdx? (Text.contains draft) = some index)
      (further : Splices pairs (rows.drop (index + 1)) rest) :
      Splices ((draft, corrected) :: pairs) rows
        (rows.take index ++ Text.replaceFirst draft corrected (rows.getD index []) :: rest)

theorem spliceLines?_eq_some_iff {pairs : List (Text × Text)} {rows result : List Text} :
    spliceLines? pairs rows = some result ↔ Splices pairs rows result := by
  constructor
  · intro spliced
    induction pairs generalizing rows result with
    | nil =>
        cases spliced
        exact .done
    | cons pair pairs ih =>
        obtain ⟨draft, corrected⟩ := pair
        rw [spliceLines?] at spliced
        split at spliced
        · next empty =>
            split at spliced
            · next none => exact .blank empty none (ih spliced)
            · cases spliced
        · next solid =>
            cases found : rows.findIdx? (Text.contains draft) with
            | none => simp [found] at spliced
            | some index =>
                simp only [found, Option.map_eq_some_iff] at spliced
                obtain ⟨rest, further, rfl⟩ := spliced
                exact .line (by simpa using solid) found (ih further)
  · intro splices
    induction splices with
    | done => rfl
    | blank empty none further ih => rw [spliceLines?, if_pos empty, if_pos none, ih]
    | line solid found further ih =>
        rw [spliceLines?, if_neg (ne_true_of_eq_false solid), found]
        simp only [ih, Option.map_some]

theorem exists_indexOf?_le {needle text : Text} {place : Nat} (here : needle <+: text.drop place) :
    ∃ first ≤ place, Text.indexOf? needle text = some first := by
  have present : needle <:+: text := here.isInfix.trans (List.drop_suffix place text).isInfix
  obtain ⟨first, found⟩ := Option.isSome_iff_exists.mp (Text.contains_iff_isInfix.mpr present)
  obtain ⟨-, nowhere⟩ := Text.indexOf?_eq_some found
  exact ⟨first, Nat.not_lt.mp fun before => nowhere place before here, found⟩

variable {draft corrected : Text} {pairs : List (Text × Text)}

/-- Where the first line of the draft is found behind the front of the source, the front is kept. -/
theorem splice_keeps_front {front row : Text} {rows result : List Text}
    (solid : Text.isBlank draft = false) (within : front <+: row)
    (behind : ∀ place, Text.indexOf? draft row = some place → front.length ≤ place)
    (spliced : spliceLines? ((draft, corrected) :: pairs) (row :: rows) = some result) :
    ∃ changed rest, result = changed :: rest ∧ front <+: changed := by
  cases spliceLines?_eq_some_iff.mp spliced with
  | blank empty none further =>
      rw [solid] at empty
      cases empty
  | @line _ _ _ _ rest index _ found further =>
      cases index with
      | succ index => exact ⟨row, _, rfl, within⟩
      | zero =>
          refine ⟨Text.replaceFirst draft corrected row, rest, rfl, ?_⟩
          rw [Text.replaceFirst]
          cases first : Text.indexOf? draft row with
          | none => exact within
          | some place =>
              have cut : front <+: row.take place :=
                List.prefix_take_iff.mpr ⟨within, behind place first⟩
              exact cut.trans ((List.prefix_append _ corrected).trans (List.prefix_append _ _))

theorem replaceFirst_keeps_back (corrected back : Text) {before : Text}
    (present : draft <:+: before) :
    ∃ changed, Text.replaceFirst draft corrected (before ++ back) = changed ++ back := by
  obtain ⟨first, more, joined⟩ := present
  have here : draft <+: (before ++ back).drop first.length := by
    refine ⟨more ++ back, ?_⟩
    rw [← joined, List.append_assoc first, List.append_assoc first, List.drop_left,
      List.append_assoc]
  obtain ⟨place, early, found⟩ := exists_indexOf?_le here
  have short : place + draft.length ≤ before.length := by
    rw [← joined, List.length_append, List.length_append]
    omega
  refine ⟨(before ++ back).take place ++ corrected ++ before.drop (place + draft.length), ?_⟩
  rw [Text.replaceFirst, found, List.append_assoc _ _ back, ← List.drop_append_of_le_length short]

theorem exists_findIdx?_le {rows : List Text} {place : Nat} (known : place < rows.length)
    (stands : draft <:+: rows.getD place []) :
    ∃ index ≤ place, rows.findIdx? (Text.contains draft) = some index := by
  have row : rows.getD place [] = rows[place] := by simp [List.getD_eq_getElem?_getD, known]
  have here : Text.contains draft rows[place] = true :=
    Text.contains_iff_isInfix.mpr (row ▸ stands)
  cases found : rows.findIdx? (Text.contains draft) with
  | none =>
      have nowhere := List.findIdx?_eq_none_iff.mp found rows[place] (List.getElem_mem known)
      rw [here] at nowhere
      cases nowhere
  | some index =>
      obtain ⟨_, _, nowhere⟩ := List.findIdx?_eq_some_iff_getElem.mp found
      refine ⟨index, ?_, rfl⟩
      by_contra beyond
      exact nowhere place (Nat.not_le.mp beyond) here

theorem findIdx?_le {rows : List Text} {before back : Text} {place index : Nat}
    (known : place < (rows ++ [before]).length)
    (stands : draft <:+: (rows ++ [before]).getD place [])
    (found : (rows ++ [before ++ back]).findIdx? (Text.contains draft) = some index) :
    index ≤ place := by
  rw [List.length_append, List.length_singleton] at known
  have whole : draft <:+: (rows ++ [before ++ back]).getD place [] := by
    rcases Nat.lt_or_eq_of_le (Nat.le_of_lt_succ known) with earlier | last
    · simpa [List.getD_eq_getElem?_getD, List.getElem?_append_left earlier] using stands
    · rw [last, getD_concat_length] at stands ⊢
      exact stands.trans (List.prefix_append before back).isInfix
  obtain ⟨first, early, same⟩ := exists_findIdx?_le (by simpa using known) whole
  rw [found] at same
  cases same
  exact early

/-- Where the draft stands row by row in a source without its last bit, that bit is kept. The
induction goes through the lines of the draft: each of them is found no later than where it stands,
so that the ones behind it still stand in the rows that are left. -/
theorem splice_keeps_back {rows result : List Text} {before back : Text}
    (within : RowsWithin (pairs.map Prod.fst) (rows ++ [before]))
    (spliced : spliceLines? pairs (rows ++ [before ++ back]) = some result) :
    ∃ kept changed, result = kept ++ [changed ++ back] := by
  induction pairs generalizing rows result with
  | nil =>
      cases spliced
      exact ⟨rows, before, rfl⟩
  | cons pair pairs ih =>
      obtain ⟨draft, corrected⟩ := pair
      obtain ⟨place, known, stands, later⟩ := within.exists_row
      cases spliceLines?_eq_some_iff.mp spliced with
      | blank empty none further =>
          have all : RowsWithin (pairs.map Prod.fst) (rows ++ [before]) :=
            (later 0 (Nat.zero_le place)).trans (.of_isInfix (List.drop_suffix _ _).isInfix)
          exact ih all (spliceLines?_eq_some_iff.mpr further)
      | @line _ _ _ _ rest index solid found further =>
          have early : index ≤ place := findIdx?_le known stands found
          have reached : place ≤ rows.length := by
            rw [List.length_append, List.length_singleton] at known
            omega
          have remaining := later index early
          rcases Nat.lt_or_eq_of_le (Nat.le_trans early reached) with earlier | last
          · rw [List.drop_append_of_le_length earlier] at remaining further
            obtain ⟨kept, changed, rfl⟩ := ih remaining (spliceLines?_eq_some_iff.mpr further)
            refine ⟨(rows ++ [before ++ back]).take index ++
              Text.replaceFirst draft corrected ((rows ++ [before ++ back]).getD index []) :: kept,
              changed, ?_⟩
            rw [List.append_assoc, List.cons_append]
          · have here : place = rows.length := by omega
            rw [here, getD_concat_length] at stands
            obtain ⟨changed, kept⟩ := replaceFirst_keeps_back corrected back stands
            rw [last, List.drop_of_length_le (by simp)] at remaining further
            rw [List.map_eq_nil_iff.mp remaining.eq_nil] at further
            cases further
            refine ⟨rows, changed, ?_⟩
            rw [last, List.take_left, getD_concat_length]
            exact congrArg (fun row => rows ++ [row]) kept

end Splicing

section Rebuilding

variable {first last front back before : Text} {inner corrected : List Text}

theorem rebuild_eq_rebuildLines (first : Text) (inner : List Text) (last : Text)
    (corrected : List Text) :
    rebuild (first :: inner ++ [last]) corrected = rebuildLines first inner last corrected := by
  cases inner with
  | nil => rfl
  | cons second inner =>
      have front : (second :: inner ++ [last]).dropLast = second :: inner :=
        List.dropLast_concat
      rw [List.cons_append] at front
      have final : (second :: (inner ++ [last])).getLastD [] = last := by
        simp [List.getLast?_cons]
      show rebuildLines first (second :: (inner ++ [last])).dropLast
        ((second :: (inner ++ [last])).getLastD []) corrected = _
      rw [front, final]

theorem exists_appendToLast_eq_cons (suffix row : Text) (rows : List Text) :
    ∃ changed rest, appendToLast suffix (row :: rows) = changed :: rest ∧ row <+: changed := by
  cases rows with
  | nil => exact ⟨row ++ suffix, [], rfl, List.prefix_append row suffix⟩
  | cons second rows => exact ⟨row, _, rfl, List.prefix_refl row⟩

theorem exists_appendToLast_eq_concat (suffix row : Text) (rows : List Text) :
    ∃ kept changed, appendToLast suffix (row :: rows) = kept ++ [changed ++ suffix] := by
  induction rows generalizing row with
  | nil => exact ⟨[], row, rfl⟩
  | cons second rows ih =>
      obtain ⟨kept, changed, joined⟩ := ih second
      exact ⟨row :: kept, changed, congrArg (row :: ·) joined⟩

theorem prefix_frontedLine {lead : Text} (line : Text)
    (solid : front.getLast?.any fun last => !isBlank last) (within : front <+: lead) :
    front <+: frontedLine lead line := by
  have whole : front <+: lead ++ line := within.trans (List.prefix_append lead line)
  rw [frontedLine]
  split
  · exact Text.prefix_dropEndWhile_of_prefix whole solid
  · exact whole

/-- The front of the first line is kept as far as it is taken for the opener. -/
theorem rebuildLines_keeps_front (inner : List Text) (last : Text) (some : corrected ≠ [])
    (within : front <+: first) (solid : front.getLast?.any fun last => !isBlank last)
    (opener : front.length ≤ frontLength openerMarker first) :
    ∃ changed rest, rebuildLines first inner last corrected = changed :: rest ∧
      front <+: changed := by
  obtain ⟨line, lines, rfl⟩ := List.exists_cons_of_ne_nil some
  rw [rebuildLines]
  cases bare : Text.isBlank (first.drop (frontLength openerMarker first)) with
  | true => exact ⟨first, _, rfl, within⟩
  | false =>
      have lead : front <+: first.take (frontLength openerMarker first) :=
        List.prefix_take_iff.mpr ⟨within, opener⟩
      simp only [Bool.false_eq_true, if_false, List.nil_append]
      generalize (if Text.isBlank (last.take (backStart last)) = true then ([] : Text)
        else last.drop (backStart last)) = suffix
      obtain ⟨changed, rest, joined, kept⟩ := exists_appendToLast_eq_cons suffix
        (frontedLine (first.take (frontLength openerMarker first)) line)
        (lines.map (frontedLine (continuationFront first (inner ++ [last]))))
      rw [joined]
      exact ⟨changed, _, rfl, (prefix_frontedLine line solid lead).trans kept⟩

/-- The end of the last line is kept from where it is taken for the closer. -/
theorem rebuildLines_keeps_back (first : Text) (inner : List Text) (some : corrected ≠ [])
    (whole : last = before ++ back) (closer : backStart last ≤ before.length) :
    ∃ kept changed, rebuildLines first inner last corrected = kept ++ [changed ++ back] := by
  obtain ⟨line, lines, rfl⟩ := List.exists_cons_of_ne_nil some
  rw [rebuildLines]
  cases bare : Text.isBlank (last.take (backStart last)) with
  | true => exact ⟨_, before, by rw [if_pos rfl, if_pos rfl, ← whole]⟩
  | false =>
      have ending : last.drop (backStart last) = before.drop (backStart last) ++ back := by
        conv => lhs; arg 2; rw [whole]
        rw [List.drop_append_of_le_length closer]
      simp only [Bool.false_eq_true, if_false, List.append_nil]
      obtain ⟨kept, changed, joined⟩ := exists_appendToLast_eq_concat
        (last.drop (backStart last)) (frontedLine
          (if Text.isBlank (first.drop (frontLength openerMarker first)) then
            continuationFront first (inner ++ [last])
          else first.take (frontLength openerMarker first)) line)
        (lines.map (frontedLine (continuationFront first (inner ++ [last]))))
      rw [joined, ending]
      refine ⟨(if Text.isBlank (first.drop (frontLength openerMarker first)) = true then [first]
        else []) ++ kept, changed ++ before.drop (backStart last), ?_⟩
      rw [List.append_assoc, List.append_assoc]

end Rebuilding

end CodeProse
