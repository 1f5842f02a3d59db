import CodeProse.Language.Detection
import CodeProse.Proofs.Text.Occurrence

/-!
# Laws of detection

A word without a line feed is found on each line as if that line stood alone: a line ends where no
character of a word does. So the points of a code are those of its lines, in whatever order the lines
stand, and the language is the first one with the most points.
-/

set_option autoImplicit false

namespace CodeProse

section Words

variable {word : Text} {left right : Option CodePoint}

/-- Of the character in front of a text only this counts, whether it belongs to a word. -/
theorem startsWithWord_congr (same : left.any isWordChar = right.any isWordChar) (text : Text) :
    startsWithWord word left text = startsWithWord word right text := by
  rw [startsWithWord, startsWithWord, isWordBoundary, isWordBoundary, isWordBoundary,
    isWordBoundary, same]
  cases last : word.getLast? with
  | none => rw [Option.none_or, Option.none_or, same]
  | some char => rfl

theorem countWordFrom_congr (same : left.any isWordChar = right.any isWordChar) (skip : Nat)
    (text : Text) : countWordFrom word left skip text = countWordFrom word right skip text := by
  cases text with
  | nil => rw [countWordFrom, countWordFrom, startsWithWord_congr same]
  | cons char rest =>
      cases skip with
      | zero => rw [countWordFrom, countWordFrom, startsWithWord_congr same]
      | succ skip => rfl

variable {front back : Text}

/-- No word ends or starts at a line feed that does not do so at the end of a text. -/
theorem any_head?_append_lineFeed (rest : Text) :
    ((rest ++ .scalar '\n' :: back).head?).any isWordChar = rest.head?.any isWordChar := by
  cases rest with
  | nil => rfl
  | cons char rest => rfl

theorem startsWithWord_append_lineFeed (plain : .scalar '\n' ∉ word) (before : Option CodePoint) :
    startsWithWord word before (front ++ .scalar '\n' :: back) = startsWithWord word before front := by
  have stands : word.isPrefixOf (front ++ .scalar '\n' :: back) = word.isPrefixOf front := by
    rw [Bool.eq_iff_iff, List.isPrefixOf_iff_prefix, List.isPrefixOf_iff_prefix,
      Text.prefix_append_cons_iff plain]
  rw [startsWithWord, startsWithWord, stands]
  cases found : word.isPrefixOf front with
  | false => rfl
  | true =>
      have within : word.length ≤ front.length := (List.isPrefixOf_iff_prefix.mp found).length_le
      rw [isWordBoundary, isWordBoundary, isWordBoundary, isWordBoundary,
        List.drop_append_of_le_length within, any_head?_append_lineFeed,
        any_head?_append_lineFeed]

/-- The words of a text with a line feed are those in front of it and those behind it. -/
theorem countWordFrom_append_lineFeed (plain : .scalar '\n' ∉ word) (before : Option CodePoint)
    {skip : Nat} (within : skip ≤ front.length) :
    countWordFrom word before skip (front ++ .scalar '\n' :: back) =
      countWordFrom word before skip front + countWord word back := by
  induction front generalizing before skip with
  | nil =>
      obtain rfl : skip = 0 := Nat.le_zero.mp within
      have apart : countWordFrom word (some (.scalar '\n')) 0 back = countWord word back :=
        countWordFrom_congr (by decide) 0 back
      have same : startsWithWord word before ([] ++ .scalar '\n' :: back) =
          startsWithWord word before [] :=
        startsWithWord_append_lineFeed plain before
      rw [List.nil_append] at same ⊢
      rw [countWordFrom, countWordFrom, ← same]
      split
      · next starts =>
          -- Only the empty word stands at the end of a text, and it takes up no character.
          have empty : word = [] := by
            rw [same, startsWithWord, Bool.and_eq_true, Bool.and_eq_true,
              List.isPrefixOf_iff_prefix] at starts
            exact List.prefix_nil.mp starts.1.1
          rw [empty] at apart ⊢
          rw [List.length_nil, Nat.zero_sub, apart]
      · rw [apart, Nat.zero_add]
  | cons char rest ih =>
      cases skip with
      | succ skip => exact ih (some char) (Nat.le_of_succ_le_succ within)
      | zero =>
          rw [List.cons_append, countWordFrom, ← List.cons_append,
            startsWithWord_append_lineFeed plain, countWordFrom]
          split
          · next starts =>
              have fits : word.length - 1 ≤ rest.length := by
                rw [startsWithWord, Bool.and_eq_true, Bool.and_eq_true,
                  List.isPrefixOf_iff_prefix] at starts
                have length := starts.1.1.length_le
                rw [List.length_cons] at length
                omega
              rw [ih (some char) fits, Nat.add_assoc]
          · exact ih (some char) (Nat.zero_le _)

theorem countWord_eq_total (plain : .scalar '\n' ∉ word) (text : Text) :
    countWord word text = total (text.lines.map (countWord word)) := by
  have joined : ∀ rows : List Text, rows ≠ [] →
      countWord word (Text.unlines rows) = total (rows.map (countWord word)) := by
    intro rows some
    induction rows with
    | nil => exact absurd rfl some
    | cons row rest ih =>
        by_cases last : rest = []
        · rw [last, Text.unlines_singleton, List.map_singleton, total_cons, total_nil,
            Nat.add_zero]
        · rw [Text.unlines_cons last, List.map_cons, total_cons, ← ih last]
          exact countWordFrom_append_lineFeed plain none (Nat.zero_le _)
  have whole := joined text.lines (Text.lines_ne_nil text)
  rwa [Text.unlines_lines] at whole

end Words

section Points

variable {definition : LanguageDefinition}

/-- The points that one line brings a language. -/
def LanguageDefinition.linePoints (definition : LanguageDefinition) (line : Text) : Nat :=
  2 * total (definition.keywords.map fun keyword => countWord keyword line) +
    definition.comments.lineComments.countP fun pattern => pattern.fits line

theorem LanguageDefinition.score_eq_total
    (plain : ∀ keyword ∈ definition.keywords, .scalar '\n' ∉ keyword) (code : Text) :
    definition.score code = total (code.lines.map definition.linePoints) := by
  have words : definition.keywords.map (fun keyword => countWord keyword code) =
      definition.keywords.map fun keyword => total (code.lines.map (countWord keyword)) :=
    List.map_congr_left fun keyword member => countWord_eq_total (plain keyword member) code
  rw [score, words, total_map_total_map, ← total_map_mul, ← total_map_add]
  rfl

end Points

/-- A language has the most points of some, and none in front of it has as many. -/
def LeadsIn (points : LanguageDefinition → Nat) (definitions : List LanguageDefinition)
    (definition : LanguageDefinition) : Prop :=
  ∃ front back, definitions = front ++ definition :: back ∧
    (∀ other ∈ front, points other < points definition) ∧
    ∀ other ∈ back, points other ≤ points definition

section Leading

variable {points : LanguageDefinition → Nat} {definition other : LanguageDefinition}
  {rest : List LanguageDefinition}

theorem leadsIn_cons_self (most : ∀ other ∈ rest, points other ≤ points definition) :
    LeadsIn points (definition :: rest) definition :=
  ⟨[], rest, rfl, fun _ member => absurd member List.not_mem_nil, most⟩

theorem LeadsIn.cons (leads : LeadsIn points rest definition)
    (fewer : points other < points definition) : LeadsIn points (other :: rest) definition := by
  obtain ⟨front, back, rfl, first, most⟩ := leads
  exact ⟨other :: front, back, rfl, List.forall_mem_cons.mpr ⟨fewer, first⟩, most⟩

/-- The search ends with the language that leads, if it has more points than the best one so far. -/
theorem foldl_betterLanguage (code : Text) (definitions : List LanguageDefinition)
    (best : Text × Nat) :
    (∀ definition ∈ definitions, definition.score code ≤ best.2) ∧
        definitions.foldl (betterLanguage code) best = best ∨
      ∃ definition, LeadsIn (·.score code) definitions definition ∧
        best.2 < definition.score code ∧
        (definitions.foldl (betterLanguage code) best).1 = definition.id := by
  induction definitions generalizing best with
  | nil => exact .inl ⟨fun _ member => absurd member List.not_mem_nil, rfl⟩
  | cons definition rest ih =>
      rw [List.foldl_cons]
      by_cases better : best.2 < definition.score code
      · have step : betterLanguage code best definition = (definition.id, definition.score code) :=
          if_pos better
        rw [step]
        rcases ih (definition.id, definition.score code) with
          ⟨most, kept⟩ | ⟨later, leads, more, found⟩
        · exact .inr ⟨definition, leadsIn_cons_self most, better, congrArg Prod.fst kept⟩
        · exact .inr ⟨later, leads.cons more, Nat.lt_trans better more, found⟩
      · have step : betterLanguage code best definition = best := if_neg better
        rw [step]
        rcases ih best with ⟨most, kept⟩ | ⟨later, leads, more, found⟩
        · exact .inl ⟨List.forall_mem_cons.mpr ⟨Nat.le_of_not_lt better, most⟩, kept⟩
        · exact .inr ⟨later, leads.cons (Nat.lt_of_le_of_lt (Nat.le_of_not_lt better) more), more,
            found⟩

end Leading

namespace Registry

/-- The language that points speak for: the first one with the most points, or the fallback where
none has any. -/
inductive Favours (registry : Registry) (points : LanguageDefinition → Nat) : Text → Prop where
  | language {definition : LanguageDefinition}
      (leads : LeadsIn points registry.definitions definition) (positive : 0 < points definition) :
      Favours registry points definition.id
  | fallback (none : ∀ definition ∈ registry.definitions, points definition = 0) :
      Favours registry points fallbackLanguage

variable {registry : Registry} {code other : Text}

theorem favours_detect (registry : Registry) (code : Text) :
    registry.Favours (·.score code) (registry.detect code) := by
  rw [detect]
  rcases foldl_betterLanguage code registry.definitions (fallbackLanguage, 0) with
    ⟨none, kept⟩ | ⟨definition, leads, positive, found⟩
  · rw [kept]
    exact .fallback fun definition member => Nat.le_zero.mp (none definition member)
  · rw [found]
    exact .language leads positive

theorem detect_congr
    (same : ∀ definition ∈ registry.definitions, definition.score other = definition.score code) :
    registry.detect other = registry.detect code := by
  refine congrArg Prod.fst (List.foldl_ext _ _ _ fun best definition member => ?_)
  rw [betterLanguage, betterLanguage, same definition member]

/-- Where no keyword goes over a line, the points of a code for a language are those that its lines
bring one by one. The language of the code is the one that these points speak for, so it does not
change with the order of the lines. -/
theorem detect_lines (registry : Registry) (code : Text)
    (plain : ∀ definition ∈ registry.definitions, ∀ keyword ∈ definition.keywords,
      .scalar '\n' ∉ keyword) :
    (∀ definition ∈ registry.definitions,
      definition.score code = total (code.lines.map definition.linePoints)) ∧
    registry.Favours (·.score code) (registry.detect code) ∧
    ∀ other : Text, other.lines.Perm code.lines → registry.detect other = registry.detect code := by
  refine ⟨fun definition member => ?_, registry.favours_detect code, fun other same => ?_⟩
  · exact LanguageDefinition.score_eq_total (plain definition member) code
  · refine detect_congr fun definition member => ?_
    rw [LanguageDefinition.score_eq_total (plain definition member),
      LanguageDefinition.score_eq_total (plain definition member)]
    exact total_perm (same.map definition.linePoints)

theorem detect_lines_shuffledCode :
    let code : Text := "class End\n  # class end\nend\nmodule"
    let shuffled : Text := "module\nend\n  # class end\nclass End"
    Registry.builtin.detect shuffled = Registry.builtin.detect code ∧
      Registry.builtin.detect code = "ruby" := by
  intro code shuffled
  have plain : ∀ definition ∈ Registry.builtin.definitions, ∀ keyword ∈ definition.keywords,
      .scalar '\n' ∉ keyword := by
    decide
  have same : shuffled.lines.Perm code.lines := by decide +kernel
  exact ⟨(detect_lines .builtin code plain).2.2 shuffled same, by decide +kernel⟩

end Registry

end CodeProse
