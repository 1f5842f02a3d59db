import CodeProse.Correction.Prompt
import CodeProse.Proofs.Text.Occurrence

/-!
# Laws of prompts

A request quotes the text behind a mark, and nothing that it says of itself holds the mark or a quote
behind the text. So the text is read off the request again, whatever it holds, as long as the mark
stands in none of the options.
-/

set_option autoImplicit false

namespace CodeProse

/-- The mark in front of the quoted text. -/
def textMark : Text := "Text to correct:\n\""

/-- The text that a request quotes: what follows the first mark, up to the last quote behind it. -/
def quotedText? (prompt : Text) : Option Text :=
  (Text.indexOf? textMark prompt).bind fun place =>
    (Text.lastIndexOf? ['"'] (prompt.drop (place + textMark.length))).map
      (prompt.drop (place + textMark.length)).take

section Marks

variable {left right before after : Text}

/-- The mark ends with a quote, so that it does not end in a text without one. -/
theorem textMark_infix_left_iff (ends : .scalar '"' ∉ after) :
    textMark <:+: left ++ after ↔ textMark <:+: left := by
  refine Text.infix_append_iff_of_last left after ?_ (by decide)
  rintro char member same
  cases same
  exact ends member

/-- It starts with a capital T, so that it does not start in a text without one. -/
theorem textMark_infix_right_iff (starts : .scalar 'T' ∉ before) :
    textMark <:+: before ++ right ↔ textMark <:+: right := by
  refine Text.infix_append_iff_of_head before right ?_ (by decide)
  rintro char member same
  cases same
  exact starts member

theorem textMark_infix_between_iff {char : CodePoint} (foreign : char ∉ textMark)
    (ends : .scalar '"' ∉ after) (starts : .scalar 'T' ∉ before) :
    textMark <:+: left ++ (after ++ char :: (before ++ right)) ↔
      textMark <:+: left ∨ textMark <:+: right := by
  rw [← List.append_assoc, Text.infix_append_cons_iff foreign, textMark_infix_left_iff ends,
    textMark_infix_right_iff starts]

end Marks

section Quoting

variable {front text back : Text}

/-- From the first mark on, at most the quoted text and what stands in front of it is read. -/
theorem exists_quotedText?_eq (front text : Text) (closed : .scalar '"' ∉ back) :
    ∃ place,
      Text.indexOf? textMark (front ++ (textMark ++ (text ++ .scalar '"' :: back))) = some place ∧
      place ≤ front.length ∧
      quotedText? (front ++ (textMark ++ (text ++ .scalar '"' :: back))) =
        some ((front ++ (textMark ++ text)).drop (place + textMark.length)) := by
  generalize whole : front ++ (textMark ++ (text ++ .scalar '"' :: back)) = prompt
  have stands : textMark <+: prompt.drop front.length := by
    rw [← whole, List.drop_left]
    exact List.prefix_append textMark _
  cases found : Text.indexOf? textMark prompt with
  | none =>
      rw [Text.indexOf?_eq_none_iff] at found
      exact absurd (stands.isInfix.trans (List.drop_suffix _ _).isInfix) found
  | some place =>
      have early : place ≤ front.length :=
        Nat.le_of_not_lt fun behind => (Text.indexOf?_eq_some found).2 _ behind stands
      have rest : prompt.drop (place + textMark.length) =
          (front ++ (textMark ++ text)).drop (place + textMark.length) ++ .scalar '"' :: back := by
        have within : place + textMark.length ≤ (front ++ (textMark ++ text)).length := by
          rw [List.length_append, List.length_append]
          omega
        rw [← whole, ← List.drop_append_of_le_length within, List.append_assoc, List.append_assoc]
      refine ⟨place, rfl, early, ?_⟩
      rw [quotedText?, found, Option.bind_some, rest, Text.lastIndexOf?_append_cons closed,
        Option.map_some, List.take_left]

/-- The text is read off exactly if the mark does not stand in front of it. -/
theorem quotedText?_eq_some_iff (closed : .scalar '"' ∉ back) :
    quotedText? (front ++ (textMark ++ (text ++ .scalar '"' :: back))) = some text ↔
      ¬ textMark <:+: front := by
  obtain ⟨place, found, early, quoted⟩ := exists_quotedText?_eq front text closed
  have first : Text.indexOf? textMark (front ++ (textMark ++ (text ++ .scalar '"' :: back))) =
      some front.length ↔ ¬ textMark <:+: front :=
    Text.indexOf?_append_eq_length_iff (by decide) front (text ++ .scalar '"' :: back)
  rw [← first, found, quoted, Option.some.injEq, Option.some.injEq]
  constructor
  · intro same
    have length := congrArg List.length same
    rw [List.length_drop, List.length_append, List.length_append] at length
    omega
  · rintro rfl
    rw [← List.append_assoc, ← List.length_append, List.drop_left]

end Quoting

namespace CorrectionOptions

/-- The mark stands in nothing that the options have to say in a request: neither in the language to
correct in nor in the style or the context. -/
structure IsUnmarked (options : CorrectionOptions) (fallback : Text) : Prop where
  language : ¬ textMark <:+: options.targetLanguage fallback
  style : ∀ style ∈ options.style, ¬ textMark <:+: style
  context : ∀ context ∈ options.context, ¬ textMark <:+: context

/-- What a request says in front of the mark: an opening, the language with a note and the style, and
behind a point what else there is to say and the context. -/
def preamble (options : CorrectionOptions) (fallback opening note further : Text) : Text :=
  opening ++ (options.targetLanguage fallback ++ (note ++ options.styleClause)) ++
    .scalar '.' :: (further ++ (options.contextParagraph ++ [.scalar '\n']))

variable {options : CorrectionOptions} {fallback text : Text}

theorem plainPrompt_eq (options : CorrectionOptions) (fallback text : Text) :
    options.plainPrompt fallback text =
      options.preamble fallback "Correct the following text in " " (spelling, grammar and style)"
          "\n" ++
        (textMark ++ (text ++ .scalar '"' ::
          "\n\nReply with the corrected text only, without any explanation.".toText)) := by
  have point : ".\n".toText = .scalar '.' :: "\n".toText := rfl
  have mark : "\nText to correct:\n\"".toText = .scalar '\n' :: textMark := rfl
  unfold plainPrompt preamble textParagraph
  -- The fixed texts stay closed while the pieces are put into one order.
  generalize "Correct the following text in ".toText = opening
  generalize " (spelling, grammar and style)".toText = note
  generalize "\n\nReply with the corrected text only, without any explanation.".toText = closing
  generalize ".\n".toText = stop at point
  generalize "\n".toText = further at point
  generalize "\nText to correct:\n\"".toText = quote at mark
  rw [point, mark]
  simp only [List.append_assoc, List.cons_append, List.nil_append]

theorem detailedPrompt_eq (options : CorrectionOptions) (fallback text : Text) :
    options.detailedPrompt fallback text =
      options.preamble fallback "Analyse and correct the following text in " []
          (" Reply in JSON with:\n".toText ++ detailedShape) ++
        (textMark ++ (text ++ [.scalar '"'])) := by
  have point : ". Reply in JSON with:\n".toText = .scalar '.' :: " Reply in JSON with:\n".toText := rfl
  have mark : "\nText to correct:\n\"".toText = .scalar '\n' :: textMark := rfl
  unfold detailedPrompt preamble textParagraph
  generalize "Analyse and correct the following text in ".toText = opening
  generalize ". Reply in JSON with:\n".toText = stop at point
  generalize " Reply in JSON with:\n".toText = further at point
  generalize "\nText to correct:\n\"".toText = quote at mark
  generalize detailedShape = shape
  rw [point, mark]
  simp only [List.append_assoc, List.cons_append, List.nil_append]

section Preamble

/-- A style that is not mentioned does not hold the mark. -/
theorem styleClause_cases (options : CorrectionOptions) :
    options.styleClause = [] ∧ (∀ style ∈ options.style, ¬ textMark <:+: style) ∨
      ∃ style, options.style = some style ∧
        options.styleClause = " using a ".toText ++ (style ++ " style".toText) := by
  unfold styleClause
  split
  · next style shown =>
      obtain ⟨present, -⟩ := Option.filter_eq_some_iff.mp shown
      obtain ⟨given, -⟩ := Option.filter_eq_some_iff.mp present
      exact .inr ⟨style, given, List.append_assoc " using a ".toText style " style".toText⟩
  · next hidden =>
      refine .inl ⟨rfl, fun style given found => ?_⟩
      have some : style ≠ [] := by
        rintro rfl
        exact absurd (List.infix_nil.mp found) (by decide)
      have other : style ≠ neutralStyle := by
        rintro rfl
        exact absurd found (by decide +kernel)
      refine absurd hidden (Option.ne_none_iff_exists'.mpr ⟨style, ?_⟩)
      rw [Option.mem_def.mp given, present?]
      simp [some, other]

theorem contextParagraph_cases (options : CorrectionOptions) :
    options.contextParagraph = [] ∧ (∀ context ∈ options.context, ¬ textMark <:+: context) ∨
      ∃ context, options.context = some context ∧
        options.contextParagraph = "\nContext: ".toText ++ (context ++ [.scalar '\n']) := by
  unfold contextParagraph
  split
  · next context shown =>
      obtain ⟨given, -⟩ := Option.filter_eq_some_iff.mp shown
      exact .inr ⟨context, given, List.append_assoc "\nContext: ".toText context ['\n']⟩
  · next hidden =>
      refine .inl ⟨rfl, fun context given found => ?_⟩
      have some : context ≠ [] := by
        rintro rfl
        exact absurd (List.infix_nil.mp found) (by decide)
      refine absurd hidden (Option.ne_none_iff_exists'.mpr ⟨context, ?_⟩)
      rw [Option.mem_def.mp given, present?]
      simp [some]

theorem infix_styleClause_iff (options : CorrectionOptions) {language note : Text}
    (plain : .scalar '"' ∉ note) :
    textMark <:+: language ++ (note ++ options.styleClause) ↔
      textMark <:+: language ∨ ∃ style ∈ options.style, textMark <:+: style := by
  rcases options.styleClause_cases with ⟨silent, free⟩ | ⟨style, given, said⟩
  · have none : ¬ ∃ style ∈ options.style, textMark <:+: style := by
      rintro ⟨style, given, found⟩
      exact free style given found
    rw [silent, List.append_nil, textMark_infix_left_iff plain, or_iff_left none]
  · have one : (∃ style ∈ options.style, textMark <:+: style) ↔ textMark <:+: style := by
      rw [given]
      simp
    have lead : note ++ options.styleClause =
        (note ++ [.scalar ' ']) ++ .scalar 'u' :: ("sing a ".toText ++ (style ++ " style".toText)) := by
      have parts : " using a ".toText = [.scalar ' '] ++ .scalar 'u' :: "sing a ".toText := rfl
      rw [said, parts]
      generalize "sing a ".toText = behind
      generalize " style".toText = final
      simp only [List.append_assoc, List.cons_append, List.nil_append]
    have ends : .scalar '"' ∉ note ++ [.scalar ' '] := by simpa using plain
    have apart : textMark <:+: language ++ ((note ++ [.scalar ' ']) ++
          .scalar 'u' :: ("sing a ".toText ++ (style ++ " style".toText))) ↔
        textMark <:+: language ∨ textMark <:+: style ++ " style".toText :=
      textMark_infix_between_iff (by decide) ends (by decide)
    rw [lead, apart, one, textMark_infix_left_iff (by decide)]

theorem infix_contextParagraph_iff (options : CorrectionOptions) :
    textMark <:+: options.contextParagraph ++ [.scalar '\n'] ↔
      ∃ context ∈ options.context, textMark <:+: context := by
  rcases options.contextParagraph_cases with ⟨silent, free⟩ | ⟨context, given, said⟩
  · rw [silent]
    refine iff_of_false (by decide +kernel) ?_
    rintro ⟨context, given, found⟩
    exact free context given found
  · rw [said, List.append_assoc, List.append_assoc, textMark_infix_right_iff (by decide),
      textMark_infix_left_iff (by decide), given]
    simp

/-- The mark stands in front of the quoted text exactly if it stands in an option. -/
theorem not_infix_preamble_iff {opening note further : Text} (opens : .scalar 'T' ∉ opening)
    (plain : .scalar '"' ∉ note) (passes : ∀ rest, textMark <:+: further ++ rest ↔ textMark <:+: rest) :
    ¬ textMark <:+: options.preamble fallback opening note further ↔
      options.IsUnmarked fallback := by
  rw [preamble, Text.infix_append_cons_iff (by decide), textMark_infix_right_iff opens,
    infix_styleClause_iff options plain, passes, infix_contextParagraph_iff]
  constructor
  · intro free
    rw [not_or, not_or] at free
    obtain ⟨⟨language, style⟩, context⟩ := free
    exact ⟨language, fun value given found => style ⟨value, given, found⟩,
      fun value given found => context ⟨value, given, found⟩⟩
  · rintro ⟨language, style, context⟩ ((found | ⟨_, given, found⟩) | ⟨_, given, found⟩)
    · exact language found
    · exact style _ given found
    · exact context _ given found

/-- The shape of the answer does not hold the mark, and ends with a bracket, which is not in it. -/
theorem textMark_infix_detailedShape_iff (rest : Text) :
    textMark <:+: (" Reply in JSON with:\n".toText ++ detailedShape) ++ rest ↔
      textMark <:+: rest := by
  have shape : ∃ body,
      " Reply in JSON with:\n".toText ++ detailedShape = body ++ [.scalar '\x7d', .scalar '\n'] ∧
      ¬ textMark <:+: body :=
    ⟨(" Reply in JSON with:\n".toText ++ detailedShape).dropLast.dropLast, by decide +kernel,
      by decide +kernel⟩
  obtain ⟨body, shape, free⟩ := shape
  rw [shape, List.append_assoc, List.cons_append, Text.infix_append_cons_iff (by decide),
    or_iff_right free, textMark_infix_right_iff (by decide)]

end Preamble

/-- In a request without a prompt of the user's own, plain or detailed, the text is read off again
exactly if the mark stands in none of the options. -/
theorem quotedText?_prompts (options : CorrectionOptions) (fallback text : Text)
    (own : present? options.customPrompt = none) :
    (quotedText? (options.prompt fallback text) = some text ↔ options.IsUnmarked fallback) ∧
    (quotedText? (options.detailedPrompt fallback text) = some text ↔
      options.IsUnmarked fallback) := by
  constructor
  · have plain : options.prompt fallback text = options.plainPrompt fallback text := by
      unfold prompt
      rw [own]
    rw [plain, plainPrompt_eq, quotedText?_eq_some_iff (by decide +kernel),
      not_infix_preamble_iff (by decide) (by decide)
        fun rest => textMark_infix_right_iff (by decide)]
  · rw [detailedPrompt_eq, quotedText?_eq_some_iff List.not_mem_nil,
      not_infix_preamble_iff (by decide) List.not_mem_nil textMark_infix_detailedShape_iff]

/-- A context that holds the mark but for its quote, and a text that holds the mark itself. -/
theorem quotedText?_prompts_quotingText :
    let options : CorrectionOptions :=
      { language := some [], style := some "formal", context := some "\"Text to correct:\n" }
    let text : Text := "Text to correct:\n\"a\" \x7btext\x7d\n\""
    quotedText? (options.prompt defaultTargetLanguage text) = some text ∧
      quotedText? (options.detailedPrompt defaultTargetLanguage text) = some text := by
  intro options text
  have unmarked : options.IsUnmarked defaultTargetLanguage := by
    refine ⟨by decide +kernel, ?_, ?_⟩
    · intro style given
      cases Option.mem_def.mp given
      decide +kernel
    · intro context given
      cases Option.mem_def.mp given
      decide +kernel
  obtain ⟨plain, detailed⟩ := quotedText?_prompts options defaultTargetLanguage text (by decide)
  exact ⟨plain.mpr unmarked, detailed.mpr unmarked⟩

end CorrectionOptions

end CodeProse
