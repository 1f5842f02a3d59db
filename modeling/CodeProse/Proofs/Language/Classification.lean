import CodeProse.Language.Classification
import Mathlib.Data.List.TakeWhile

/-!
# Laws of classification

A line is a comment where a comment opener of a language stands at its front, unless the line holds
what looks like a documentation string or a string literal. Openers that are markers decide by the
front of the line alone: it stays a comment whatever it goes on with.
-/

set_option autoImplicit false

namespace CodeProse

/-- The patterns by which a language recognises the comment that a line starts. -/
def CommentPatterns.openers (patterns : CommentPatterns) : List LinePattern :=
  patterns.lineComments ++ patterns.blockStarts

/-- Whether a pattern looks for a marker at the front of a line. -/
def LinePattern.isMarker : LinePattern → Bool
  | opensWith marker => !marker.isEmpty
  | _ => false

/-- A registry whose languages recognise comments by the markers that start them. -/
def Registry.UsesMarkers (registry : Registry) : Prop :=
  ∀ definition ∈ registry.definitions, definition.comments.openers.all LinePattern.isMarker = true

theorem usesMarkers_builtin : Registry.builtin.UsesMarkers := by
  rw [Registry.UsesMarkers]
  decide

theorem Registry.mem_definitions_of_mem_candidates {registry : Registry} {language : Text}
    {definition : LanguageDefinition} (member : definition ∈ registry.candidates language) :
    definition ∈ registry.definitions := by
  rw [candidates] at member
  split at member
  · exact member
  · exact List.mem_of_find?_eq_some (Option.mem_toList.mp member)

variable {definition : LanguageDefinition} {pattern : LinePattern} {front line : Text}

/-- A marker that opens a line opens whatever the line goes on with, and that is not blank. -/
theorem LinePattern.fits_append_of_isMarker (marks : pattern.isMarker = true)
    (opened : pattern.fits front = true) (more : Text) :
    pattern.fits (front ++ more) = true ∧ Text.isBlank (front ++ more) = false := by
  cases pattern with
  | opensWith marker =>
      have within : marker <+: Text.trimStart front := List.isPrefixOf_iff_prefix.mp opened
      have some : (Text.trimStart front).isEmpty = false := by
        cases trimmed : Text.trimStart front with
        | nil =>
            rw [trimmed, List.prefix_nil] at within
            rw [within] at marks
            cases marks
        | cons char rest => rfl
      have joined : Text.trimStart (front ++ more) = Text.trimStart front ++ more := by
        simp only [Text.trimStart] at some ⊢
        rw [List.dropWhile_append, if_neg (ne_true_of_eq_false some)]
      constructor
      · rw [fits, joined]
        exact List.isPrefixOf_iff_prefix.mpr (within.trans (List.prefix_append _ more))
      · cases blank : Text.isBlank (front ++ more) with
        | false => rfl
        | true =>
            have empty : Text.trimStart (front ++ more) = [] :=
              List.dropWhile_eq_nil_iff.mpr (List.all_eq_true.mp blank)
            rw [joined, List.append_eq_nil_iff] at empty
            rw [empty.1] at some
            cases some
  | _ => cases marks

theorem LanguageDefinition.exists_opener_of_classify?
    (comment : definition.classify? line = some .comment) :
    ∃ pattern ∈ definition.comments.openers, pattern.fits line = true := by
  simp only [classify?] at comment
  split at comment
  · next opened =>
      obtain ⟨pattern, member, fits⟩ := List.any_eq_true.mp opened
      exact ⟨pattern, List.mem_append_left _ member, fits⟩
  · split at comment
    · cases comment
    · split at comment
      · cases comment
      · split at comment
        · next opened =>
            obtain ⟨pattern, member, fits⟩ := List.any_eq_true.mp opened
            exact ⟨pattern, List.mem_append_right _ member, fits⟩
        · cases comment

/-- Whether a line that starts a comment counts as one: it starts a line comment, or it holds
neither a documentation string nor a string literal. -/
def LanguageDefinition.isUnquoted (definition : LanguageDefinition) (line : Text) : Bool :=
  definition.comments.lineComments.any (·.fits line) ||
    !(definition.docstrings.any (·.fits line) || definition.strings.any (·.fits line))

theorem LanguageDefinition.classify?_of_isUnquoted (unquoted : definition.isUnquoted line = true) :
    definition.classify? line =
      if definition.comments.openers.any (·.fits line) then some .comment else none := by
  rw [CommentPatterns.openers, List.any_append]
  simp only [classify?]
  cases starts : definition.comments.lineComments.any (·.fits line) with
  | true => rfl
  | false =>
      rw [isUnquoted, starts, Bool.false_or, Bool.not_eq_true',
        Bool.or_eq_false_iff] at unquoted
      rw [unquoted.1, unquoted.2]
      rfl

variable {registry : Registry} {language : Text}

theorem Registry.exists_opener_of_classify?
    (comment : registry.classify? language line = some .comment) :
    ∃ definition ∈ registry.candidates language, ∃ pattern ∈ definition.comments.openers,
      pattern.fits line = true := by
  rw [Registry.classify?] at comment
  split at comment
  · cases comment
  · obtain ⟨definition, candidate, here⟩ := List.exists_of_findSome?_eq_some comment
    exact ⟨definition, candidate, definition.exists_opener_of_classify? here⟩

/-- A line with a comment opener of one of the languages is a comment, where none of them takes it for
a documentation string or a string literal. -/
theorem Registry.classify?_of_opener (solid : Text.isBlank line = false)
    (unquoted : ∀ definition ∈ registry.candidates language, definition.isUnquoted line = true)
    (candidate : definition ∈ registry.candidates language)
    (opener : pattern ∈ definition.comments.openers) (fits : pattern.fits line = true) :
    registry.classify? language line = some .comment := by
  have comment : definition.classify? line = some .comment := by
    rw [LanguageDefinition.classify?_of_isUnquoted (unquoted definition candidate)]
    exact if_pos (List.any_eq_true.mpr ⟨pattern, opener, fits⟩)
  have recognised : ((registry.candidates language).findSome? fun definition =>
      definition.classify? line).isSome = true :=
    List.findSome?_isSome_iff.mpr ⟨definition, candidate, comment ▸ rfl⟩
  obtain ⟨kind, found⟩ := Option.isSome_iff_exists.mp recognised
  obtain ⟨other, known, here⟩ := List.exists_of_findSome?_eq_some found
  rw [LanguageDefinition.classify?_of_isUnquoted (unquoted other known)] at here
  rw [Registry.classify?, solid]
  split at here
  · rw [← here] at found
    exact found
  · cases here

end CodeProse
