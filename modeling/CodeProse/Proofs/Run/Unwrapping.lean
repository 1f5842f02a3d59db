import CodeProse.Proofs.Text.Occurrence
import CodeProse.Run.Chunk

/-!
# Laws of unwrapping

A reply loses its outer blanks and the quotes around it. What is left is blank only where the
reply was, or where it was nothing but a pair of quotes that the draft does not have.
-/

set_option autoImplicit false

namespace CodeProse

/-- A reply of nothing but a pair of quotes among blanks, where the draft does not stand in these
quotes itself. -/
def IsHollow (draft reply : Text) : Prop :=
  ∃ quote ∈ wrappingQuotes, isWrappedIn quote draft = false ∧
    ∃ before inner after : Text, before.isBlank = true ∧ inner.isBlank = true ∧
      after.isBlank = true ∧ reply = before ++ (quote :: (inner ++ [quote]) ++ after)

theorem not_isHollow_of_forall_not_mem {draft reply : Text}
    (unquoted : ∀ quote ∈ wrappingQuotes, quote ∉ reply) : ¬ IsHollow draft reply := by
  rintro ⟨quote, member, -, before, inner, after, -, -, -, shape⟩
  refine unquoted quote member ?_
  rw [shape]
  simp

theorem mem_wrappingQuotes {quote : CodePoint} :
    quote ∈ wrappingQuotes ↔ quote = '"' ∨ quote = '\'' ∨ quote = '\x60' := by
  simp [wrappingQuotes]

theorem isBlank_of_mem_wrappingQuotes {quote : CodePoint} (member : quote ∈ wrappingQuotes) :
    isBlank quote = false := by
  rcases mem_wrappingQuotes.mp member with rfl | rfl | rfl <;> rfl

theorem isSolid_quoted {quote : CodePoint} (member : quote ∈ wrappingQuotes) (inner : Text) :
    Text.IsSolid (quote :: (inner ++ [quote])) := by
  have written := isBlank_of_mem_wrappingQuotes member
  constructor
  · simp [written]
  · rw [← List.cons_append, List.getLast?_concat]
    simp [written]

theorem isWrappedIn_quoted (quote : CodePoint) (inner : Text) :
    isWrappedIn quote (quote :: (inner ++ [quote])) = true := by
  rw [isWrappedIn, ← List.cons_append, List.getLast?_concat]
  simp

theorem exists_quoted_of_isWrappedIn {quote : CodePoint} {text : Text} (long : 2 ≤ text.length)
    (wrapped : isWrappedIn quote text = true) :
    ∃ inner : Text, text = quote :: (inner ++ [quote]) := by
  simp only [isWrappedIn, Bool.and_eq_true, decide_eq_true_eq] at wrapped
  obtain ⟨head, last⟩ := wrapped
  cases text with
  | nil => cases head
  | cons first rest =>
      cases head
      rcases List.eq_nil_or_concat' rest with rfl | ⟨inner, final, rfl⟩
      · simp at long
      · rw [← List.cons_append, List.getLast?_concat] at last
        cases last
        exact ⟨inner, rfl⟩

/-- What unwrapping takes off a reply: nothing, or a pair of quotes that do not stand around the
draft. -/
theorem unwrap_cases (reply draft : Text) :
    (unwrap reply draft = reply.trim ∧
      ∀ quote ∈ wrappingQuotes, isWrappedIn quote draft = false →
        ∀ inner : Text, reply.trim ≠ quote :: (inner ++ [quote])) ∨
    ∃ quote ∈ wrappingQuotes, isWrappedIn quote draft = false ∧
      ∃ inner : Text, reply.trim = quote :: (inner ++ [quote]) ∧
        unwrap reply draft = inner.trim := by
  rw [unwrap]
  split
  · next wraps =>
      obtain ⟨quote, member, facts⟩ := List.any_eq_true.mp wraps
      simp only [Bool.and_eq_true, decide_eq_true_eq, Bool.not_eq_true'] at facts
      obtain ⟨⟨long, wrapped⟩, plain⟩ := facts
      obtain ⟨inner, shape⟩ := exists_quoted_of_isWrappedIn long wrapped
      refine .inr ⟨quote, member, plain, inner, shape, ?_⟩
      rw [shape, List.drop_one, List.tail_cons, List.dropLast_concat]
  · next none =>
      refine .inl ⟨rfl, fun quote member plain inner shape => none ?_⟩
      refine List.any_eq_true.mpr ⟨quote, member, ?_⟩
      rw [shape, isWrappedIn_quoted, plain]
      simp

theorem isHollow_of_trim_eq {draft reply inner : Text} {quote : CodePoint}
    (member : quote ∈ wrappingQuotes) (plain : isWrappedIn quote draft = false)
    (shape : reply.trim = quote :: (inner ++ [quote])) (blank : inner.isBlank = true) :
    IsHollow draft reply := by
  obtain ⟨before, after, blankBefore, blankAfter, whole⟩ := Text.exists_trim_eq reply
  rw [shape] at whole
  exact ⟨quote, member, plain, before, inner, after, blankBefore, blank, blankAfter, whole⟩

/-- A reply that is unwrapped is blank exactly if it was blank or hollow. -/
theorem isBlank_unwrap_iff (reply draft : Text) :
    (unwrap reply draft).isBlank = true ↔ reply.isBlank = true ∨ IsHollow draft reply := by
  constructor
  · intro blank
    rcases unwrap_cases reply draft with ⟨same, -⟩ | ⟨quote, member, plain, inner, shape, same⟩
    · rw [same, Text.isBlank_trim] at blank
      exact .inl blank
    · rw [same, Text.isBlank_trim] at blank
      exact .inr (isHollow_of_trim_eq member plain shape blank)
  · rintro (blank | hollow)
    · rcases unwrap_cases reply draft with ⟨same, -⟩ | ⟨quote, member, -, inner, shape, -⟩
      · rw [same, Text.isBlank_trim, blank]
      · rw [← Text.isBlank_trim, shape, Text.isBlank, List.all_cons,
          isBlank_of_mem_wrappingQuotes member] at blank
        cases blank
    · obtain ⟨quote, member, plain, before, inner, after, blankBefore, blank, blankAfter, shape⟩ :=
        hollow
      have trimmed : reply.trim = quote :: (inner ++ [quote]) := by
        rw [shape]
        exact Text.trim_of_between (isSolid_quoted member inner) blankBefore blankAfter
      rcases unwrap_cases reply draft with ⟨-, none⟩ | ⟨other, -, -, content, shapeOther, same⟩
      · exact absurd trimmed (none quote member plain inner)
      · rw [trimmed] at shapeOther
        obtain ⟨rfl, rest⟩ := List.cons.inj shapeOther
        rw [same, ← List.append_cancel_right rest, Text.isBlank_trim, blank]

end CodeProse
