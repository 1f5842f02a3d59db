import CodeProse.Prose.Cleaning
import CodeProse.Proofs.Text.Blank
import CodeProse.Proofs.Text.Rows

/-!
# Laws of cleaning

Cleaning takes marks off a piece of code at its ends, so that on one line what is left is a
part of the piece. Over several lines the marks go row by row, and the rows that are left stand within
those of the piece.
-/

set_option autoImplicit false

namespace CodeProse

section Parts

theorem suffix_dropSlashes (text : Text) : dropSlashes text <:+ text := by
  unfold dropSlashes
  split
  · exact (Text.suffix_trimStart _).trans (List.dropWhile_suffix _)
  · exact List.suffix_refl text

theorem suffix_dropBlockOpener (text : Text) : dropBlockOpener text <:+ text := by
  unfold dropBlockOpener
  split
  · exact (Text.suffix_trimStart _).trans ((List.dropWhile_suffix _).trans (List.drop_suffix 1 text))
  · exact List.suffix_refl text

theorem prefix_dropBlockCloser (text : Text) : dropBlockCloser text <+: text := by
  unfold dropBlockCloser
  split
  · next rest reversed =>
      have kept : (rest.dropWhile (· == .scalar '*')).dropWhile isBlank <:+ text.reverse := by
        rw [reversed]
        exact (List.dropWhile_suffix _).trans ((List.dropWhile_suffix _).trans
          ((List.suffix_cons (CodePoint.scalar '*') rest).trans
            (List.suffix_cons (CodePoint.scalar '/') _)))
      have cut := List.reverse_prefix.mpr kept
      rwa [List.reverse_reverse] at cut
  · exact List.prefix_refl text

theorem suffix_dropNumberSign (text : Text) : dropNumberSign text <:+ text := by
  unfold dropNumberSign
  split
  · exact (Text.suffix_trimStart _).trans (List.suffix_cons (CodePoint.scalar '#') _)
  · exact List.suffix_refl _

/-- The last of the stars at the front of a text stands before what follows them. -/
theorem suffix_star_cons_dropWhile (text : Text) :
    .scalar '*' :: (.scalar '*' :: text).dropWhile (· == .scalar '*') <:+ .scalar '*' :: text := by
  induction text with
  | nil => exact List.suffix_refl _
  | cons char rest ih =>
      by_cases star : char = '*'
      · subst star
        exact ih.trans (List.suffix_cons (CodePoint.scalar '*') _)
      · have stops : (.scalar '*' :: char :: rest).dropWhile (· == .scalar '*') = char :: rest := by
          simp [star]
        exact stops.symm ▸ List.suffix_refl _

theorem suffix_dropStars (line : Text) : dropStars line <:+ line := by
  unfold dropStars
  split
  · next starred =>
      obtain ⟨behind, rfl⟩ := List.isPrefixOf_iff_prefix.mp starred
      have whole := suffix_star_cons_dropWhile behind
      change .scalar '*' :: ("*".toText ++ behind).dropWhile (· == .scalar '*') <:+
        "*".toText ++ behind at whole
      split
      · exact List.nil_suffix
      · next char rest dropped =>
          rw [dropped] at whole
          split
          · exact whole
          · split
            · exact ((List.suffix_cons char rest).trans
                (List.suffix_cons (CodePoint.scalar '*') _)).trans whole
            · exact (List.suffix_cons (CodePoint.scalar '*') _).trans whole
  · exact List.suffix_refl line

theorem suffix_dropTripleOpener (text : Text) : dropTripleOpener text <:+ text := by
  unfold dropTripleOpener
  split
  · split
    · exact List.drop_suffix _ text
    · exact List.drop_suffix _ text
  · exact List.suffix_refl text

theorem prefix_dropTripleCloser (text : Text) : dropTripleCloser text <+: text := by
  unfold dropTripleCloser
  split
  · exact List.take_prefix _ text
  · exact List.prefix_refl text

theorem suffix_dropDocumentationOpener (text : Text) : dropDocumentationOpener text <:+ text := by
  unfold dropDocumentationOpener
  split
  · exact (Text.suffix_trimStart _).trans (List.drop_suffix 3 text)
  · exact List.suffix_refl text

theorem prefix_of_reverse_starSlash {text rest : Text}
    (reversed : text.reverse = .scalar '/' :: .scalar '*' :: rest) :
    (rest.dropWhile isBlank).reverse <+: text := by
  have kept : rest.dropWhile isBlank <:+ text.reverse := by
    rw [reversed]
    exact (List.dropWhile_suffix _).trans
      ((List.suffix_cons (CodePoint.scalar '*') rest).trans (List.suffix_cons (CodePoint.scalar '/') _))
  have cut := List.reverse_prefix.mpr kept
  rwa [List.reverse_reverse] at cut

theorem prefix_dropDocumentationCloser {text : Text} (plain : .scalar '\n' ∉ text) :
    dropDocumentationCloser text <+: text := by
  unfold dropDocumentationCloser
  split
  · next rest reversed => exact prefix_of_reverse_starSlash reversed
  · next rest reversed =>
      have feed : .scalar '\n' ∈ text.reverse := reversed ▸ List.mem_cons_self
      exact absurd (List.mem_reverse.mp feed) plain
  · exact List.prefix_refl text

theorem suffix_dropOpeningQuote (text : Text) : dropOpeningQuote text <:+ text := by
  cases text with
  | nil => exact List.suffix_refl []
  | cons char rest =>
      rw [dropOpeningQuote]
      split
      · exact List.suffix_cons char rest
      · exact List.suffix_refl _

theorem prefix_dropClosingQuote (text : Text) : dropClosingQuote text <+: text := by
  have cut := List.reverse_prefix.mpr (suffix_dropOpeningQuote text.reverse)
  rwa [List.reverse_reverse] at cut

end Parts

theorem not_mem_of_isInfix {char : CodePoint} {part text : Text} (within : part <:+: text)
    (absent : char ∉ text) : char ∉ part :=
  fun present => absent (within.subset present)

theorem cleanLines_of_not_mem {text : Text} (plain : .scalar '\n' ∉ text) :
    cleanLines text = Text.trim (dropStars (Text.trim text)) := by
  rw [cleanLines, Text.lines_of_not_mem plain, List.map_singleton, Text.unlines_singleton]

theorem infix_cleanLines {text : Text} (plain : .scalar '\n' ∉ text) : cleanLines text <:+: text := by
  rw [cleanLines_of_not_mem plain]
  exact (Text.infix_trim _).trans ((suffix_dropStars _).isInfix.trans (Text.infix_trim text))

theorem ProseKind.infix_unmark (kind : ProseKind) {text : Text} (plain : .scalar '\n' ∉ text) :
    kind.unmark text <:+: text := by
  cases kind with
  | comment =>
      have marks : dropNumberSign (dropBlockCloser (dropBlockOpener (dropSlashes text))) <:+:
          text :=
        (suffix_dropNumberSign _).isInfix.trans ((prefix_dropBlockCloser _).isInfix.trans
          ((suffix_dropBlockOpener _).isInfix.trans (suffix_dropSlashes text).isInfix))
      exact (infix_cleanLines (not_mem_of_isInfix marks plain)).trans marks
  | docstring =>
      have opened : dropDocumentationOpener (dropTripleCloser (dropTripleOpener text)) <:+:
          text :=
        (suffix_dropDocumentationOpener _).isInfix.trans ((prefix_dropTripleCloser _).isInfix.trans
          (suffix_dropTripleOpener text).isInfix)
      have marks := (prefix_dropDocumentationCloser (not_mem_of_isInfix opened plain)).isInfix.trans
        opened
      exact (infix_cleanLines (not_mem_of_isInfix marks plain)).trans marks
  | string =>
      exact (prefix_dropClosingQuote _).isInfix.trans (suffix_dropOpeningQuote text).isInfix

/-- On one line the prose of a piece of code is a part of the piece. -/
theorem ProseKind.infix_clean (kind? : Option ProseKind) {text : Text} (plain : .scalar '\n' ∉ text) :
    ProseKind.clean kind? text <:+: text := by
  cases kind? with
  | none => exact Text.infix_trim text
  | some kind =>
      have trimmed := not_mem_of_isInfix (Text.infix_trim text) plain
      exact (Text.infix_trim _).trans ((kind.infix_unmark trimmed).trans (Text.infix_trim text))

section Rows

open Text

theorem rowsWithin_cleanLines (text : Text) : RowsWithin (cleanLines text).lines text.lines := by
  have part : ∀ row : Text, Text.trim (dropStars (Text.trim row)) <:+: row := fun row =>
    (infix_trim _).trans ((suffix_dropStars _).isInfix.trans (infix_trim row))
  have split : (cleanLines text).lines =
      text.lines.map fun row => Text.trim (dropStars (Text.trim row)) := by
    refine lines_unlines ?_ (by simp)
    intro cleaned member
    obtain ⟨row, known, rfl⟩ := List.mem_map.mp member
    exact not_mem_of_isInfix (part row) (lineFeed_not_mem_of_mem_lines known)
  rw [split]
  exact .of_forall₂ (List.forall₂_map_left_iff.mpr (List.forall₂_same.mpr fun row _ => part row))

/-- Also where a closer before a line feed is taken off, which leaves the line feed. -/
theorem rowsWithin_dropDocumentationCloser (text : Text) :
    RowsWithin (dropDocumentationCloser text).lines text.lines := by
  unfold dropDocumentationCloser
  split
  · next rest reversed => exact rowsWithin_of_front (prefix_of_reverse_starSlash reversed)
  · next rest reversed =>
      have kept : rest.dropWhile isBlank <:+ .scalar '/' :: .scalar '*' :: rest :=
        (List.dropWhile_suffix _).trans ((List.suffix_cons (CodePoint.scalar '*') rest).trans
          (List.suffix_cons (CodePoint.scalar '/') _))
      obtain ⟨gap, joined⟩ := kept
      have whole : text = (rest.dropWhile isBlank).reverse ++ (gap.reverse ++ [.scalar '\n']) := by
        rw [← text.reverse_reverse, reversed, ← joined]
        simp
      rw [List.reverse_cons, whole]
      exact rowsWithin_of_lineFeed _ (List.mem_append_right _ List.mem_cons_self)
  · exact .of_isInfix (List.infix_refl _)

end Rows

end CodeProse
