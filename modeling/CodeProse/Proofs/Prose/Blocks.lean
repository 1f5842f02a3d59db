import CodeProse.Proofs.Prose.Closers
import CodeProse.Proofs.Prose.Scan

/-!
# Closers in blocks over several lines

The closer line of a block is cut behind its last closer. What stands before that closer gets into
the prose, so that an earlier closer on the same line does, with the code behind it.
-/

set_option autoImplicit false

namespace CodeProse

variable {first last closer : Text} {inner : List Text} {index : Nat}

theorem contains_eq_false_iff {needle text : Text} :
    Text.contains needle text = false ↔ ¬ needle <:+: text := by
  rw [← Text.contains_iff_isInfix, Bool.not_eq_true]

/-- The part of a line up to its last closer, the closer included. -/
theorem take_add_length_of_lastIndexOf? (closed : Text.lastIndexOf? closer last = some index) :
    last.take (index + closer.length) = last.take index ++ closer := by
  obtain ⟨here, -⟩ := Text.lastIndexOf?_eq_some closed
  rw [List.take_add, ← List.prefix_iff_eq_take.mp here]

/-- The code of a block: its first line from the opener on, and the lines up to the last closer. -/
theorem blockBody_eq {opener : Text} {column : Nat}
    (opened : Text.indexOf? opener first = some column)
    (closed : Text.lastIndexOf? closer last = some index) :
    blockBody opener closer first inner last =
      first.drop column ++ .scalar '\n' :: (Text.unlines (inner ++ [last.take index]) ++ closer) := by
  rw [blockBody, opened, closed, Option.getD_some]
  dsimp only
  rw [take_add_length_of_lastIndexOf? closed, List.cons_append, Text.unlines_cons (by simp),
    Text.unlines_append_concat]

/-- A closer that none of the inner lines holds occurs before the last one exactly if it does so on
the last line. -/
theorem infix_unlines_concat_iff (plain : .scalar '\n' ∉ closer)
    (inside : ∀ row ∈ inner, Text.contains closer row = false) :
    closer <:+: Text.unlines (inner ++ [last.take index]) ↔ closer <:+: last.take index := by
  rw [Text.infix_unlines_iff plain (by simp)]
  constructor
  · rintro ⟨row, member, found⟩
    rcases List.mem_append.mp member with within | final
    · exact absurd found (contains_eq_false_iff.mp (inside row within))
    · exact List.mem_singleton.mp final ▸ found
  · exact fun found => ⟨_, List.mem_append_right inner List.mem_cons_self, found⟩

section Marks

theorem tripleQuoteAt?_eq_some {text quotes : Text} (found : tripleQuoteAt? text = some quotes) :
    quotes ∈ tripleQuotes ∧ quotes <+: text := by
  rw [tripleQuoteAt?] at found
  have front := List.find?_some found
  exact ⟨List.mem_of_find?_eq_some found, List.isPrefixOf_iff_prefix.mp front⟩

theorem leadingTripleQuote?_eq_some {text quotes : Text}
    (leading : leadingTripleQuote? text = some quotes) : quotes ∈ tripleQuotes ∧ quotes <:+: text := by
  unfold leadingTripleQuote? at leading
  split at leading
  · next char rest =>
      split at leading
      · obtain ⟨member, found⟩ := tripleQuoteAt?_eq_some leading
        exact ⟨member, found.isInfix.trans (List.suffix_cons char rest).isInfix⟩
      · obtain ⟨member, found⟩ := tripleQuoteAt?_eq_some leading
        exact ⟨member, found.isInfix⟩
  · cases leading

theorem opensDocstring?_eq_some {quotes : Text} (opened : opensDocstring? first = some quotes) :
    leadingTripleQuote? (Text.trimStart first) = some quotes ∧ Text.count quotes first = 1 := by
  unfold opensDocstring? at opened
  split at opened
  · next delimiter leading =>
      split at opened
      · next once =>
          cases opened
          exact ⟨leading, once⟩
      · cases opened
  · cases opened

/-- The marks of a block over several lines, as far as they do not depend on its kind. -/
theorem BlockOpens.marks {kind : ProseKind} {opener : Text}
    (opens : BlockOpens kind opener closer first) :
    opener.IsSolid ∧ closer ∈ blockClosers ∧ opener <:+: first := by
  cases opens with
  | comment opened =>
      have front : "/*".toText.isPrefixOf (Text.trimStart first) = true :=
        (Bool.and_eq_true_iff.mp opened).2
      refine ⟨⟨rfl, rfl⟩, List.mem_cons_self, ?_⟩
      exact (List.isPrefixOf_iff_prefix.mp front).isInfix.trans (Text.suffix_trimStart first).isInfix
  | docstring opened =>
      obtain ⟨leading, -⟩ := opensDocstring?_eq_some opened
      obtain ⟨member, front⟩ := leadingTripleQuote?_eq_some leading
      have known := mem_blockClosers_of_mem_tripleQuotes member
      exact ⟨isSolid_of_mem_blockClosers known, known,
        front.trans (Text.suffix_trimStart first).isInfix⟩

/-- The code of a block over several lines: what stands between the mark that opens it and the one
that is taken for its closer. -/
theorem BlockOpens.exists_blockBody {kind : ProseKind} {opener : Text}
    (opens : BlockOpens kind opener closer first) (inner : List Text)
    (closed : Text.lastIndexOf? closer last = some index) :
    ∃ column rest, Text.indexOf? opener first = some column ∧
      opener ++ rest = first.drop column ∧
      Text.trim (blockBody opener closer first inner last) =
        opener ++ ((rest ++ .scalar '\n' :: Text.unlines (inner ++ [last.take index])) ++ closer) := by
  obtain ⟨solid, known, within⟩ := opens.marks
  have ends := isSolid_of_mem_blockClosers known
  obtain ⟨column, found⟩ : ∃ column, Text.indexOf? opener first = some column :=
    Option.isSome_iff_exists.mp (Text.contains_iff_isInfix.mpr within)
  obtain ⟨rest, head⟩ := (Text.indexOf?_eq_some found).1
  have body : blockBody opener closer first inner last =
      opener ++ ((rest ++ .scalar '\n' :: Text.unlines (inner ++ [last.take index])) ++ closer) := by
    rw [blockBody_eq found closed, ← head, List.append_assoc, List.append_assoc, List.cons_append]
  refine ⟨column, rest, found, head, ?_⟩
  rw [body]
  refine Text.IsSolid.trim_eq ⟨?_, ?_⟩
  · rw [List.head?_append_of_ne_nil _ solid.ne_nil]
    exact solid.head
  · rw [← List.append_assoc, List.getLast?_append_of_ne_nil _ ends.ne_nil]
    exact ends.last

end Marks

section Comment

theorem head?_dropWhile_star_ne {front : Text} (back : Text)
    (unclosed : ¬ "*/".toText <:+: .scalar '*' :: front) :
    ((.scalar '*' :: (front ++ .scalar '\n' :: back)).dropWhile (· == .scalar '*')).head? ≠
        some (.scalar '/') ∧
      (.scalar '*' :: (front ++ .scalar '\n' :: back)).dropWhile (· == .scalar '*') ≠ [] := by
  have split : .scalar '*' :: (front ++ .scalar '\n' :: back) =
      (.scalar '*' :: front) ++ .scalar '\n' :: back := rfl
  rw [split, List.dropWhile_append]
  by_cases stars : (.scalar '*' :: front).dropWhile (· == .scalar '*') = []
  · rw [if_pos (by simp [stars]), List.dropWhile_cons_of_neg (by decide)]
    exact ⟨by simp, List.cons_ne_nil _ _⟩
  · rw [if_neg (by simpa using stars)]
    obtain ⟨char, rest, shape⟩ := List.exists_cons_of_ne_nil stars
    have behind := suffix_star_cons_dropWhile front
    rw [shape] at behind ⊢
    refine ⟨fun slash => unclosed ?_, List.cons_ne_nil _ _⟩
    rw [List.cons_append, List.head?_cons, Option.some.injEq] at slash
    rw [slash] at behind
    exact (List.prefix_append "*/".toText rest).isInfix.trans behind.isInfix

/-- The part of a block comment that its prose is cut from holds a closer only where the last line
does. -/
theorem unclosed_of_opensBlock {column : Nat} {rest : Text} (opened : opensBlock first = true)
    (head : "/*".toText ++ rest = first.drop column) : ¬ "*/".toText <:+: .scalar '*' :: rest := by
  have absent : ¬ "*/".toText <:+: first := by
    have unclosed := (Bool.and_eq_true_iff.mp opened).1
    rw [Bool.not_eq_true', contains_eq_false_iff] at unclosed
    exact unclosed
  have starred : .scalar '*' :: rest <:+ first.drop column :=
    head ▸ List.suffix_cons (.scalar '/') (.scalar '*' :: rest)
  exact fun found => absent (found.trans (starred.trans (List.drop_suffix column first)).isInfix)

/-- In a block comment over several lines a closer gets into the prose exactly if one stands on the
last line before the last one there. -/
theorem infix_inner_blockComment_iff (opened : opensBlock first = true)
    (inside : ∀ row ∈ inner, Text.contains "*/" row = false)
    (closed : Text.lastIndexOf? "*/" last = some index) :
    "*/".toText <:+: ProseKind.comment.inner
        (Text.trim (blockBody "/*" "*/" first inner last)) ↔
      "*/".toText <:+: last.take index := by
  have plain : .scalar '\n' ∉ "*/".toText := by decide
  obtain ⟨column, rest, -, head, body⟩ :=
    (BlockOpens.comment opened).exists_blockBody inner closed
  have unclosed := unclosed_of_opensBlock opened head
  obtain ⟨ends, unstarred⟩ := head?_dropWhile_star_ne
    (Text.unlines (inner ++ [last.take index])) unclosed
  have shape : Text.trim (blockBody "/*" "*/" first inner last) =
      .scalar '/' :: .scalar '*' ::
        ((rest ++ .scalar '\n' :: Text.unlines (inner ++ [last.take index])) ++ "*/".toText) := body
  rw [shape, starSlash_infix_inner_iff ends unstarred, ← List.cons_append,
    Text.infix_append_cons_iff plain, infix_unlines_concat_iff plain inside]
  exact or_iff_right unclosed

end Comment

section Docstring

/-- In a documentation string over several lines a closer gets into the prose exactly if one stands
on the last line before the last one there. -/
theorem infix_inner_blockDocstring_iff (opened : opensDocstring? first = some closer)
    (inside : ∀ row ∈ inner, Text.contains closer row = false)
    (closed : Text.lastIndexOf? closer last = some index) :
    closer <:+: ProseKind.docstring.inner (Text.trim (blockBody closer closer first inner last)) ↔
      closer <:+: last.take index := by
  obtain ⟨leading, once⟩ := opensDocstring?_eq_some opened
  obtain ⟨member, -⟩ := leadingTripleQuote?_eq_some leading
  have known := mem_blockClosers_of_mem_tripleQuotes member
  have plain := lineFeed_not_mem_of_mem_blockClosers known
  have nonempty := (isSolid_of_mem_blockClosers known).ne_nil
  obtain ⟨column, rest, found, head, body⟩ :=
    (BlockOpens.docstring opened).exists_blockBody inner closed
  have unclosed : ¬ closer <:+: rest := by
    have counted := Text.count_of_indexOf? nonempty found
    rw [once, ← List.drop_drop, ← head, List.drop_left] at counted
    exact Text.not_infix_of_count_eq_zero nonempty (by omega)
  rw [body, docstring_inner_between member,
    infix_dropDocumentationCloser_iff member, infix_dropDocumentationOpener_iff member,
    Text.infix_append_cons_iff plain, infix_unlines_concat_iff plain inside]
  exact or_iff_right unclosed

end Docstring

section Rows

open Text (RowsWithin)

theorem rowsWithin_unmark_comment {between : Text}
    (unstarred : (.scalar '*' :: between).dropWhile (· == .scalar '*') ≠ []) :
    RowsWithin (ProseKind.comment.unmark ("/*".toText ++ (between ++ "*/".toText))).lines
      (Text.lines ("/*".toText ++ between)) := by
  have inner : ProseKind.comment.inner ("/*".toText ++ (between ++ "*/".toText)) <:+:
      "/*".toText ++ between := by
    have shape := comment_inner_between unstarred
    show ProseKind.comment.inner (.scalar '/' :: .scalar '*' :: (between ++ "*/".toText)) <:+: _
    rw [shape]
    refine ((Text.prefix_dropEndWhile _ _).trans (Text.prefix_dropEndWhile _ _)).isInfix.trans ?_
    exact ((Text.suffix_trimStart _).trans ((List.dropWhile_suffix _).trans
      (List.suffix_cons (.scalar '/') (.scalar '*' :: between)))).isInfix
  exact (rowsWithin_cleanLines _).trans
    (Text.rowsWithin_of_isInfix ((suffix_dropNumberSign _).isInfix.trans inner))

theorem rowsWithin_unmark_docstring {quotes : Text} (member : quotes ∈ tripleQuotes)
    (between : Text) :
    RowsWithin (ProseKind.docstring.unmark (quotes ++ (between ++ quotes))).lines
      (quotes ++ between).lines := by
  have inner : ProseKind.docstring.unmark (quotes ++ (between ++ quotes)) =
      cleanLines (dropDocumentationCloser (dropDocumentationOpener between)) := by
    rw [← docstring_inner_between member]
    rfl
  rw [inner]
  refine (rowsWithin_cleanLines _).trans ((rowsWithin_dropDocumentationCloser _).trans ?_)
  exact Text.rowsWithin_of_isInfix ((suffix_dropDocumentationOpener between).trans
    (List.suffix_append quotes between)).isInfix

/-- The lines of the prose in a block over several lines stand within those of the block, of which
the last one is cut before its last closer. -/
theorem BlockOpens.rowsWithin_clean {kind : ProseKind} {opener : Text}
    (opens : BlockOpens kind opener closer first)
    (closed : Text.lastIndexOf? closer last = some index)
    (plain : ∀ row ∈ first :: inner ++ [last], .scalar '\n' ∉ row) :
    RowsWithin (ProseKind.clean (some kind) (blockBody opener closer first inner last)).lines
      (first :: inner ++ [last.take index]) := by
  obtain ⟨column, rest, -, head, body⟩ := opens.exists_blockBody inner closed
  have parts : List.Forall₂ (fun part row : Text => part <:+: row)
      (first.drop column :: inner ++ [last.take index]) (first :: inner ++ [last.take index]) := by
    refine .cons (List.drop_suffix column first).isInfix ?_
    exact List.forall₂_same.mpr fun row _ => List.infix_refl row
  have cut : RowsWithin
      (opener ++ (rest ++ .scalar '\n' :: Text.unlines (inner ++ [last.take index]))).lines
      (first :: inner ++ [last.take index]) := by
    have rows : opener ++ (rest ++ .scalar '\n' :: Text.unlines (inner ++ [last.take index])) =
        Text.unlines (first.drop column :: inner ++ [last.take index]) := by
      rw [← List.append_assoc, head, List.cons_append, Text.unlines_cons (by simp)]
    rw [rows, Text.lines_unlines ?_ (by simp)]
    · exact .of_forall₂ parts
    · intro row member
      obtain ⟨whole, known, part⟩ := exists_aligned_of_mem_left parts member
      refine not_mem_of_isInfix part ?_
      rcases List.mem_append.mp known with inside | ending
      · exact plain whole (List.mem_append_left _ inside)
      · rw [List.mem_singleton.mp ending]
        exact not_mem_of_isInfix (List.take_prefix index last).isInfix (plain last (by simp))
  rw [ProseKind.clean, body]
  refine (Text.rowsWithin_of_isInfix (Text.infix_trim _)).trans (.trans ?_ cut)
  cases opens with
  | comment opened =>
      have unclosed := unclosed_of_opensBlock opened head
      obtain ⟨-, unstarred⟩ := head?_dropWhile_star_ne
        (Text.unlines (inner ++ [last.take index])) unclosed
      exact rowsWithin_unmark_comment unstarred
  | docstring opened =>
      obtain ⟨leading, -⟩ := opensDocstring?_eq_some opened
      exact rowsWithin_unmark_docstring (leadingTripleQuote?_eq_some leading).1 _

end Rows

end CodeProse
