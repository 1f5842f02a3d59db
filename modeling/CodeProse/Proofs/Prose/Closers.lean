import CodeProse.Proofs.Prose.Cleaning
import CodeProse.Proofs.Text.Occurrence

/-!
# Closers in cleaned prose

Cleaning takes at most one closing mark off a piece of code. Whatever else it does, it neither
makes nor unmakes an occurrence of a block closer.
-/

set_option autoImplicit false

namespace CodeProse

/-- The marks that close a block: a star with a slash, and the triple quotes. -/
def blockClosers : List Text :=
  "*/" :: tripleQuotes

variable {closer text : Text}

theorem isSolid_of_mem_blockClosers (member : closer ∈ blockClosers) : closer.IsSolid := by
  have ends : ∀ closer ∈ blockClosers, (closer.head?.any fun first => !isBlank first) = true ∧
      (closer.getLast?.any fun last => !isBlank last) = true := by decide
  obtain ⟨head, last⟩ := ends closer member
  exact ⟨head, last⟩

theorem lineFeed_not_mem_of_mem_blockClosers (member : closer ∈ blockClosers) :
    .scalar '\n' ∉ closer := by
  revert closer
  decide

theorem head?_ne_of_mem_tripleQuotes (member : closer ∈ tripleQuotes) :
    closer.head? ≠ some (.scalar '*') ∧ closer.head? ≠ some (.scalar '/') ∧
      closer.reverse = closer := by
  revert closer
  decide

theorem length_of_mem_tripleQuotes (member : closer ∈ tripleQuotes) : closer.length = 3 := by
  revert closer
  decide

section Stars

theorem starSlash_infix_dropWhile_iff
    (ends : (text.dropWhile (· == .scalar '*')).head? ≠ some (.scalar '/')) :
    "*/".toText <:+: text.dropWhile (· == .scalar '*') ↔ "*/".toText <:+: text := by
  induction text with
  | nil => exact Iff.rfl
  | cons char rest ih =>
      by_cases star : char = '*'
      · subst star
        rw [List.dropWhile_cons_of_pos (by decide)] at ends ⊢
        rw [ih ends, List.infix_cons_iff]
        refine (or_iff_right fun found => ends ?_).symm
        obtain ⟨behind, rfl⟩ := (List.cons_prefix_cons.mp found).2
        rfl
      · rw [List.dropWhile_cons_of_neg (by simpa using star)]

theorem starSlash_infix_dropStars_iff :
    "*/".toText <:+: dropStars text ↔ "*/".toText <:+: text := by
  unfold dropStars
  split
  · next starred =>
      obtain ⟨behind, rfl⟩ := List.isPrefixOf_iff_prefix.mp starred
      have whole := suffix_star_cons_dropWhile behind
      change .scalar '*' :: ("*".toText ++ behind).dropWhile (· == .scalar '*') <:+
        "*".toText ++ behind at whole
      split
      · next none =>
          rw [← none]
          exact starSlash_infix_dropWhile_iff (by rw [none]; simp)
      · next char rest dropped =>
          rw [dropped] at whole
          split
          · next slash =>
              rw [beq_iff_eq.mp slash] at whole ⊢
              have closed : "*/".toText <:+: .scalar '*' :: .scalar '/' :: rest :=
                (List.prefix_append "*/".toText rest).isInfix
              exact ⟨fun _ => closed.trans whole.isInfix, fun _ => closed⟩
          · next other =>
              have ends : (("*".toText ++ behind).dropWhile (· == .scalar '*')).head? ≠
                  some (.scalar '/') := by
                rw [dropped]
                simpa using other
              have kept := starSlash_infix_dropWhile_iff ends
              rw [dropped] at kept
              split
              · next blank =>
                  rw [← kept]
                  have foreign : ∀ first ∈ [char], ("*/".toText).head? ≠ some first := by
                    intro first member same
                    rw [List.mem_singleton.mp member] at same
                    cases same
                    cases blank
                  exact (Text.infix_append_iff_of_head [char] rest foreign (by decide)).symm
              · exact kept
  · exact Iff.rfl

theorem infix_dropStars_iff (member : closer ∈ blockClosers) :
    closer <:+: dropStars text ↔ closer <:+: text := by
  rcases List.mem_cons.mp member with rfl | quotes
  · exact starSlash_infix_dropStars_iff
  · obtain ⟨star, slash, -⟩ := head?_ne_of_mem_tripleQuotes quotes
    have solid := isSolid_of_mem_blockClosers member
    have unstarred : closer.head?.any fun first => !(first == .scalar '*') := by
      obtain ⟨first, behind, rfl⟩ := List.exists_cons_of_ne_nil solid.ne_nil
      simpa using star
    have kept : closer <:+: text.dropWhile (· == .scalar '*') ↔ closer <:+: text :=
      Text.infix_dropWhile_iff unstarred
    have behindFirst : ∀ (first : CodePoint) (rest : Text), closer.head? ≠ some first →
        (closer <:+: first :: rest ↔ closer <:+: rest) := fun first rest other =>
      Text.infix_append_iff_of_head [first] rest (by simpa using other) solid.ne_nil
    unfold dropStars
    split
    · rw [← kept]
      split
      · next none => rw [none]
      · next char rest dropped =>
          rw [dropped]
          split
          · exact behindFirst (.scalar '*') _ star
          · split
            · next blank =>
                refine (behindFirst char rest fun same => ?_).symm
                have first := solid.head
                rw [same] at first
                simp [blank] at first
            · exact Iff.rfl
    · exact Iff.rfl

end Stars

section Clean

theorem infix_cleanLines_iff (member : closer ∈ blockClosers) :
    closer <:+: cleanLines text ↔ closer <:+: text := by
  have plain := lineFeed_not_mem_of_mem_blockClosers member
  have solid := isSolid_of_mem_blockClosers member
  have row : ∀ line, closer <:+: Text.trim (dropStars (Text.trim line)) ↔ closer <:+: line :=
    fun line => by
      rw [solid.infix_trim_iff, infix_dropStars_iff member, solid.infix_trim_iff]
  have whole := Text.infix_unlines_iff plain (Text.lines_ne_nil text)
  rw [Text.unlines_lines] at whole
  rw [cleanLines, Text.infix_unlines_iff plain (by simp), whole]
  constructor
  · rintro ⟨_, shown, found⟩
    obtain ⟨line, known, rfl⟩ := List.mem_map.mp shown
    exact ⟨line, known, (row line).mp found⟩
  · rintro ⟨line, known, found⟩
    exact ⟨_, List.mem_map_of_mem known, (row line).mpr found⟩

/-- What is left of a trimmed piece of code when its opening and its closing mark are taken off. -/
def ProseKind.inner : ProseKind → Text → Text
  | comment, text => dropBlockCloser (dropBlockOpener (dropSlashes text))
  | docstring, text =>
      dropDocumentationCloser (dropDocumentationOpener (dropTripleCloser (dropTripleOpener text)))
  | string, text => dropClosingQuote (dropOpeningQuote text)

theorem infix_dropNumberSign_iff (member : closer ∈ blockClosers) :
    closer <:+: dropNumberSign text ↔ closer <:+: text := by
  have others : ∀ closer ∈ blockClosers, closer.head? ≠ some (.scalar '#') := by decide
  have solid := isSolid_of_mem_blockClosers member
  have other := others closer member
  unfold dropNumberSign
  split
  · next rest =>
      rw [solid.infix_trimStart_iff]
      exact (Text.infix_append_iff_of_head ['#'] rest (by simpa using other) solid.ne_nil).symm
  · exact Iff.rfl

/-- A block closer occurs in the prose of a piece of code exactly if it occurs between the marks
of the piece. -/
theorem ProseKind.infix_clean_iff (member : closer ∈ blockClosers) (kind : ProseKind) :
    closer <:+: ProseKind.clean (some kind) text ↔ closer <:+: kind.inner (Text.trim text) := by
  have solid := isSolid_of_mem_blockClosers member
  rw [clean, solid.infix_trim_iff]
  cases kind with
  | comment => rw [unmark, infix_cleanLines_iff member, infix_dropNumberSign_iff member, inner]
  | docstring => rw [unmark, infix_cleanLines_iff member, inner]
  | string => rw [unmark, inner]

end Clean

section StarBlocks

/-- What is left of a block comment between its marks: the stars of both are taken off with them. -/
theorem comment_inner_between {body : Text}
    (unstarred : (.scalar '*' :: body).dropWhile (· == .scalar '*') ≠ []) :
    ProseKind.comment.inner (.scalar '/' :: .scalar '*' :: (body ++ "*/".toText)) =
      Text.dropEndWhile isBlank (Text.dropEndWhile (· == .scalar '*')
        (Text.trimStart ((.scalar '*' :: body).dropWhile (· == .scalar '*')))) := by
  have solid : Text.IsSolid "*/" := isSolid_of_mem_blockClosers List.mem_cons_self
  have opened : dropBlockOpener (dropSlashes (.scalar '/' :: .scalar '*' :: (body ++ "*/".toText))) =
      Text.trimStart ((.scalar '*' :: body).dropWhile (· == .scalar '*')) ++ "*/".toText := by
    have behind : dropBlockOpener (dropSlashes (.scalar '/' :: .scalar '*' :: (body ++ "*/".toText))) =
        Text.trimStart ((.scalar '*' :: body ++ "*/".toText).dropWhile (· == .scalar '*')) := rfl
    rw [behind, List.dropWhile_append, if_neg (by simpa using unstarred), Text.trimStart_append solid]
  have closed : ∀ rest : Text, dropBlockCloser (rest ++ "*/".toText) =
      Text.dropEndWhile isBlank (Text.dropEndWhile (· == .scalar '*') rest) := by
    intro rest
    have backwards : (rest ++ "*/".toText).reverse = .scalar '/' :: .scalar '*' :: rest.reverse := by
      rw [List.reverse_append]
      rfl
    rw [dropBlockCloser, backwards, Text.dropEndWhile, Text.dropEndWhile, List.reverse_reverse]
    rfl
  rw [ProseKind.inner, opened, closed]

/-- A star and a slash occur between the marks of a block comment exactly if they occur in it
before its last closer, where none follows the stars of the opener. -/
theorem starSlash_infix_inner_iff {body : Text}
    (ends : ((.scalar '*' :: body).dropWhile (· == .scalar '*')).head? ≠ some (.scalar '/'))
    (unstarred : (.scalar '*' :: body).dropWhile (· == .scalar '*') ≠ []) :
    "*/".toText <:+: ProseKind.comment.inner (.scalar '/' :: .scalar '*' :: (body ++ "*/".toText)) ↔
      "*/".toText <:+: .scalar '*' :: body := by
  have solid : Text.IsSolid "*/" := isSolid_of_mem_blockClosers List.mem_cons_self
  rw [comment_inner_between unstarred, Text.infix_dropEndWhile_iff solid.last,
    Text.infix_dropEndWhile_iff (by decide), solid.infix_trimStart_iff,
    starSlash_infix_dropWhile_iff ends]

end StarBlocks

section TripleQuotes

variable {quotes : Text}

theorem mem_blockClosers_of_mem_tripleQuotes (member : quotes ∈ tripleQuotes) :
    quotes ∈ blockClosers :=
  List.mem_cons_of_mem _ member

theorem infix_dropDocumentationOpener_iff (member : quotes ∈ tripleQuotes) :
    quotes <:+: dropDocumentationOpener text ↔ quotes <:+: text := by
  obtain ⟨star, slash, -⟩ := head?_ne_of_mem_tripleQuotes member
  have solid := isSolid_of_mem_blockClosers (mem_blockClosers_of_mem_tripleQuotes member)
  have opener : ∀ mark : Text, (∀ char ∈ mark, quotes.head? ≠ some char) → mark.length = 3 →
      mark <+: text → (quotes <:+: text.drop 3 ↔ quotes <:+: text) := by
    rintro mark foreign length ⟨rest, rfl⟩
    rw [← length, List.drop_left]
    exact (Text.infix_append_iff_of_head mark rest foreign solid.ne_nil).symm
  unfold dropDocumentationOpener
  split
  · next opened =>
      rw [solid.infix_trimStart_iff]
      rcases Bool.or_eq_true_iff.mp opened with stars | slashes
      · exact opener "/**" (by simp [star, slash]) rfl (List.isPrefixOf_iff_prefix.mp stars)
      · exact opener "///" (by simp [slash]) rfl (List.isPrefixOf_iff_prefix.mp slashes)
  · exact Iff.rfl

theorem infix_dropDocumentationCloser_iff (member : quotes ∈ tripleQuotes) :
    quotes <:+: dropDocumentationCloser text ↔ quotes <:+: text := by
  obtain ⟨star, slash, palindrome⟩ := head?_ne_of_mem_tripleQuotes member
  have solid := isSolid_of_mem_blockClosers (mem_blockClosers_of_mem_tripleQuotes member)
  have feed : quotes.head? ≠ some (.scalar '\n') := by
    intro same
    have head := solid.head
    rw [same] at head
    cases head
  have backwards : ∀ text : Text, quotes <:+: text.reverse ↔ quotes <:+: text := fun text => by
    rw [← List.reverse_infix, List.reverse_reverse, palindrome]
  have blanks : ∀ rest : Text, quotes <:+: rest.dropWhile isBlank ↔ quotes <:+: rest :=
    fun rest => solid.infix_trimStart_iff
  unfold dropDocumentationCloser
  rw [← backwards text]
  split
  · next rest reversed =>
      rw [backwards, reversed, blanks]
      exact (Text.infix_append_iff_of_head ['/', '*'] rest (by simp [star, slash])
        solid.ne_nil).symm
  · next rest reversed =>
      rw [backwards, reversed]
      refine (Text.infix_append_iff_of_head ['\n'] _ (by simp [feed]) solid.ne_nil).trans ?_
      rw [blanks]
      exact (Text.infix_append_iff_of_head ['\n', '/', '*'] rest (by simp [star, slash, feed])
        solid.ne_nil).symm
  · rw [backwards]

/-- The marks of a documentation string between triple quotes. -/
theorem docstring_inner_between (member : quotes ∈ tripleQuotes) (body : Text) :
    ProseKind.docstring.inner (quotes ++ (body ++ quotes)) =
      dropDocumentationCloser (dropDocumentationOpener body) := by
  have opened : dropTripleOpener (quotes ++ (body ++ quotes)) = body ++ quotes := by
    rcases List.mem_pair.mp member with rfl | rfl
    · rfl
    · rfl
  have closed : dropTripleCloser (body ++ quotes) = body := by
    have suffix : quotes.isSuffixOf (body ++ quotes) = true :=
      List.isSuffixOf_iff_suffix.mpr (List.suffix_append body quotes)
    rw [dropTripleCloser, if_pos (List.any_eq_true.mpr ⟨quotes, member, suffix⟩),
      List.length_append, length_of_mem_tripleQuotes member, Nat.add_sub_cancel, List.take_left]
  rw [ProseKind.inner, opened, closed]

end TripleQuotes

end CodeProse
