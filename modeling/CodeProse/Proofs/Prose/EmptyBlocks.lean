import CodeProse.Proofs.Prose.Listing
import CodeProse.Proofs.Prose.Sources

/-!
# Spans without text

A string, a comment or a documentation string on one line gives no span when nothing is left of it
behind its marks. A block over several lines is not asked: where the options admit the empty text, a
block of decoration is listed with no text at all.
-/

set_option autoImplicit false

namespace CodeProse

section Decoration

variable {text row : Text}

/-- A row that carries no words: stars between blanks. -/
def IsDecoration (row : Text) : Prop :=
  ∀ char ∈ Text.trim row, char = '*'

theorem Text.IsSolid.isBlank_suffix {back : Text} (solid : text.IsSolid) (within : back <:+ text)
    (some : back ≠ []) : back.isBlank = false := by
  obtain ⟨front, last, rfl⟩ := (List.eq_nil_or_concat' back).resolve_left some
  obtain ⟨before, rfl⟩ := within
  have firm := solid.last
  rw [← List.append_assoc, List.getLast?_concat] at firm
  refine List.all_eq_false.mpr ⟨last, by simp, ?_⟩
  simpa using firm

theorem isBlank_dropStars_iff (solid : text.IsSolid) :
    (dropStars text).isBlank = true ↔ ∀ char ∈ text, char = '*' := by
  have whole := solid.isBlank_suffix (List.suffix_refl text) solid.ne_nil
  unfold dropStars
  split
  · next starred =>
      obtain ⟨behind, rfl⟩ := List.isPrefixOf_iff_prefix.mp starred
      split
      · next none =>
          refine iff_of_true rfl fun char member => ?_
          simpa using List.dropWhile_eq_nil_iff.mp none char member
      · next char rest dropped =>
          have within := List.dropWhile_suffix (l := "*".toText ++ behind) (· == .scalar '*')
          have other := List.head?_dropWhile_not (· == .scalar '*') ("*".toText ++ behind)
          rw [dropped] at within other
          have firm := solid.isBlank_suffix within (List.cons_ne_nil char rest)
          -- A star before a slash stays, one blank goes with the stars; words are left of the rest.
          refine iff_of_false (Bool.not_eq_true _ ▸ ?_) fun stars => ?_
          · split
            · rfl
            · split
              · next blank =>
                  refine solid.isBlank_suffix ((List.suffix_cons char rest).trans within) ?_
                  rintro rfl
                  simp [Text.isBlank, blank] at firm
              · exact firm
          · simp [stars char (within.subset List.mem_cons_self)] at other
  · next plain =>
      refine iff_of_false (by simp [whole]) fun stars => plain ?_
      obtain ⟨first, rest, rfl⟩ := List.exists_cons_of_ne_nil solid.ne_nil
      rw [stars first List.mem_cons_self]
      rfl

theorem trim_dropStars_trim_eq_nil_iff :
    Text.trim (dropStars (Text.trim row)) = [] ↔ IsDecoration row := by
  rw [Text.trim_eq_nil_iff]
  by_cases none : Text.trim row = []
  · rw [IsDecoration, none]
    exact iff_of_true rfl fun char member => absurd member List.not_mem_nil
  · exact isBlank_dropStars_iff (Text.isSolid_trim none)

theorem isBlank_unlines_iff {rows : List Text} :
    (Text.unlines rows).isBlank = true ↔ ∀ row ∈ rows, row.isBlank = true := by
  induction rows with
  | nil => exact iff_of_true rfl fun row member => absurd member List.not_mem_nil
  | cons first rows ih =>
      cases rows with
      | nil => rw [Text.unlines_singleton, List.forall_mem_singleton]
      | cons second rows =>
          rw [Text.unlines_cons (List.cons_ne_nil second rows), Text.isBlank_append,
            Bool.and_eq_true, List.forall_mem_cons, ← ih]
          exact and_congr_right fun _ => Iff.rfl

theorem trim_cleanLines_eq_nil_iff :
    Text.trim (cleanLines text) = [] ↔ ∀ row ∈ text.lines, IsDecoration row := by
  rw [Text.trim_eq_nil_iff, cleanLines, isBlank_unlines_iff, List.forall_mem_map]
  refine forall₂_congr fun row _ => ?_
  rw [← Text.trim_eq_nil_iff, Text.trim_trim, trim_dropStars_trim_eq_nil_iff]

/-- What the rows of the prose are cut from, in a piece of code without its marks. -/
def ProseKind.between : ProseKind → Text → Text
  | comment, text => dropNumberSign (comment.inner text)
  | kind, text => kind.inner text

/-- Nothing is left of a comment or documentation string exactly if all its rows are decoration. -/
theorem ProseKind.clean_eq_nil_iff {kind : ProseKind} (other : kind ≠ .string) :
    clean (some kind) text = [] ↔
      ∀ row ∈ (kind.between (Text.trim text)).lines, IsDecoration row := by
  cases kind with
  | comment => exact trim_cleanLines_eq_nil_iff
  | docstring => exact trim_cleanLines_eq_nil_iff
  | string => exact absurd rfl other

end Decoration

section Admission

variable {options : ExtractionOptions} {text : Text}

theorem foldChar_ne_nil (char : CodePoint) : foldChar char ≠ [] := by
  have several : ∀ entry ∈ foldExpansions, entry.2 ≠ [] := by decide +kernel
  unfold foldChar
  dsimp only
  split
  · exact List.cons_ne_nil _ _
  · split
    · next expansion found =>
        obtain ⟨front, back, table, -⟩ := List.lookup_eq_some_iff.mp found
        have listed : (char.toNat, expansion) ∈ foldExpansions :=
          table ▸ List.mem_append_right front List.mem_cons_self
        exact fun none => several _ listed (List.map_eq_nil_iff.mp none)
    · split
      · exact List.cons_ne_nil _ _
      · exact List.cons_ne_nil _ _

theorem caseFold_eq_nil_iff : text.caseFold = [] ↔ text = [] := by
  rw [Text.caseFold, List.flatMap_eq_nil_iff]
  constructor
  · intro none
    exact List.eq_nil_iff_forall_not_mem.mpr fun char member =>
      foldChar_ne_nil char (none char member)
  · rintro rfl char member
    exact absurd member List.not_mem_nil

theorem includes_nil_iff :
    options.includes [] = true ↔ options.minLength ≤ 0 ∧ 0 ≤ options.maxLength := by
  rw [includes_iff_admits rfl]
  constructor
  · exact fun admits => ⟨admits.longEnough, admits.shortEnough⟩
  · rintro ⟨longEnough, shortEnough⟩
    refine ⟨longEnough, shortEnough, ?_, fun some => absurd rfl some, ?_⟩
    · intro pattern _ some found
      exact some (caseFold_eq_nil_iff.mp (List.infix_nil.mp found))
    · rintro scheme member rest shape some
      exact absurd (List.append_eq_nil_iff.mp shape.symm).2 some

end Admission

section Extraction

variable {registry : Registry} {language : Text} {options : ExtractionOptions} {origin : Position}
  {code : Text} {span : Span} {fragment : Fragment}

/-- A block over several lines with nothing but decoration between its marks. -/
def Fragment.IsBare (rows : List Text) (fragment : Fragment) : Prop :=
  ∃ opener closer, fragment.IsBlock rows opener closer ∧
    ∀ row ∈ (fragment.kind.between (Text.trim (blockBody opener closer
      (rows.getD fragment.startLine [])
      (slice rows (fragment.startLine + 1) fragment.stopLine)
      (rows.getD fragment.stopLine [])))).lines, IsDecoration row

theorem BlockOpens.ne_string {kind : ProseKind} {opener closer line : Text}
    (opens : BlockOpens kind opener closer line) : kind ≠ .string := by
  cases opens with
  | comment => exact ProseKind.noConfusion
  | docstring => exact ProseKind.noConfusion

theorem Fragment.IsBlock.isBare_iff {rows : List Text} {opener closer : Text}
    (block : fragment.IsBlock rows opener closer) : fragment.IsBare rows ↔ fragment.text = [] := by
  constructor
  · rintro ⟨opener, closer, other, bare⟩
    rw [other.text, ProseKind.clean_eq_nil_iff other.opens.ne_string]
    exact bare
  · intro none
    rw [block.text, ProseKind.clean_eq_nil_iff block.opens.ne_string] at none
    exact ⟨opener, closer, block, none⟩

theorem Fragment.StandsIn.text_ne_nil {rows : List Text} (stands : fragment.StandsIn rows)
    (single : fragment.startLine = fragment.stopLine) : fragment.text ≠ [] := by
  have within : fragment.stopColumn ≤ (rows.getD fragment.startLine []).length :=
    single ▸ stands.stopWithin
  have extent := stands.extent
  rw [← stands.source single, ← List.length_pos_iff, length_slice _ _ _ within]
  omega

theorem Fragment.ComesOf.isBare_iff {rules : ScanRules} {rows : List Text}
    (comes : fragment.ComesOf rules rows) (stands : fragment.StandsIn rows)
    (plain : ∀ row ∈ rows, .scalar '\n' ∉ row) : fragment.IsBare rows ↔ fragment.text = [] := by
  constructor
  · rintro ⟨opener, closer, block, bare⟩
    exact block.isBare_iff.mp ⟨opener, closer, block, bare⟩
  · intro none
    -- On a single line a fragment has an extent, and its text stands there.
    obtain ⟨opener, closer, block⟩ :=
      comes.isBlock plain fun single => stands.text_ne_nil single none
    exact block.isBare_iff.mpr none

theorem less_confidence_nil (kind : ProseKind) :
    Binary64.less confidenceThreshold (confidence (some kind) []) = true := by
  cases kind <;> decide +kernel

/-- A span has no text exactly if it is cut from a block of decoration. One is listed exactly if
there is such a block and the options admit the empty text. -/
theorem extract_text_eq_nil (registry : Registry) (language : Text) (options : ExtractionOptions)
    (origin : Position) (code : Text) :
    (∀ span ∈ extract registry language options origin code, span.text = [] ↔
      ∃ fragment, span.CutFrom (registry.scanRules language) origin code fragment ∧
        fragment.IsBare (codeLines code)) ∧
      ((∃ span ∈ extract registry language options origin code, span.text = []) ↔
        (options.minLength ≤ 0 ∧ 0 ≤ options.maxLength) ∧
          ∃ fragment ∈ (scanFrom (registry.scanRules language) .code 0 (codeLines code)).2,
            fragment.IsBare (codeLines code)) := by
  have plain := lineFeed_not_mem_codeLines code
  have stand := (scan_places (registry.scanRules language) plain).1
  have come := scan_comesOf (registry.scanRules language) (codeLines code)
  refine ⟨fun span member => ?_, ?_⟩
  · constructor
    · intro none
      obtain ⟨fragment, cut⟩ := exists_cutFrom member
      exact ⟨fragment, cut, (cut.comes.isBare_iff cut.stands plain).mpr (cut.text ▸ none)⟩
    · rintro ⟨fragment, cut, bare⟩
      exact cut.text.trans ((cut.comes.isBare_iff cut.stands plain).mp bare)
  · constructor
    · rintro ⟨span, member, none⟩
      obtain ⟨⟨fragment, found, placed⟩, -⟩ := mem_extract_iff.mp member
      have text := (Fragment.toSpan?_eq_some placed).1.symm.trans none
      have included := (Fragment.included_of_toSpan?_eq_some placed).1
      rw [text, includes_nil_iff] at included
      refine ⟨included, fragment, found, ?_⟩
      exact ((come fragment found).isBare_iff (stand fragment found) plain).mpr text
    · rintro ⟨admitted, fragment, found, bare⟩
      have text := ((come fragment found).isBare_iff (stand fragment found) plain).mp bare
      have included : options.includes fragment.text = true :=
        text ▸ includes_nil_iff.mpr admitted
      obtain ⟨span, placed⟩ := Fragment.exists_toSpan?_eq_some (codeLines code) included
      have likely := (Fragment.included_of_toSpan?_eq_some placed).2
      refine ⟨span, mem_extract_iff.mpr ⟨⟨fragment, found, placed⟩, ?_⟩, ?_⟩
      · rw [likely, text]
        exact less_confidence_nil fragment.kind
      · exact (Fragment.toSpan?_eq_some placed).1.trans text

theorem extract_text_eq_nil_rule :
    ∃ fragment : Fragment, fragment.IsBare (codeLines "/***\n *\n ***/") := by
  have listed : ∃ span ∈ extract .builtin "java" { minLength := -1 } .zero "/***\n *\n ***/",
      span.text = [] := by
    decide +kernel
  obtain ⟨-, fragment, -, bare⟩ :=
    (extract_text_eq_nil .builtin "java" { minLength := -1 } .zero "/***\n *\n ***/").2.mp listed
  exact ⟨fragment, bare⟩

/-- Where no text is too short, a block comment of nothing but a line feed is listed. -/
theorem not_forall_text_ne_nil :
    ¬ ∀ (registry : Registry) (language : Text) (options : ExtractionOptions) (origin : Position)
      (code : Text), ∀ span ∈ extract registry language options origin code, span.text ≠ [] := by
  intro some
  have listed : ∃ span ∈ extract .builtin "java" { minLength := 0 } .zero "/*\n*/",
      span.text = [] := by
    decide +kernel
  obtain ⟨span, member, none⟩ := listed
  exact some _ _ _ _ _ span member none

end Extraction

end CodeProse
