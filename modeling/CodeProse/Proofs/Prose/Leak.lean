import CodeProse.Proofs.Prose.Blocks
import CodeProse.Proofs.Prose.Extraction
import CodeProse.Proofs.Prose.Scan

/-!
# Code behind closers

The prose of a block should stop at its closer. It does so exactly where no further closer is left
between the opening mark and the one closing mark that is taken for the closer of the block.
-/

set_option autoImplicit false

namespace CodeProse

section Blocks

/-- The closer of the block that a line opens, for prose of a kind. -/
def blockCloser? (kind : ProseKind) (line : Text) : Option Text :=
  match kind with
  | .comment => if "/*".toText.isPrefixOf (Text.trimStart line) then some "*/" else none
  | .docstring =>
      if "/*".toText.isPrefixOf (Text.trimStart line) then some "*/"
      else leadingTripleQuote? (Text.trimStart line)
  | .string => none

/-- The piece of a line that holds its prose of a kind, with the marks around it. -/
def ProseKind.marked (kind : ProseKind) (line : Text) : Text :=
  match kind with
  | comment => Text.trim ((commentBody? line).getD [])
  | _ => Text.trim line

/-- What stands between the opener of a block and the mark that is taken for its closer. Of a block
over several lines this is the last line before the last closer there; the lines before hold none. -/
def blockRest (kind : ProseKind) (closer : Text) (rows : List Text) (start stop : Nat) : Text :=
  if start < stop then
    (rows.getD stop []).take ((Text.lastIndexOf? closer (rows.getD stop [])).getD 0)
  else kind.inner (kind.marked (rows.getD start []))

variable {rows : List Text} {closer : Text}

theorem mem_blockClosers_of_blockCloser? {kind : ProseKind} {line : Text}
    (opened : blockCloser? kind line = some closer) : closer ∈ blockClosers := by
  unfold blockCloser? at opened
  split at opened
  · split at opened
    · cases opened
      exact List.mem_cons_self
    · cases opened
  · split at opened
    · cases opened
      exact List.mem_cons_self
    · exact mem_blockClosers_of_mem_tripleQuotes (leadingTripleQuote?_eq_some opened).1
  · cases opened

/-- A line that opens a documentation string over several lines opens no other block. -/
theorem blockCloser?_of_opensDocstring? {line delimiter : Text}
    (opened : opensDocstring? line = some delimiter) :
    blockCloser? .docstring line = some delimiter := by
  obtain ⟨leading, -⟩ := opensDocstring?_eq_some opened
  have plain : "/*".toText.isPrefixOf (Text.trimStart line) = false := by
    rw [Bool.eq_false_iff, ne_eq, List.isPrefixOf_iff_prefix]
    rintro ⟨rest, starred⟩
    rw [← starred] at leading
    cases leading
  simp only [blockCloser?, plain, Bool.false_eq_true, if_false]
  exact leading

/-- The mark that closes a block over several lines is that of the line which opens it. -/
theorem BlockOpens.blockCloser?_eq {kind : ProseKind} {opener line : Text}
    (opens : BlockOpens kind opener closer line) : blockCloser? kind line = some closer := by
  cases opens with
  | comment opened =>
      have front : "/*".toText.isPrefixOf (Text.trimStart line) = true :=
        (Bool.and_eq_true_iff.mp opened).2
      rw [blockCloser?, if_pos front]
  | docstring opened => exact blockCloser?_of_opensDocstring? opened

/-- In a block over several lines a closer gets into the prose exactly if one stands on the last line
before the last one there. -/
theorem BlockOpens.infix_inner_iff {kind : ProseKind} {opener first last : Text}
    {inner : List Text} {index : Nat} (opens : BlockOpens kind opener closer first)
    (inside : ∀ row ∈ inner, Text.contains closer row = false)
    (closed : Text.lastIndexOf? closer last = some index) :
    closer <:+: kind.inner (Text.trim (blockBody opener closer first inner last)) ↔
      closer <:+: last.take index := by
  cases opens with
  | comment opened => exact infix_inner_blockComment_iff opened inside closed
  | docstring opened => exact infix_inner_blockDocstring_iff opened inside closed

/-- A comment or documentation string of one line is what is left of the marked piece. -/
theorem Fragment.infix_text_iff_of_mem_ofLine {index : Nat} {line : Text}
    {kind? : Option ProseKind} {fragment : Fragment}
    (member : fragment ∈ Fragment.ofLine index line kind?) (closes : closer ∈ blockClosers)
    (prose : fragment.kind ≠ .string) :
    fragment.startLine = index ∧ fragment.stopLine = index ∧
      (closer <:+: fragment.text ↔ closer <:+: fragment.kind.inner (fragment.kind.marked line)) := by
  cases kind? with
  | none => cases member
  | some kind =>
      cases kind with
      | comment =>
          rw [Fragment.ofLine, Option.mem_toList, Option.bind_eq_some_iff] at member
          obtain ⟨body, comment, found⟩ := member
          obtain ⟨text, kind, start, stop⟩ := Fragment.ofMarked?_eq_some found
          refine ⟨start, stop, ?_⟩
          rw [text, kind, ProseKind.infix_clean_iff closes, ProseKind.marked, comment,
            Option.getD_some]
      | docstring =>
          rw [Fragment.ofLine, Option.mem_toList] at member
          obtain ⟨text, kind, start, stop⟩ := Fragment.ofMarked?_eq_some member
          refine ⟨start, stop, ?_⟩
          rw [text, kind, ProseKind.infix_clean_iff closes, ProseKind.marked, Text.trim_trim]
          exact fun same => by cases same
      | string =>
          rw [Fragment.ofLine] at member
          obtain ⟨quotation, -, found⟩ := List.mem_filterMap.mp member
          exact absurd (Fragment.ofQuotation?_eq_some found).2.1 prose

/-- A closer of its block gets into a fragment exactly if it stands in the rest of the block. -/
theorem Fragment.ComesOf.infix_text_iff {rules : ScanRules} {fragment : Fragment}
    (comes : fragment.ComesOf rules rows)
    (opened : blockCloser? fragment.kind (rows.getD fragment.startLine []) = some closer) :
    closer <:+: fragment.text ↔
      closer <:+: blockRest fragment.kind closer rows fragment.startLine fragment.stopLine := by
  have closes := mem_blockClosers_of_blockCloser? opened
  cases comes with
  | line member =>
      have prose : fragment.kind ≠ .string := by
        intro quoted
        rw [quoted] at opened
        cases opened
      obtain ⟨start, stop, text⟩ := Fragment.infix_text_iff_of_mem_ofLine member closes prose
      rw [blockRest, start, stop, if_neg (Nat.lt_irrefl _)]
      exact text
  | @block kind opener mark first inner start stop since known closed =>
      obtain ⟨before, line, opens, inside, -⟩ := since
      have same : mark = closer := by
        have own := opens.blockCloser?_eq
        rw [line] at own
        exact Option.some.inj (own.symm.trans opened)
      subst same
      obtain ⟨index, last⟩ := Text.exists_lastIndexOf? closed
      show mark <:+: ProseKind.clean (some kind) _ ↔ mark <:+: blockRest kind mark rows start stop
      rw [ProseKind.infix_clean_iff closes, blockRest, if_pos before, last, Option.getD_some]
      exact opens.infix_inner_iff inside last

end Blocks

section Spans

/-- The number of the line that a span starts on, in a code that starts at `origin`. -/
def Span.startRow (origin : Position) (span : Span) : Nat :=
  (span.range.start.line - origin.line).toNat

def Span.stopRow (origin : Position) (span : Span) : Nat :=
  (span.range.stop.line - origin.line).toNat

theorem Position.toNat_line_within (origin : Position) (line column : Nat) :
    ((origin.within line column).line - origin.line).toNat = line := by
  rw [Position.within]
  split
  · next first => simp [first]
  · show (origin.line + line - origin.line).toNat = line
    omega

variable {registry : Registry} {language : Text} {options : ExtractionOptions}
  {origin : Position} {code closer : Text} {span : Span}

/-- The prose of a block holds the closer of the block exactly if the rest of the block does, that
is if a further closer stands before the one that is taken off. -/
theorem contains_closer_iff (member : span ∈ extract registry language options origin code)
    (opened : blockCloser? span.kind ((codeLines code).getD (span.startRow origin) []) =
      some closer) :
    Text.contains closer span.text = true ↔
      Text.contains closer (blockRest span.kind closer (codeLines code) (span.startRow origin)
        (span.stopRow origin)) = true := by
  obtain ⟨fragment, -, comes, text, kind, range⟩ := exists_cutFrom member
  have start : span.startRow origin = fragment.startLine := by
    rw [Span.startRow, range]
    exact Position.toNat_line_within origin fragment.startLine fragment.startColumn
  have stop : span.stopRow origin = fragment.stopLine := by
    rw [Span.stopRow, range]
    exact Position.toNat_line_within origin fragment.stopLine fragment.stopColumn
  rw [kind, start] at opened
  rw [Text.contains_iff_isInfix, Text.contains_iff_isInfix, text, kind, start, stop]
  exact comes.infix_text_iff opened

/-- A block comment with a second one behind its closer: the closer and the code between the two
get into its prose. -/
theorem contains_closer_twoComments :
    ∃ span ∈ extract .builtin "java" {} .zero "/* Adds two\n numbers. */ int x; /* One. */",
      Text.contains "*/" span.text = true := by
  have found : ∃ span ∈ extract .builtin "java" {} .zero
        "/* Adds two\n numbers. */ int x; /* One. */",
      blockCloser? span.kind ((codeLines "/* Adds two\n numbers. */ int x; /* One. */").getD
          (span.startRow .zero) []) = some "*/".toText ∧
        Text.contains "*/" (blockRest span.kind "*/"
          (codeLines "/* Adds two\n numbers. */ int x; /* One. */") (span.startRow .zero)
            (span.stopRow .zero)) = true := by
    decide +kernel
  obtain ⟨span, member, opened, rest⟩ := found
  exact ⟨span, member, (contains_closer_iff member opened).mpr rest⟩

/-- Code behind a documentation comment that closes on its own line gets into the prose, with the
closer. -/
theorem not_forall_contains_closer_eq_false :
    ¬ ∀ (language : Text) (options : ExtractionOptions) (code : Text),
      ∀ span ∈ extract .builtin language options .zero code, ∀ closer,
        blockCloser? span.kind ((codeLines code).getD (span.startRow .zero) []) = some closer →
          Text.contains closer span.text = false := by
  intro closed
  have leak : ∃ span ∈ extract .builtin "java" {} .zero "/** Adds two numbers. */ int x = 1;",
      blockCloser? span.kind ((codeLines "/** Adds two numbers. */ int x = 1;").getD
          (span.startRow .zero) []) = some "*/".toText ∧
        Text.contains "*/" span.text = true := by
    decide +kernel
  obtain ⟨span, member, opened, present⟩ := leak
  rw [closed _ _ _ span member _ opened] at present
  cases present

end Spans

end CodeProse
