import CodeProse.Proofs.Language.QuotedRegions
import CodeProse.Proofs.Prose.Leak
import CodeProse.Proofs.Prose.Listing
import CodeProse.Proofs.Prose.Order
import CodeProse.Proofs.Prose.Stretch

/-!
# Spans of strings

A line that carries strings gives a span for each of its quotations whose content is worth
correcting, and nothing else. Where the scan takes the line by itself, these are the spans of the code
on that line.
-/

set_option autoImplicit false

namespace CodeProse

section Line

variable {options : ExtractionOptions} {origin : Position} {rows : List Text} {index : Nat}
  {quotation : Quotation}

/-- Whether the content of a quotation is more than blanks and worth correcting without those around
it. -/
def Quotation.isAdmitted (options : ExtractionOptions) (quotation : Quotation) : Bool :=
  !quotation.content.isBlank && options.includes (Text.trim quotation.content)

/-- The span of a string: the content of a quotation without the blanks around it, at its place in
the line. -/
structure Span.IsContentOf (origin : Position) (index : Nat) (quotation : Quotation)
    (span : Span) : Prop where
  kind : span.kind = .string
  trimmed : Text.trim span.text = span.text
  place : ∃ before after : Text, before.isBlank = true ∧ after.isBlank = true ∧
    quotation.content = before ++ (span.text ++ after) ∧
    span.range = ⟨origin.within index (quotation.offset + 1 + before.length),
      origin.within index (quotation.offset + 1 + before.length + span.text.length)⟩

/-- The spans that a line of a code gives by what it carries. -/
def spansOfLine (registry : Registry) (language : Text) (options : ExtractionOptions)
    (origin : Position) (code : Text) (index : Nat) : List Span :=
  let line := (codeLines code).getD index []
  (Fragment.ofLine index line (registry.classify? language line)).filterMap
    (Fragment.toSpan? options origin (codeLines code))

theorem Fragment.ofQuotation?_of_isBlank (blank : quotation.content.isBlank = true) :
    Fragment.ofQuotation? index quotation = none := by
  rw [Fragment.ofQuotation?, Text.trim_eq_nil_iff.mpr blank]
  rfl

theorem Fragment.exists_ofQuotation? (index : Nat) (worded : quotation.content.isBlank = false) :
    ∃ before after : Text, before.isBlank = true ∧ after.isBlank = true ∧
      quotation.content = before ++ (Text.trim quotation.content ++ after) ∧
      Fragment.ofQuotation? index quotation =
        some ⟨Text.trim quotation.content, .string, index, quotation.offset + 1 + before.length,
          index, quotation.offset + 1 + before.length + (Text.trim quotation.content).length⟩ := by
  have some : Text.trim quotation.content ≠ [] := fun none => by
    rw [Text.trim_eq_nil_iff.mp none] at worded
    cases worded
  obtain ⟨before, after, blankBefore, blankAfter, shape⟩ := Text.exists_trim_eq quotation.content
  refine ⟨before, after, blankBefore, blankAfter, shape, ?_⟩
  have start := Text.trimStart_of_between (Text.isSolid_trim some) blankBefore after
  rw [← shape] at start
  have indent : quotation.content.length - (Text.trimStart quotation.content).length =
      before.length := by
    rw [start]
    have whole := congrArg List.length shape
    rw [List.length_append] at whole
    omega
  unfold Fragment.ofQuotation?
  dsimp only
  rw [if_neg (by simpa using some), indent]

theorem spanOf?_of_not_isAdmitted (refused : quotation.isAdmitted options = false) :
    (Fragment.ofQuotation? index quotation).bind (Fragment.toSpan? options origin rows) = none := by
  cases blank : quotation.content.isBlank with
  | true => rw [Fragment.ofQuotation?_of_isBlank blank, Option.bind_none]
  | false =>
      obtain ⟨before, after, -, -, -, found⟩ := Fragment.exists_ofQuotation? index blank
      rw [Quotation.isAdmitted, blank, Bool.not_false, Bool.true_and] at refused
      rw [found, Option.bind_some, Fragment.toSpan?, if_neg (by simp [refused])]

theorem exists_spanOf?_of_isAdmitted (admitted : quotation.isAdmitted options = true) :
    ∃ span, (Fragment.ofQuotation? index quotation).bind (Fragment.toSpan? options origin rows) =
      some span ∧ span.IsContentOf origin index quotation := by
  rw [Quotation.isAdmitted, Bool.and_eq_true, Bool.not_eq_true'] at admitted
  obtain ⟨worded, included⟩ := admitted
  obtain ⟨before, after, blankBefore, blankAfter, shape, found⟩ :=
    Fragment.exists_ofQuotation? index worded
  rw [found, Option.bind_some, Fragment.toSpan?, if_pos included]
  refine ⟨_, rfl, ?_⟩
  exact ⟨rfl, Text.trim_trim, before, after, blankBefore, blankAfter, shape, rfl⟩

variable {registry : Registry} {language code : Text}

theorem forall₂_spansOfLine
    (string : registry.classify? language ((codeLines code).getD index []) = some .string) :
    List.Forall₂ (fun quotation span => Span.IsContentOf origin index quotation span)
      ((quotations ((codeLines code).getD index [])).filter (Quotation.isAdmitted options))
      (spansOfLine registry language options origin code index) := by
  unfold spansOfLine
  dsimp only
  rw [string, Fragment.ofLine, List.filterMap_filterMap]
  refine forall₂_filter_filterMap _ ?_ ?_
  · exact fun quotation admitted => exists_spanOf?_of_isAdmitted admitted
  · exact fun quotation refused => spanOf?_of_not_isAdmitted refused

end Line

section Code

theorem scanLine_of_stays {rules : ScanRules} {index : Nat} {line : Text}
    (stays : (scanLine rules .code index line).1 = .code) :
    (scanLine rules .code index line).2 = Fragment.ofLine index line (rules.classify? line) := by
  rw [scanLine] at stays ⊢
  split at stays
  · cases stays
  · next unopened =>
      rw [if_neg unopened]
      split at stays
      · cases stays
      · rfl

/-- The fragments on a line that the scan takes by itself. -/
theorem filter_scan_line (rules : ScanRules) {rows : List Text} {index : Nat}
    (known : index < rows.length) (plain : ∀ row ∈ rows, .scalar '\n' ∉ row)
    (reached : (scanFrom rules .code 0 (rows.take index)).1 = .code)
    (stays : (scanLine rules .code index (rows.getD index [])).1 = .code) :
    (scanFrom rules .code 0 rows).2.filter
        (fun fragment => decide (index ≤ fragment.startLine ∧ fragment.stopLine < index + 1)) =
      Fragment.ofLine index (rows.getD index []) (rules.classify? (rows.getD index [])) := by
  have below : index < index + 1 := Nat.lt_succ_self index
  have lowered := scanLine_lowered index 0 rules .code (rows.getD index [])
  rw [ScanMode.lowered, Nat.zero_add] at lowered
  rw [scan_stretch rules (Nat.le_of_lt below) known reached plain, slice_eq_cons below known,
    slice_self]
  simp only [scanFrom, List.append_nil]
  rw [← scanLine_of_stays stays, lowered]

variable {registry : Registry} {language : Text} {options : ExtractionOptions} {origin : Position}
  {code : Text} {index : Nat}

/-- Whether a span of a code that starts at `origin` stands on one of its lines. -/
def Span.isOnRow (origin : Position) (index : Nat) (span : Span) : Bool :=
  decide (span.startRow origin = index ∧ span.stopRow origin = index)

theorem filter_isOnRow_foundSpans (known : index < (codeLines code).length)
    (reached : (scanFrom (registry.scanRules language) .code 0 ((codeLines code).take index)).1 =
      .code)
    (stays : (scanLine (registry.scanRules language) .code index
      ((codeLines code).getD index [])).1 = .code) :
    (foundSpans registry language options origin code).filter (Span.isOnRow origin index) =
      (spansOfLine registry language options origin code index).filter fun span =>
        Binary64.less confidenceThreshold span.confidence := by
  have plain := lineFeed_not_mem_codeLines code
  obtain ⟨stand, -⟩ := scan_places (registry.scanRules language) plain
  have line := filter_scan_line (registry.scanRules language) known plain reached stays
  rw [foundSpans, List.filter_comm]
  refine congrArg (List.filter _) ((filter_filterMap_eq ?_).trans (congrArg _ line))
  intro fragment member span placed
  -- What starts no earlier and stops no later than the line does both on it.
  have extent := (stand fragment member).extent
  obtain ⟨-, -, range⟩ := Fragment.toSpan?_eq_some placed
  simp only [Span.isOnRow, Span.startRow, Span.stopRow, range, Fragment.rangeFrom,
    Position.toNat_line_within]
  exact decide_eq_decide.mpr (by omega)

theorem lt_length_of_classify?
    (carries : registry.classify? language ((codeLines code).getD index []) ≠ none) :
    index < (codeLines code).length := by
  by_contra beyond
  have missing : (codeLines code).getD index [] = [] := by
    simp [List.getD_eq_getElem?_getD, Nat.le_of_not_lt beyond]
  rw [missing] at carries
  exact carries rfl

/-- A line that carries strings has one list of quotations, and gives a span for each of them that is
admitted, in order. Where the scan takes the line by itself, these are the spans of the code on that
line, as far as they are likely to be prose. -/
theorem spansOfLine_quotations (registry : Registry) (language : Text)
    (options : ExtractionOptions) (origin : Position) (code : Text) (index : Nat)
    (string : registry.classify? language ((codeLines code).getD index []) = some .string) :
    (∃ regions, AreQuotationsFrom ((codeLines code).getD index []) 0 regions ∧
      (∀ others, AreQuotationsFrom ((codeLines code).getD index []) 0 others → others = regions) ∧
      List.Forall₂ (fun quotation span => Span.IsContentOf origin index quotation span)
        (regions.filter (Quotation.isAdmitted options))
        (spansOfLine registry language options origin code index)) ∧
      ((scanFrom (registry.scanRules language) .code 0 ((codeLines code).take index)).1 = .code →
        (scanLine (registry.scanRules language) .code index
          ((codeLines code).getD index [])).1 = .code →
        (Span.inDocumentOrder (extract registry language options origin code)).filter
            (Span.isOnRow origin index) =
          (spansOfLine registry language options origin code index).filter fun span =>
            Binary64.less confidenceThreshold span.confidence) := by
  have plain : .scalar '\n' ∉ (codeLines code).getD index [] :=
    Text.lineFeed_not_mem_getD (lineFeed_not_mem_codeLines code) index
  constructor
  · refine ⟨_, (areQuotationsFrom_zero_iff plain).mpr rfl, ?_, forall₂_spansOfLine string⟩
    exact fun others all => (areQuotationsFrom_zero_iff plain).mp all
  · intro reached stays
    have known := lt_length_of_classify? (string ▸ Option.some_ne_none _)
    rw [inDocumentOrder_extract]
    exact filter_isOnRow_foundSpans known reached stays

/-- A line with escaped quotes, an empty string, and a quote of one kind in a string of another. -/
def quotedCode : Text := "x = f(\" Teh \\\"cat\\\" sleeps. \", '', \x60it's\x60)"

theorem spansOfLine_quotations_quotedCode :
    ((Span.inDocumentOrder (extract .builtin "python" {} .zero quotedCode)).filter
        (Span.isOnRow .zero 0)).map Span.text =
      ["Teh \\\"cat\\\" sleeps.".toText, "it's"] ∧
    ∃ regions, AreQuotationsFrom ((codeLines quotedCode).getD 0 []) 0 regions ∧
      regions.map Quotation.content = [" Teh \\\"cat\\\" sleeps. ".toText, "", "it's"] := by
  obtain ⟨⟨regions, all, only, -⟩, listed⟩ :=
    spansOfLine_quotations .builtin "python" {} .zero quotedCode 0 (by decide +kernel)
  refine ⟨?_, regions, all, ?_⟩
  · rw [listed (by decide +kernel) (by decide +kernel)]
    decide +kernel
  · rw [← only _ ((areQuotationsFrom_zero_iff (by decide +kernel)).mpr rfl)]
    decide +kernel

end Code

end CodeProse
