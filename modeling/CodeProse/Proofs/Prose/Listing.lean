import CodeProse.Proofs.Numeric.Binary64
import CodeProse.Proofs.Prose.Extraction

/-!
# Which spans are listed

A code gives a span for every fragment whose prose is worth correcting and likely to be prose. The
spans are listed by falling confidence, and in document order where they are equally likely.
-/

set_option autoImplicit false

namespace CodeProse

section Filter

variable {options : ExtractionOptions} {text rest : Text}

/-- How the address of a web page starts. -/
def webSchemes : List Text := ["http://", "https://"]

/-- What an extraction asks of a text: a fitting length, none of the words to ignore in any case of
their letters, and more than operators or an address. -/
structure ExtractionOptions.Admits (options : ExtractionOptions) (text : Text) : Prop where
  longEnough : options.minLength ≤ text.length
  shortEnough : text.length ≤ options.maxLength
  heeded : ∀ pattern ∈ options.ignorePatterns, pattern ≠ [] → ¬ pattern.caseFold <:+: text.caseFold
  notOperators : text ≠ [] → ∃ char ∈ text, char ∉ operatorChars
  notAddress : ∀ scheme ∈ webSchemes, ∀ rest : Text, text = scheme ++ rest → rest ≠ [] →
    ∃ char ∈ rest, isBlank char = true

theorem ignores_eq_false_iff : options.ignores text = false ↔
    ∀ pattern ∈ options.ignorePatterns, pattern ≠ [] →
      ¬ pattern.caseFold <:+: text.caseFold := by
  simp only [ExtractionOptions.ignores, List.any_eq_false, Bool.and_eq_true, Bool.not_eq_true',
    List.isEmpty_eq_false_iff, not_and, Text.contains_iff_isInfix]

theorem isCodeOnly_eq_false_iff (clear : text.dropFinalLineFeed = text) :
    isCodeOnly text = false ↔ (text ≠ [] → ∃ char ∈ text, char ∉ operatorChars) := by
  simp only [isCodeOnly, clear, Bool.and_eq_false_imp, Bool.not_eq_true', List.isEmpty_eq_false_iff,
    List.all_eq_false, List.elem_eq_mem, decide_eq_true_eq]

theorem afterScheme?_eq_some_iff : afterScheme? text = some rest ↔
    ∃ scheme ∈ webSchemes, text = scheme ++ rest := by
  constructor
  · intro found
    obtain ⟨scheme, member, here⟩ := List.exists_of_findSome?_eq_some found
    split at here
    · next front =>
        obtain ⟨behind, rfl⟩ := List.isPrefixOf_iff_prefix.mp front
        rw [List.drop_left] at here
        exact ⟨scheme, member, by rw [Option.some.inj here]⟩
    · cases here
  · rintro ⟨scheme, member, rfl⟩
    rcases List.mem_pair.mp member with rfl | rfl
    · rfl
    · rfl

theorem isBareAddress_eq_false_iff (clear : text.dropFinalLineFeed = text) :
    isBareAddress text = false ↔ ∀ scheme ∈ webSchemes, ∀ rest : Text, text = scheme ++ rest →
      rest ≠ [] → ∃ char ∈ rest, isBlank char = true := by
  rw [isBareAddress, clear]
  cases found : afterScheme? text with
  | none =>
      refine iff_of_true rfl fun scheme member rest shape => ?_
      rw [afterScheme?_eq_some_iff.mpr ⟨scheme, member, shape⟩] at found
      cases found
  | some rest =>
      simp only [Bool.and_eq_false_imp, Bool.not_eq_true', List.isEmpty_eq_false_iff,
        List.all_eq_false, Bool.not_eq_false]
      constructor
      · intro blank scheme member other shape
        have same := found.symm.trans (afterScheme?_eq_some_iff.mpr ⟨scheme, member, shape⟩)
        exact Option.some.inj same ▸ blank
      · obtain ⟨scheme, member, shape⟩ := afterScheme?_eq_some_iff.mp found
        exact fun blank => blank scheme member rest shape

theorem dropFinalLineFeed_of_trim (trimmed : Text.trim text = text) :
    text.dropFinalLineFeed = text := by
  rw [Text.dropFinalLineFeed, if_neg]
  intro feed
  have some : Text.trim text ≠ [] := by
    rw [trimmed]
    rintro rfl
    cases feed
  have last := (Text.isSolid_trim some).last
  rw [trimmed, feed] at last
  cases last

theorem includes_iff_admits (trimmed : Text.trim text = text) :
    options.includes text = true ↔ options.Admits text := by
  have clear := dropFinalLineFeed_of_trim trimmed
  simp only [ExtractionOptions.includes, Bool.and_eq_true, decide_eq_true_eq, Bool.not_eq_true',
    ignores_eq_false_iff, isCodeOnly_eq_false_iff clear, isBareAddress_eq_false_iff clear]
  constructor
  · rintro ⟨⟨⟨⟨longEnough, shortEnough⟩, heeded⟩, notOperators⟩, notAddress⟩
    exact ⟨longEnough, shortEnough, heeded, notOperators, notAddress⟩
  · rintro ⟨longEnough, shortEnough, heeded, notOperators, notAddress⟩
    exact ⟨⟨⟨⟨longEnough, shortEnough⟩, heeded⟩, notOperators⟩, notAddress⟩

end Filter

section Listing

variable {registry : Registry} {language : Text} {options : ExtractionOptions}
  {origin : Position} {code : Text} {span : Span} {fragment : Fragment}

/-- What is listed: admitted prose with the confidence that its text and kind give, above the
threshold. -/
structure Span.IsWorthwhile (options : ExtractionOptions) (span : Span) : Prop where
  admitted : options.Admits span.text
  confidence_eq : span.confidence = CodeProse.confidence (some span.kind) span.text
  likely : Binary64.less confidenceThreshold span.confidence = true
  atMostOne : Binary64.lessEq span.confidence 1 = true

theorem lessEq_confidence_one (kind? : Option ProseKind) (text : Text) :
    Binary64.lessEq (confidence kind? text) 1 = true := by
  unfold confidence
  dsimp only
  exact (Binary64.isShare_clampUnit _).2

theorem Fragment.included_of_toSpan?_eq_some {rows : List Text}
    (placed : fragment.toSpan? options origin rows = some span) :
    options.includes fragment.text = true ∧
      span.confidence = confidence (some fragment.kind) fragment.text := by
  rw [Fragment.toSpan?, Option.ite_none_right_eq_some, Option.some.injEq] at placed
  obtain ⟨included, rfl⟩ := placed
  exact ⟨included, by dsimp only⟩

theorem Fragment.exists_toSpan?_eq_some (rows : List Text)
    (included : options.includes fragment.text = true) :
    ∃ span, fragment.toSpan? options origin rows = some span := by
  rw [Fragment.toSpan?, if_pos included]
  exact ⟨_, rfl⟩

theorem isWorthwhile_of_mem_extract
    (member : span ∈ extract registry language options origin code) :
    span.IsWorthwhile options := by
  obtain ⟨⟨fragment, found, placed⟩, likely⟩ := mem_extract_iff.mp member
  obtain ⟨included, weighed⟩ := Fragment.included_of_toSpan?_eq_some placed
  obtain ⟨text, kind, -⟩ := Fragment.toSpan?_eq_some placed
  have admitted := (includes_iff_admits (scan_comesOf _ _ fragment found).trim_text).mp included
  refine ⟨text ▸ admitted, ?_, likely, ?_⟩
  · rw [weighed, kind, text]
  · rw [weighed]
    exact lessEq_confidence_one _ _

theorem exists_mem_extract
    (found : fragment ∈ (scanFrom (registry.scanRules language) .code 0 (codeLines code)).2)
    (admitted : options.Admits fragment.text)
    (likely : Binary64.less confidenceThreshold
      (confidence (some fragment.kind) fragment.text) = true) :
    ∃ span ∈ extract registry language options origin code,
      span.text = fragment.text ∧ span.kind = fragment.kind ∧
        span.range = fragment.rangeFrom origin := by
  have included := (includes_iff_admits (scan_comesOf _ _ fragment found).trim_text).mpr admitted
  obtain ⟨span, placed⟩ := Fragment.exists_toSpan?_eq_some (codeLines code) included
  have weighed := (Fragment.included_of_toSpan?_eq_some placed).2
  exact ⟨span, mem_extract_iff.mpr ⟨⟨fragment, found, placed⟩, weighed ▸ likely⟩,
    Fragment.toSpan?_eq_some placed⟩

theorem pairwise_lessEq_extract :
    (extract registry language options origin code).Pairwise fun left right =>
      Binary64.lessEq right.confidence left.confidence = true := by
  refine pairwise_stableSort ?_ ?_
  · intro left middle right first second
    exact Binary64.lessEq_trans _ _ _ second first
  · intro left leftMember right rightMember
    have number : ∀ span ∈ foundSpans registry language options origin code,
        span.confidence ≠ .nan := fun span member =>
      Binary64.ne_nan_of_less (List.mem_filter.mp member).2
    exact Binary64.lessEq_total (number right rightMember) (number left leftMember)

theorem pairwise_ties_extract :
    (extract registry language options origin code).Pairwise fun left right =>
      Binary64.lessEq left.confidence right.confidence = true →
        left.range.stop < right.range.start := by
  have moved := pairwise_sublist_stableSort
    (fun left right : Span => Binary64.lessEq right.confidence left.confidence)
    (foundSpans registry language options origin code)
  -- A stable sort keeps the two in the order of the scan, which is that of their ranges.
  refine moved.imp fun {left right} kept tie => ?_
  have pair := apart_foundSpans.sublist ((kept tie).map Span.range)
  exact List.rel_of_pairwise_cons pair List.mem_cons_self

/-- Every span of a code meets the conditions of the options, with the confidence that its text and
kind give. The list never rises in confidence, and equally likely spans stand in document order.
Nothing that meets the conditions is left out. -/
theorem extract_lists (registry : Registry) (language : Text) (options : ExtractionOptions)
    (origin : Position) (code : Text) :
    (∀ span ∈ extract registry language options origin code, span.IsWorthwhile options) ∧
      ((extract registry language options origin code).Pairwise fun left right =>
        Binary64.lessEq right.confidence left.confidence = true ∧
          (Binary64.lessEq left.confidence right.confidence = true →
            left.range.stop < right.range.start)) ∧
      ∀ fragment ∈ (scanFrom (registry.scanRules language) .code 0 (codeLines code)).2,
        options.Admits fragment.text →
        Binary64.less confidenceThreshold
          (confidence (some fragment.kind) fragment.text) = true →
        ∃ span ∈ extract registry language options origin code,
          span.text = fragment.text ∧ span.kind = fragment.kind ∧
            span.range = fragment.rangeFrom origin := by
  refine ⟨fun span member => isWorthwhile_of_mem_extract member, ?_, ?_⟩
  · exact pairwise_lessEq_extract.and pairwise_ties_extract
  · exact fun fragment found admitted likely => exists_mem_extract found admitted likely

/-- A string that is less likely to be prose, between two comments that are equally likely. -/
def tiedCode : Text := "# Teh cat sleeps.\nx = \"Teh\"\n# Teh dog barks."

theorem extract_lists_tiedCode :
    ∃ first second third, extract .builtin "python" {} .zero tiedCode = [first, second, third] ∧
      third.text = "Teh".toText ∧ third.IsWorthwhile {} ∧
        first.range.stop < second.range.start := by
  obtain ⟨worthwhile, order, -⟩ := extract_lists .builtin "python" {} .zero tiedCode
  obtain ⟨first, second, third, shape⟩ := List.length_eq_three.mp
    (by decide +kernel : (extract .builtin "python" {} .zero tiedCode).length = 3)
  have texts : (extract .builtin "python" {} .zero tiedCode).map Span.text =
      ["Teh cat sleeps.".toText, "Teh dog barks.", "Teh"] := by decide +kernel
  have level : (extract .builtin "python" {} .zero tiedCode).head?.any (fun left =>
      ((extract .builtin "python" {} .zero tiedCode).drop 1).head?.any fun right =>
        Binary64.lessEq left.confidence right.confidence) = true := by decide +kernel
  rw [shape] at worthwhile order texts level
  obtain ⟨behindFirst, -⟩ := List.pairwise_cons.mp order
  have listed : third.text = "Teh".toText := by simpa using (List.cons.inj (List.cons.inj
    (List.cons.inj texts).2).2).1
  refine ⟨first, second, third, shape, listed, worthwhile third (by simp), ?_⟩
  exact (behindFirst second List.mem_cons_self).2 (by simpa using level)

end Listing

end CodeProse
