import CodeProse.Proofs.Document.Edit
import CodeProse.Proofs.Prose.Places
import CodeProse.Proofs.Prose.Scan
import CodeProse.Proofs.Text.Occurrence
import CodeProse.Prose.Extraction
import Mathlib.Data.List.Forall2

/-!
# Laws of extraction

The spans of a code have ranges with extents and with gaps between them, wherever the code
starts. Those of a whole document lie in it, and a span on a single line is the text of its range.
-/

set_option autoImplicit false

namespace CodeProse

section CodeLines

theorem prefix_dropCarriageReturn (line : Text) : dropCarriageReturn line <+: line := by
  unfold dropCarriageReturn
  split
  · exact List.dropLast_prefix line
  · exact List.prefix_refl line

theorem codeLines_of_lines {code : Text} {init : List Text} {last : Text}
    (split : code.lines = init ++ [last]) :
    codeLines code = init.map dropCarriageReturn ++ [last] := by
  simp [codeLines, split]

theorem exists_lines_eq_concat (code : Text) : ∃ init last, code.lines = init ++ [last] :=
  (List.eq_nil_or_concat' code.lines).resolve_left (Text.lines_ne_nil code)

/-- Every line of a code is the front of the line of the text with its number. -/
theorem prefix_codeLines (code : Text) :
    List.Forall₂ (fun row line : Text => row <+: line) (codeLines code) code.lines := by
  obtain ⟨init, last, split⟩ := exists_lines_eq_concat code
  rw [codeLines_of_lines split, split]
  refine List.rel_append (List.forall₂_map_left_iff.mpr ?_) (.cons (List.prefix_refl last) .nil)
  exact List.forall₂_same.mpr fun line _ => prefix_dropCarriageReturn line

theorem length_codeLines (code : Text) : (codeLines code).length = code.lines.length :=
  (prefix_codeLines code).length_eq

theorem prefix_codeLines_getD (code : Text) (index : Nat) :
    (codeLines code).getD index [] <+: code.lines.getD index [] := by
  rcases Nat.lt_or_ge index (codeLines code).length with known | beyond
  · have inLines : index < code.lines.length := length_codeLines code ▸ known
    have fronts := (prefix_codeLines code).get known inLines
    simpa [List.getD_eq_getElem?_getD, known, inLines] using fronts
  · have missing : (codeLines code).getD index [] = [] := by
      simp [List.getD_eq_getElem?_getD, beyond]
    rw [missing]
    exact List.nil_prefix

theorem lineFeed_not_mem_codeLines (code : Text) : ∀ row ∈ codeLines code, .scalar '\n' ∉ row := by
  intro row member feed
  obtain ⟨index, known, rfl⟩ := List.getElem_of_mem member
  have inLines : index < code.lines.length := length_codeLines code ▸ known
  have fronts := (prefix_codeLines code).get known inLines
  exact Text.lineFeed_not_mem_of_mem_lines (List.getElem_mem inLines) (fronts.subset feed)

end CodeLines

section Ranges

variable {registry : Registry} {language : Text} {options : ExtractionOptions}
  {origin : Position} {code : Text}

def Fragment.start (fragment : Fragment) : Position :=
  ⟨fragment.startLine, fragment.startColumn⟩

def Fragment.stop (fragment : Fragment) : Position :=
  ⟨fragment.stopLine, fragment.stopColumn⟩

/-- The range of a fragment in a code that starts at `origin`. -/
def Fragment.rangeFrom (origin : Position) (fragment : Fragment) : Range :=
  ⟨origin.within fragment.startLine fragment.startColumn,
    origin.within fragment.stopLine fragment.stopColumn⟩

theorem Position.within_lt {line column laterLine laterColumn : Nat}
    (before : line < laterLine ∨ line = laterLine ∧ column < laterColumn) :
    origin.within line column < origin.within laterLine laterColumn := by
  rw [Position.lt_iff, Position.within, Position.within]
  split <;> split <;> dsimp only <;> omega

theorem Fragment.toSpan?_eq_some {lines : List Text} {fragment : Fragment} {span : Span}
    (placed : fragment.toSpan? options origin lines = some span) :
    span.text = fragment.text ∧ span.kind = fragment.kind ∧
      span.range = fragment.rangeFrom origin := by
  unfold Fragment.toSpan? at placed
  split at placed
  · cases placed
    exact ⟨rfl, rfl, rfl⟩
  · cases placed

theorem mem_extract_iff {span : Span} : span ∈ extract registry language options origin code ↔
    (∃ fragment ∈ (scanFrom (registry.scanRules language) .code 0 (codeLines code)).2,
      fragment.toSpan? options origin (codeLines code) = some span) ∧
        Binary64.less confidenceThreshold span.confidence = true := by
  rw [extract, Span.byConfidence, mem_stableSort, foundSpans, List.mem_filter, List.mem_filterMap]

theorem map_filterMap_sublist {α β γ : Type} {select : α → Option β} {key : β → γ}
    {source : α → γ} (same : ∀ item found, select item = some found → key found = source item)
    (items : List α) : ((items.filterMap select).map key).Sublist (items.map source) := by
  induction items with
  | nil => exact List.Sublist.refl []
  | cons item rest ih =>
      rw [List.filterMap_cons]
      split
      · exact ih.cons (source item)
      · next found selected =>
          rw [List.map_cons, same item found selected]
          exact ih.cons_cons (source item)

/-- The fragment of the scan that a span of a code comes from. -/
structure Span.CutFrom (rules : ScanRules) (origin : Position) (code : Text) (span : Span)
    (fragment : Fragment) : Prop where
  stands : fragment.StandsIn (codeLines code)
  comes : fragment.ComesOf rules (codeLines code)
  text : span.text = fragment.text
  kind : span.kind = fragment.kind
  range : span.range = fragment.rangeFrom origin

theorem exists_cutFrom {span : Span}
    (member : span ∈ extract registry language options origin code) :
    ∃ fragment, span.CutFrom (registry.scanRules language) origin code fragment := by
  obtain ⟨⟨fragment, known, placed⟩, -⟩ := mem_extract_iff.mp member
  obtain ⟨text, kind, range⟩ := Fragment.toSpan?_eq_some placed
  obtain ⟨stand, -⟩ := scan_places (registry.scanRules language) (lineFeed_not_mem_codeLines code)
  exact ⟨fragment, stand fragment known, scan_comesOf _ _ fragment known, text, kind, range⟩

theorem Fragment.trim_of_mem_ofLine {index : Nat} {line : Text} {kind? : Option ProseKind}
    {fragment : Fragment} (member : fragment ∈ Fragment.ofLine index line kind?) :
    Text.trim fragment.text = fragment.text := by
  cases kind? with
  | none => cases member
  | some kind =>
      cases kind with
      | comment =>
          rw [Fragment.ofLine, Option.mem_toList, Option.bind_eq_some_iff] at member
          obtain ⟨body, -, found⟩ := member
          rw [(Fragment.ofMarked?_eq_some found).1]
          exact Text.trim_trim
      | docstring =>
          rw [Fragment.ofLine, Option.mem_toList] at member
          rw [(Fragment.ofMarked?_eq_some member).1]
          exact Text.trim_trim
      | string =>
          rw [Fragment.ofLine] at member
          obtain ⟨quotation, -, found⟩ := List.mem_filterMap.mp member
          rw [(Fragment.ofQuotation?_eq_some found).1]
          exact Text.trim_trim

theorem Fragment.ComesOf.trim_text {rules : ScanRules} {rows : List Text} {fragment : Fragment}
    (comes : fragment.ComesOf rules rows) : Text.trim fragment.text = fragment.text := by
  cases comes with
  | line known => exact Fragment.trim_of_mem_ofLine known
  | block since known closed => exact Text.trim_trim

theorem trim_of_mem_extract {span : Span}
    (member : span ∈ extract registry language options origin code) :
    Text.trim span.text = span.text := by
  obtain ⟨fragment, cut⟩ := exists_cutFrom member
  rw [cut.text]
  exact cut.comes.trim_text

theorem apart_foundSpans :
    Apart ((foundSpans registry language options origin code).map Span.range) := by
  obtain ⟨-, ordered⟩ := scan_places (registry.scanRules language) (lineFeed_not_mem_codeLines code)
  have fragments : Apart ((scanFrom (registry.scanRules language) .code 0 (codeLines code)).2.map
      (Fragment.rangeFrom origin)) :=
    List.pairwise_map.mpr (ordered.imp Position.within_lt)
  refine fragments.sublist (List.Sublist.trans (List.filter_sublist.map _) ?_)
  exact map_filterMap_sublist (fun _ _ placed => (Fragment.toSpan?_eq_some placed).2.2) _

theorem spaced_extract :
    Spaced ((extract registry language options origin code).map Span.range) := by
  refine Spaced.of_perm ((stableSort_perm _ _).map _) apart_foundSpans fun range member => ?_
  obtain ⟨span, known, rfl⟩ := List.mem_map.mp member
  obtain ⟨fragment, cut⟩ := exists_cutFrom (mem_stableSort.mpr known)
  rw [cut.range]
  exact Position.within_lt cut.stands.extent

end Ranges

namespace Fragment

variable {code : Text} {fragment : Fragment}

/-- What stands in a code where a fragment stands. -/
def sourceIn (code : Text) (fragment : Fragment) : Text :=
  slice code (offsetAt code fragment.start) (offsetAt code fragment.stop)

theorem liesIn_of_le {line column : Nat} (known : line < (codeLines code).length)
    (within : column ≤ lineLength (codeLines code) line) :
    (⟨line, column⟩ : Position).LiesIn code := by
  have count := length_codeLines code
  have short := (prefix_codeLines_getD code line).length_le
  simp only [lineLength] at within
  refine ⟨Int.natCast_nonneg _, ?_, Int.natCast_nonneg _, ?_⟩
  · exact Int.ofNat_lt.mpr (count ▸ known)
  · exact Int.ofNat_le.mpr (Nat.le_trans within short)

theorem StandsIn.start_liesIn (stands : fragment.StandsIn (codeLines code)) :
    fragment.start.LiesIn code := by
  obtain ⟨known, extent, startWithin, -, -⟩ := stands
  exact liesIn_of_le (by omega) startWithin

theorem StandsIn.stop_liesIn (stands : fragment.StandsIn (codeLines code)) :
    fragment.stop.LiesIn code :=
  liesIn_of_le stands.known stands.stopWithin

/-- A fragment on a single line is what stands in the code there. -/
theorem StandsIn.sourceIn_eq (stands : fragment.StandsIn (codeLines code))
    (single : fragment.startLine = fragment.stopLine) : fragment.sourceIn code = fragment.text := by
  rw [sourceIn, stands.start_liesIn.offsetAt_eq, stands.stop_liesIn.offsetAt_eq, start, stop]
  simp only [Int.toNat_natCast]
  have source := stands.source single
  have known : fragment.stopLine < code.lines.length := length_codeLines code ▸ stands.known
  have within := stands.stopWithin
  have fronts := prefix_codeLines_getD code fragment.stopLine
  rw [single] at source ⊢
  rw [slice_line known (Nat.le_trans within fronts.length_le), ← source]
  obtain ⟨behind, joined⟩ := fronts
  rw [← joined, slice, slice, List.take_append_of_le_length within]

end Fragment

namespace Document

variable {document : Document} {registry : Registry} {options : ExtractionOptions}
  {span : Span}

theorem zero_within (line column : Nat) : Position.zero.within line column = ⟨line, column⟩ := by
  unfold Position.within
  split
  · next first =>
      rw [first]
      simp [Position.zero]
  · simp [Position.zero]

theorem rangeFrom_zero (fragment : Fragment) :
    fragment.rangeFrom .zero = ⟨fragment.start, fragment.stop⟩ := by
  rw [Fragment.rangeFrom, zero_within, zero_within, Fragment.start, Fragment.stop]

theorem liesIn_of_mem_spans (member : span ∈ document.spans registry options) :
    span.range.start.LiesIn document.text ∧ span.range.stop.LiesIn document.text := by
  obtain ⟨fragment, cut⟩ := exists_cutFrom member
  rw [cut.range, rangeFrom_zero]
  exact ⟨cut.stands.start_liesIn, cut.stands.stop_liesIn⟩

theorem start_lt_stop_of_mem_spans (member : span ∈ document.spans registry options) :
    span.range.start < span.range.stop :=
  spaced_extract.extent span.range (List.mem_map_of_mem member)

theorem textIn_ne_nil_of_mem_spans (member : span ∈ document.spans registry options) :
    document.textIn span.range ≠ [] := by
  obtain ⟨start, stop⟩ := liesIn_of_mem_spans member
  have before := start.offsetAt_lt stop (start_lt_stop_of_mem_spans member)
  have length := length_slice document.text (offsetAt document.text span.range.start)
    (offsetAt document.text span.range.stop) stop.offsetAt_le_length
  rw [textIn, ← List.length_pos_iff, length]
  omega

theorem classify?_of_mem_spans (member : span ∈ document.spans registry options)
    (single : span.range.start.line = span.range.stop.line) :
    registry.classify? (document.scanLanguage registry options)
      ((codeLines document.text).getD span.range.start.line.toNat []) = some span.kind := by
  obtain ⟨fragment, cut⟩ := exists_cutFrom member
  rw [cut.range, rangeFrom_zero] at single ⊢
  rw [cut.kind]
  exact cut.comes.classify?_eq (Int.ofNat_inj.mp single)

theorem textIn_of_mem_spans (member : span ∈ document.spans registry options)
    (single : span.range.start.line = span.range.stop.line) :
    document.textIn span.range = span.text := by
  obtain ⟨fragment, cut⟩ := exists_cutFrom member
  rw [cut.range, rangeFrom_zero] at single ⊢
  rw [cut.text]
  exact cut.stands.sourceIn_eq (Int.ofNat_inj.mp single)

end Document

end CodeProse
