import CodeProse.Proofs.Language.Quotation
import CodeProse.Proofs.Prose.Cleaning
import CodeProse.Proofs.Document.Coordinates
import CodeProse.Proofs.Text.Search
import CodeProse.Prose.Scan

/-!
# Places of fragments

Every fragment stands in the lines of its code, with an extent; one on a single line is cut from
that line. In the order of the scan each fragment stops before the next one starts.
-/

set_option autoImplicit false

namespace CodeProse

section Comments

variable {tail body : Text}

theorem infix_markedBody? {spare : Option CodePoint} {behind : Text} (within : behind <:+: tail)
    (spareWithin : ∀ char ∈ spare, char ∈ tail) (found : markedBody? spare behind = some body) :
    body <:+: tail := by
  unfold markedBody? at found
  split at found
  · obtain ⟨char, last, rfl⟩ := Option.map_eq_some_iff.mp found
    have known : char ∈ tail := by
      rcases Option.or_eq_some_iff.mp last with own | ⟨-, other⟩
      · exact within.subset (List.mem_of_getLast? own)
      · exact spareWithin char other
    obtain ⟨front, rest, rfl⟩ := List.append_of_mem known
    exact ⟨front, rest, by simp⟩
  · cases found
    exact (Text.suffix_trimStart behind).isInfix.trans within

theorem infix_enclosedBody? (found : enclosedBody? tail = some body) : body <:+: tail := by
  simp only [enclosedBody?, Option.bind_eq_bind, Option.bind_eq_some_iff] at found
  obtain ⟨closer, -, chosen⟩ := found
  split at chosen
  · cases chosen
  · cases chosen
    exact (List.drop_suffix _ _).isInfix.trans (List.take_prefix closer tail).isInfix

theorem infix_commentAt? (found : commentAt? tail = some body) : body <:+: tail := by
  unfold commentAt? at found
  split at found
  · next rest =>
      have behind : rest.dropWhile (· == .scalar '/') <:+: .scalar '/' :: .scalar '/' :: rest :=
        ((List.dropWhile_suffix _).trans
          ((List.suffix_cons (CodePoint.scalar '/') rest).trans
            (List.suffix_cons (CodePoint.scalar '/') _))).isInfix
      refine infix_markedBody? behind (fun char known => ?_) found
      split at known
      · cases known
        exact List.mem_cons_self
      · cases known
  · next rest =>
      exact infix_markedBody? (List.suffix_cons (CodePoint.scalar '#') rest).isInfix
        (fun _ impossible => by cases impossible) found
  · exact infix_enclosedBody? found
  · cases found

theorem infix_commentBody? {line : Text} (found : commentBody? line = some body) :
    body <:+: line := by
  induction line with
  | nil => cases found
  | cons char rest ih =>
      rcases Option.or_eq_some_iff.mp found with here | ⟨-, later⟩
      · exact infix_commentAt? here
      · exact (ih later).trans (List.suffix_cons char rest).isInfix

end Comments

namespace Fragment

/-- A fragment that is cut from one line, with the number of that line. -/
structure OnLine (index : Nat) (line : Text) (fragment : Fragment) : Prop where
  startLine : fragment.startLine = index
  stopLine : fragment.stopLine = index
  extent : fragment.startColumn < fragment.stopColumn
  within : fragment.stopColumn ≤ line.length
  source : slice line fragment.startColumn fragment.stopColumn = fragment.text

theorem ofMarked?_onLine {index : Nat} {line marked : Text} {kind : ProseKind}
    {fragment : Fragment} (plain : .scalar '\n' ∉ line) (part : marked <:+: line)
    (found : ofMarked? index line kind marked = some fragment) :
    fragment.OnLine index line := by
  have cleaned : ProseKind.clean (some kind) marked <:+: line :=
    (ProseKind.infix_clean (some kind) (not_mem_of_isInfix part plain)).trans part
  simp only [ofMarked?] at found
  split at found
  · cases found
  · next some =>
      generalize ProseKind.clean (Option.some kind) marked = text at *
      have nonempty : text ≠ [] := fun empty => some (by simp [empty])
      obtain ⟨column, located⟩ : ∃ column, Text.indexOf? text line = Option.some column := by
        rw [← Option.isSome_iff_exists]
        exact Text.contains_iff_isInfix.mpr cleaned
      obtain ⟨here, -⟩ := Text.indexOf?_eq_some located
      have place : columnOf text line = column := by
        rw [columnOf, located, Option.getD_some]
      cases found
      have length := List.length_pos_iff.mpr nonempty
      refine ⟨rfl, rfl, ?_, ?_, ?_⟩
      · show columnOf text line < columnOf text line + text.length
        omega
      · show columnOf text line + text.length ≤ line.length
        rw [place]
        exact Text.le_length_of_prefix_drop nonempty here
      · show slice line (columnOf text line) (columnOf text line + text.length) = text
        rw [place]
        exact Text.slice_of_prefix_drop here

theorem ofQuotation?_onLine {index : Nat} {line : Text} {quotation : Quotation}
    {fragment : Fragment} (stands : quotation.StandsIn line)
    (found : ofQuotation? index quotation = some fragment) :
    fragment.OnLine index line ∧ quotation.offset < fragment.startColumn ∧
      fragment.stopColumn ≤ quotation.offset + 1 + quotation.content.length := by
  obtain ⟨source, closed⟩ := stands
  simp only [ofQuotation?] at found
  split at found
  · cases found
  · next some =>
      cases found
      have nonempty : 0 < (Text.trim quotation.content).length :=
        List.length_pos_iff.mpr fun empty => some (by simp [empty])
      have shorter := (Text.prefix_trimEnd (Text.trimStart quotation.content)).length_le
      have short := (Text.suffix_trimStart quotation.content).length_le
      have here : quotation.content <+: line.drop (quotation.offset + 1) := by
        rw [slice_eq_take_drop, Nat.add_sub_cancel_left] at source
        exact List.prefix_iff_eq_take.mpr source.symm
      have inner : Text.trimStart quotation.content <+: line.drop (quotation.offset + 1 +
          (quotation.content.length - (Text.trimStart quotation.content).length)) := by
        obtain ⟨behind, joined⟩ := here
        refine ⟨behind, ?_⟩
        rw [← List.drop_drop, ← joined, List.drop_append_of_le_length (by omega),
          Text.drop_length_sub_trimStart]
      have trimmed := (Text.prefix_trimEnd (Text.trimStart quotation.content)).trans inner
      refine ⟨⟨rfl, rfl, ?_, ?_, Text.slice_of_prefix_drop trimmed⟩, ?_, ?_⟩
      all_goals simp only [Text.trim] at nonempty ⊢; omega

theorem toList_onLine {index : Nat} {line : Text} {found? : Option Fragment}
    (onLine : ∀ fragment, found? = some fragment → fragment.OnLine index line) :
    (∀ fragment ∈ found?.toList, fragment.OnLine index line) ∧
      found?.toList.Pairwise fun left right => left.stopColumn < right.startColumn := by
  cases found? with
  | none => exact ⟨by simp, List.Pairwise.nil⟩
  | some fragment =>
      refine ⟨fun other member => ?_, List.pairwise_singleton _ _⟩
      exact List.mem_singleton.mp member ▸ onLine fragment rfl

/-- The fragments of one line are cut from it, each behind the one before. -/
theorem ofLine_onLine (index : Nat) {line : Text} (plain : .scalar '\n' ∉ line)
    (kind? : Option ProseKind) :
    (∀ fragment ∈ ofLine index line kind?, fragment.OnLine index line) ∧
      (ofLine index line kind?).Pairwise fun left right => left.stopColumn < right.startColumn := by
  cases kind? with
  | none => exact ⟨by simp [ofLine], List.Pairwise.nil⟩
  | some kind =>
      cases kind with
      | comment =>
          rw [ofLine]
          refine toList_onLine fun fragment found => ?_
          obtain ⟨body, comment, marked⟩ := Option.bind_eq_some_iff.mp found
          exact ofMarked?_onLine plain (infix_commentBody? comment) marked
      | docstring =>
          rw [ofLine]
          exact toList_onLine fun fragment found =>
            ofMarked?_onLine plain (Text.infix_trim line) found
      | string =>
          have whole : line.drop 0 = line := rfl
          have stands : ∀ quotation ∈ quotationsFrom 0 0 line, quotation.StandsIn line :=
            fun quotation member => (quotationsFrom_standsIn whole quotation member).1
          rw [ofLine, quotations, List.pairwise_filterMap]
          constructor
          · intro fragment member
            obtain ⟨quotation, known, found⟩ := List.mem_filterMap.mp member
            exact (ofQuotation?_onLine (stands quotation known) found).1
          · refine (pairwise_quotationsFrom whole).imp_of_mem
              fun {left right} leftKnown rightKnown before => ?_
            intro leftFragment leftFound rightFragment rightFound
            obtain ⟨-, -, stop⟩ := ofQuotation?_onLine (stands left leftKnown) leftFound
            obtain ⟨-, start, -⟩ := ofQuotation?_onLine (stands right rightKnown) rightFound
            omega

/-- A fragment with an extent among the lines of a code. One on a single line is cut from it. -/
structure StandsIn (rows : List Text) (fragment : Fragment) : Prop where
  known : fragment.stopLine < rows.length
  extent : fragment.startLine < fragment.stopLine ∨
    fragment.startLine = fragment.stopLine ∧ fragment.startColumn < fragment.stopColumn
  startWithin : fragment.startColumn ≤ lineLength rows fragment.startLine
  stopWithin : fragment.stopColumn ≤ lineLength rows fragment.stopLine
  source : fragment.startLine = fragment.stopLine →
    slice (rows.getD fragment.startLine []) fragment.startColumn fragment.stopColumn =
      fragment.text

/-- One fragment stops before another starts, with a gap between them. -/
def Before (left right : Fragment) : Prop :=
  left.stopLine < right.startLine ∨
    left.stopLine = right.startLine ∧ left.stopColumn < right.startColumn

theorem OnLine.standsIn {index : Nat} {rows : List Text} {fragment : Fragment}
    (known : index < rows.length) (onLine : fragment.OnLine index (rows.getD index [])) :
    fragment.StandsIn rows := by
  obtain ⟨startLine, stopLine, extent, within, source⟩ := onLine
  refine ⟨stopLine ▸ known, .inr ⟨startLine.trans stopLine.symm, extent⟩, ?_, ?_, fun _ => ?_⟩
  · rw [startLine]
    exact Nat.le_trans (Nat.le_of_lt extent) within
  · rw [stopLine]
    exact within
  · rw [startLine]
    exact source

theorem ofBlock_standsIn {rows : List Text} {kind : ProseKind} {opener closer first : Text}
    {inner : List Text} {startLine stopLine : Nat} (before : startLine < stopLine)
    (known : stopLine < rows.length) :
    (ofBlock kind opener closer startLine stopLine first inner (rows.getD stopLine [])).StandsIn
      rows :=
  ⟨known, .inl before, Nat.zero_le _, Nat.le_refl _, fun same => absurd same (Nat.ne_of_lt before)⟩

end Fragment

namespace ScanMode

/-- The first line that a fragment from here on can start on: that of the open block, or the
line at hand. -/
def reach (index : Nat) : ScanMode → Nat
  | code => index
  | blockComment startLine _ _ => startLine
  | docstring _ startLine _ _ => startLine

/-- Whether a mode can be met at a line: an open block starts before it. -/
def IsMetAt (index : Nat) : ScanMode → Prop
  | code => True
  | blockComment startLine _ _ => startLine < index
  | docstring _ startLine _ _ => startLine < index

end ScanMode

section Scan

variable {rows : List Text} {index : Nat}

/-- What one line adds to a scan: fragments that stop on it, and only where no block stays open
behind it. -/
structure LineYield (rows : List Text) (index : Nat) (mode next : ScanMode)
    (fragments : List Fragment) : Prop where
  stand : ∀ fragment ∈ fragments, fragment.StandsIn rows
  start : ∀ fragment ∈ fragments, mode.reach index ≤ fragment.startLine
  stop : ∀ fragment ∈ fragments, fragment.stopLine = index
  ordered : fragments.Pairwise Fragment.Before
  met : next.IsMetAt (index + 1)
  reach : mode.reach index ≤ next.reach (index + 1)
  closed : fragments ≠ [] → next.reach (index + 1) = index + 1

theorem LineYield.nothing {mode next : ScanMode} (met : next.IsMetAt (index + 1))
    (reach : mode.reach index ≤ next.reach (index + 1)) :
    LineYield rows index mode next [] :=
  ⟨by simp, by simp, by simp, List.Pairwise.nil, met, reach, fun some => absurd rfl some⟩

theorem LineYield.block {mode : ScanMode} {kind : ProseKind} {opener closer first : Text}
    {inner : List Text} {startLine : Nat} (known : index < rows.length)
    (before : startLine < index) (reach : mode.reach index = startLine) :
    LineYield rows index mode .code
      [Fragment.ofBlock kind opener closer startLine index first inner (rows.getD index [])] := by
  refine ⟨?_, ?_, ?_, List.pairwise_singleton _ _, trivial, ?_, fun _ => rfl⟩
  · intro fragment member
    rw [List.mem_singleton.mp member]
    exact Fragment.ofBlock_standsIn before known
  · intro fragment member
    rw [List.mem_singleton.mp member]
    exact Nat.le_of_eq reach
  · intro fragment member
    rw [List.mem_singleton.mp member]
    rfl
  · show mode.reach index ≤ index + 1
    omega

theorem LineYield.line (plain : .scalar '\n' ∉ rows.getD index []) (known : index < rows.length)
    (kind? : Option ProseKind) :
    LineYield rows index .code .code (Fragment.ofLine index (rows.getD index []) kind?) := by
  obtain ⟨onLine, ordered⟩ := Fragment.ofLine_onLine index plain kind?
  refine ⟨fun fragment member => (onLine fragment member).standsIn known, fun fragment member => ?_,
    fun fragment member => (onLine fragment member).stopLine, ?_, trivial, Nat.le_succ index,
    fun _ => rfl⟩
  · exact Nat.le_of_eq (onLine fragment member).startLine.symm
  · refine ordered.imp_of_mem fun {left right} leftMember rightMember gap => ?_
    have stop := (onLine left leftMember).stopLine
    have start := (onLine right rightMember).startLine
    exact .inr ⟨stop.trans start.symm, gap⟩

theorem scanLine_yield (rules : ScanRules) {mode : ScanMode} (plain : .scalar '\n' ∉ rows.getD index [])
    (known : index < rows.length) (met : mode.IsMetAt index) :
    LineYield rows index mode (scanLine rules mode index (rows.getD index [])).1
      (scanLine rules mode index (rows.getD index [])).2 := by
  cases mode with
  | code =>
      rw [scanLine]
      split
      · exact .nothing (Nat.lt_succ_self index) (Nat.le_refl index)
      · split
        · exact .nothing (Nat.lt_succ_self index) (Nat.le_refl index)
        · exact .line plain known _
  | blockComment startLine first inner =>
      rw [scanLine]
      split
      · exact .block known met rfl
      · exact .nothing (Nat.lt_succ_of_lt met) (Nat.le_refl startLine)
  | docstring delimiter startLine first inner =>
      rw [scanLine]
      split
      · exact .block known met rfl
      · exact .nothing (Nat.lt_succ_of_lt met) (Nat.le_refl startLine)

/-- All fragments of a scan stand in the lines, in order and with gaps. The induction carries
that a block still open starts behind everything found so far. -/
theorem scanFrom_yield (rules : ScanRules) {mode : ScanMode} {rest : List Text}
    (plain : ∀ row ∈ rows, .scalar '\n' ∉ row) (behind : rows.drop index = rest)
    (met : mode.IsMetAt index) :
    (∀ fragment ∈ (scanFrom rules mode index rest).2,
      fragment.StandsIn rows ∧ mode.reach index ≤ fragment.startLine) ∧
      (scanFrom rules mode index rest).2.Pairwise Fragment.Before := by
  induction rest generalizing mode index with
  | nil => exact ⟨by simp [scanFrom], List.Pairwise.nil⟩
  | cons line rest ih =>
      obtain ⟨known, row, next⟩ := getD_of_drop_eq_cons behind []
      have feedless : .scalar '\n' ∉ rows.getD index [] := by
        have member : line ∈ rows.drop index := behind ▸ List.mem_cons_self
        exact row ▸ plain line (List.mem_of_mem_drop member)
      have step := scanLine_yield rules feedless known met
      rw [row] at step
      obtain ⟨later, laterOrdered⟩ := ih next step.met
      rw [scanFrom]
      refine ⟨fun fragment member => ?_, List.pairwise_append.mpr
        ⟨step.ordered, laterOrdered, fun left leftMember right rightMember => ?_⟩⟩
      · rcases List.mem_append.mp member with first | further
        · exact ⟨step.stand fragment first, step.start fragment first⟩
        · obtain ⟨stands, start⟩ := later fragment further
          exact ⟨stands, Nat.le_trans step.reach start⟩
      · have stop := step.stop left leftMember
        have closed := step.closed (List.ne_nil_of_mem leftMember)
        obtain ⟨-, start⟩ := later right rightMember
        exact .inl (by omega)

/-- The fragments of a code stand in its lines, and each stops before the next one starts. -/
theorem scan_places (rules : ScanRules) (plain : ∀ row ∈ rows, .scalar '\n' ∉ row) :
    (∀ fragment ∈ (scanFrom rules .code 0 rows).2, fragment.StandsIn rows) ∧
      (scanFrom rules .code 0 rows).2.Pairwise Fragment.Before := by
  have met : ScanMode.code.IsMetAt 0 := trivial
  obtain ⟨places, ordered⟩ := scanFrom_yield rules plain List.drop_zero met
  exact ⟨fun fragment member => (places fragment member).1, ordered⟩

end Scan

end CodeProse
