import CodeProse.Proofs.Prose.Blocks
import CodeProse.Proofs.Prose.Places

/-!
# Scanning a stretch of lines

A scan of lines is a scan of the first ones and, in the mode that leads to, of the others. Where it is
in plain code at a line, the fragments of a stretch from there on are those of the stretch by itself,
as many lines further down.
-/

set_option autoImplicit false

namespace CodeProse

/-- A fragment so many lines further down. -/
def Fragment.lowered (lines : Nat) (fragment : Fragment) : Fragment :=
  { fragment with
    startLine := fragment.startLine + lines
    stopLine := fragment.stopLine + lines }

/-- A mode with its open block so many lines further down. -/
def ScanMode.lowered (lines : Nat) : ScanMode → ScanMode
  | code => code
  | blockComment startLine first inner => blockComment (startLine + lines) first inner
  | docstring delimiter startLine first inner => docstring delimiter (startLine + lines) first inner

section Lowered

variable (lines index : Nat)

theorem Fragment.ofQuotation?_lowered (quotation : Quotation) :
    ofQuotation? (index + lines) quotation = (ofQuotation? index quotation).map (lowered lines) := by
  unfold ofQuotation?
  dsimp only
  split
  · rfl
  · rfl

theorem Fragment.ofMarked?_lowered (line : Text) (kind : ProseKind) (marked : Text) :
    ofMarked? (index + lines) line kind marked =
      (ofMarked? index line kind marked).map (lowered lines) := by
  unfold ofMarked?
  dsimp only
  split
  · rfl
  · rfl

theorem Fragment.ofLine_lowered (line : Text) (kind? : Option ProseKind) :
    ofLine (index + lines) line kind? = (ofLine index line kind?).map (lowered lines) := by
  cases kind? with
  | none => rfl
  | some kind =>
      cases kind with
      | comment =>
          rw [ofLine, ofLine]
          cases commentBody? line with
          | none => rfl
          | some body =>
              rw [Option.bind_some, Option.bind_some, ofMarked?_lowered, Option.toList_map]
      | docstring => rw [ofLine, ofLine, ofMarked?_lowered, Option.toList_map]
      | string =>
          rw [ofLine, ofLine, List.map_filterMap]
          exact List.filterMap_congr fun quotation _ => ofQuotation?_lowered lines index quotation

theorem Fragment.ofBlock_lowered (kind : ProseKind) (opener closer : Text) (startLine : Nat)
    (first : Text) (inner : List Text) (last : Text) :
    ofBlock kind opener closer (startLine + lines) (index + lines) first inner last =
      (ofBlock kind opener closer startLine index first inner last).lowered lines := rfl

variable (rules : ScanRules) (mode : ScanMode)

theorem scanLine_lowered (line : Text) :
    scanLine rules (mode.lowered lines) (index + lines) line =
      ((scanLine rules mode index line).1.lowered lines,
        (scanLine rules mode index line).2.map (Fragment.lowered lines)) := by
  cases mode with
  | code =>
      simp only [ScanMode.lowered, scanLine]
      split
      · rfl
      · split
        · rfl
        · exact congrArg _ (Fragment.ofLine_lowered lines index line _)
  | blockComment startLine first inner =>
      simp only [ScanMode.lowered, scanLine, Fragment.ofBlock_lowered]
      cases Text.contains "*/" line with
      | true => rfl
      | false => rfl
  | docstring delimiter startLine first inner =>
      simp only [ScanMode.lowered, scanLine, Fragment.ofBlock_lowered]
      cases Text.contains delimiter line with
      | true => rfl
      | false => rfl

/-- The same lines further down give the same fragments further down. -/
theorem scanFrom_lowered (rows : List Text) :
    scanFrom rules (mode.lowered lines) (index + lines) rows =
      ((scanFrom rules mode index rows).1.lowered lines,
        (scanFrom rules mode index rows).2.map (Fragment.lowered lines)) := by
  induction rows generalizing mode index with
  | nil => rfl
  | cons line rest ih =>
      simp only [scanFrom, scanLine_lowered, Nat.add_right_comm index lines 1, ih, List.map_append]

end Lowered

section Runs

variable (rules : ScanRules) {mode : ScanMode} {index : Nat}

theorem scanFrom_append (front back : List Text) :
    scanFrom rules mode index (front ++ back) =
      let reached := scanFrom rules mode index front
      let rest := scanFrom rules reached.1 (index + front.length) back
      (rest.1, reached.2 ++ rest.2) := by
  induction front generalizing mode index with
  | nil => simp [scanFrom]
  | cons line front ih =>
      simp only [List.cons_append, scanFrom, ih, List.append_assoc, List.length_cons]
      rw [Nat.add_right_comm index 1, Nat.add_assoc]

theorem stopLine_of_mem_scanLine {line : Text} {fragment : Fragment}
    (member : fragment ∈ (scanLine rules mode index line).2) : fragment.stopLine = index := by
  cases mode with
  | code =>
      rw [scanLine] at member
      split at member
      · cases member
      · split at member
        · cases member
        · exact (Fragment.of_mem_ofLine member).2.2
  | blockComment startLine first inner =>
      rw [scanLine] at member
      split at member
      · rw [List.mem_singleton.mp member]
        rfl
      · cases member
  | docstring delimiter startLine first inner =>
      rw [scanLine] at member
      split at member
      · rw [List.mem_singleton.mp member]
        rfl
      · cases member

/-- Every fragment stops on one of the lines that are scanned. -/
theorem stopLine_of_mem_scanFrom {rows : List Text} {fragment : Fragment}
    (member : fragment ∈ (scanFrom rules mode index rows).2) :
    index ≤ fragment.stopLine ∧ fragment.stopLine < index + rows.length := by
  induction rows generalizing mode index with
  | nil => cases member
  | cons line rest ih =>
      rw [scanFrom] at member
      rw [List.length_cons]
      rcases List.mem_append.mp member with here | later
      · have stop := stopLine_of_mem_scanLine rules here
        omega
      · obtain ⟨reached, within⟩ := ih later
        omega

/-- A blank last line adds nothing: no mark that closes a block is empty. -/
theorem scanFrom_concat_nil (blank : rules.classify? [] = none) (rows : List Text) :
    (scanFrom rules .code 0 (rows ++ [[]])).2 = (scanFrom rules .code 0 rows).2 := by
  have start : ScanMode.code.Remembers rows 0 := trivial
  obtain ⟨remembers, -⟩ := scanFrom_comesOf rules List.drop_zero start
  have nothing : (scanLine rules (scanFrom rules .code 0 rows).1 (0 + rows.length) []).2 = [] := by
    generalize (scanFrom rules .code 0 rows).1 = mode at remembers
    cases mode with
    | code =>
        rw [scanLine, if_neg (by simp [opensBlock, LinePattern.fits, Text.trimStart])]
        split
        · rfl
        · rw [blank]
          rfl
    | blockComment startLine first inner => rfl
    | docstring delimiter startLine first inner =>
        have since : OpenSince rows (0 + rows.length) startLine .docstring delimiter delimiter first
          inner := remembers
        obtain ⟨-, known, -⟩ := since.opens.marks
        have unclosed : Text.contains delimiter [] = false := by
          simp [Text.contains, Text.indexOf?, (isSolid_of_mem_blockClosers known).ne_nil]
        rw [scanLine, unclosed]
        rfl
  rw [scanFrom_append]
  simp only [scanFrom, nothing, List.append_nil]

end Runs

section Stretch

variable (rules : ScanRules) {rows : List Text} {first last : Nat} (ordered : first ≤ last)
  (known : last ≤ rows.length) (code : (scanFrom rules .code 0 (rows.take first)).1 = .code)
include ordered known code

/-- A scan that is in plain code at a line: what it finds before, in the stretch from there on, and
behind the stretch. -/
theorem exists_scan_stretch :
    ∃ front back, (scanFrom rules .code 0 rows).2 =
        front ++ ((scanFrom rules .code 0 (slice rows first last)).2.map (Fragment.lowered first) ++
          back) ∧
      (∀ fragment ∈ front, fragment.stopLine < first) ∧
      ∀ fragment ∈ back, last ≤ fragment.stopLine := by
  have frontLength : (rows.take first).length = first := by
    rw [List.length_take, Nat.min_eq_left (Nat.le_trans ordered known)]
  have stretchLength : first + (slice rows first last).length = last := by
    rw [length_slice rows first last known, Nat.add_sub_cancel' ordered]
  have rowsSplit : rows.take first ++ (slice rows first last ++ rows.drop last) = rows := by
    rw [slice_append_drop rows ordered, List.take_append_drop]
  have stretch := scanFrom_lowered first 0 rules .code (slice rows first last)
  rw [ScanMode.lowered, Nat.zero_add] at stretch
  have whole : scanFrom rules .code 0 (rows.take first ++ (slice rows first last ++
      rows.drop last)) = _ := scanFrom_append rules _ _
  rw [rowsSplit] at whole
  simp only [code, frontLength, Nat.zero_add, scanFrom_append, stretchLength, stretch] at whole
  refine ⟨_, _, congrArg Prod.snd whole, ?_, ?_⟩
  · intro fragment member
    obtain ⟨-, within⟩ := stopLine_of_mem_scanFrom rules member
    rwa [Nat.zero_add, frontLength] at within
  · intro fragment member
    exact (stopLine_of_mem_scanFrom rules member).1

/-- The fragments within a stretch of lines, if the scan is in plain code where the stretch starts:
those of the stretch by itself, in their places among all lines. -/
theorem scan_stretch (plain : ∀ row ∈ rows, .scalar '\n' ∉ row) :
    (scanFrom rules .code 0 rows).2.filter
        (fun fragment => decide (first ≤ fragment.startLine ∧ fragment.stopLine < last)) =
      (scanFrom rules .code 0 (slice rows first last)).2.map (Fragment.lowered first) := by
  obtain ⟨stand, -⟩ := scan_places rules plain
  obtain ⟨front, back, whole, before, behind⟩ := exists_scan_stretch rules ordered known code
  rw [whole] at stand ⊢
  have frontless : front.filter
      (fun fragment => decide (first ≤ fragment.startLine ∧ fragment.stopLine < last)) = [] := by
    rw [List.filter_eq_nil_iff]
    intro fragment member within
    have extent := (stand fragment (List.mem_append_left _ member)).extent
    have stop := before fragment member
    have start := (of_decide_eq_true within).1
    omega
  have backless : back.filter
      (fun fragment => decide (first ≤ fragment.startLine ∧ fragment.stopLine < last)) = [] := by
    rw [List.filter_eq_nil_iff]
    intro fragment member within
    exact Nat.not_lt.mpr (behind fragment member) (of_decide_eq_true within).2
  have stretch : ((scanFrom rules .code 0 (slice rows first last)).2.map
      (Fragment.lowered first)).filter
        (fun fragment => decide (first ≤ fragment.startLine ∧ fragment.stopLine < last)) =
      (scanFrom rules .code 0 (slice rows first last)).2.map (Fragment.lowered first) := by
    rw [List.filter_eq_self]
    intro fragment member
    obtain ⟨original, found, rfl⟩ := List.mem_map.mp member
    obtain ⟨-, within⟩ := stopLine_of_mem_scanFrom rules found
    rw [length_slice rows first last known] at within
    have start : first ≤ original.startLine + first := Nat.le_add_left _ _
    have stop : original.stopLine + first < last := by omega
    exact decide_eq_true ⟨start, stop⟩
  rw [List.filter_append, List.filter_append, frontless, stretch, backless, List.nil_append,
    List.append_nil]

end Stretch

end CodeProse
