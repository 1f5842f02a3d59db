import CodeProse.Prose.Scan
import CodeProse.Proofs.Sequence

/-!
# How fragments come about

A scan cuts a fragment from one line of code, or from a block that opens on one line and closes on a
later one. Of an open block it remembers the first line and the lines since, none of which closes it.
-/

set_option autoImplicit false

namespace CodeProse

/-- How a line opens a block over several lines: what the prose in it is, and the marks that open and
close it. -/
inductive BlockOpens : ProseKind → Text → Text → Text → Prop where
  | comment {line : Text} (opened : opensBlock line = true) : BlockOpens .comment "/*" "*/" line
  | docstring {line delimiter : Text} (opened : opensDocstring? line = some delimiter) :
      BlockOpens .docstring delimiter delimiter line

/-- A block that is open at a line, and the lines since it opened. -/
structure OpenSince (rows : List Text) (index start : Nat) (kind : ProseKind)
    (opener closer first : Text) (inner : List Text) : Prop where
  before : start < index
  line : first = rows.getD start []
  opens : BlockOpens kind opener closer first
  inside : ∀ row ∈ inner, Text.contains closer row = false
  between : inner = slice rows (start + 1) index

/-- How a fragment comes about: from one line by what that carries, or from a block over several. -/
inductive Fragment.ComesOf (rules : ScanRules) (rows : List Text) : Fragment → Prop where
  | line {index : Nat} {fragment : Fragment}
      (member : fragment ∈
        Fragment.ofLine index (rows.getD index []) (rules.classify? (rows.getD index []))) :
      ComesOf rules rows fragment
  | block {kind : ProseKind} {opener closer first : Text} {inner : List Text} {start stop : Nat}
      (since : OpenSince rows stop start kind opener closer first inner)
      (known : stop < rows.length) (closed : Text.contains closer (rows.getD stop []) = true) :
      ComesOf rules rows (.ofBlock kind opener closer start stop first inner (rows.getD stop []))

/-- What a mode remembers at a line. -/
def ScanMode.Remembers (rows : List Text) (index : Nat) : ScanMode → Prop
  | code => True
  | blockComment start first inner => OpenSince rows index start .comment "/*" "*/" first inner
  | docstring delimiter start first inner =>
      OpenSince rows index start .docstring delimiter delimiter first inner

section Kinds

theorem Fragment.ofMarked?_eq_some {index : Nat} {line marked : Text} {kind : ProseKind}
    {fragment : Fragment} (found : Fragment.ofMarked? index line kind marked = some fragment) :
    fragment.text = ProseKind.clean (some kind) marked ∧ fragment.kind = kind ∧
      fragment.startLine = index ∧ fragment.stopLine = index := by
  unfold Fragment.ofMarked? at found
  dsimp only at found
  split at found
  · cases found
  · cases found
    exact ⟨rfl, rfl, rfl, rfl⟩

theorem Fragment.ofQuotation?_eq_some {index : Nat} {quotation : Quotation} {fragment : Fragment}
    (found : Fragment.ofQuotation? index quotation = some fragment) :
    fragment.text = Text.trim quotation.content ∧ fragment.kind = .string ∧
      fragment.startLine = index ∧ fragment.stopLine = index := by
  unfold Fragment.ofQuotation? at found
  dsimp only at found
  split at found
  · cases found
  · cases found
    exact ⟨rfl, rfl, rfl, rfl⟩

/-- A line that carries prose of a kind gives fragments of that kind, on that line. -/
theorem Fragment.of_mem_ofLine {index : Nat} {line : Text} {kind? : Option ProseKind}
    {fragment : Fragment} (member : fragment ∈ Fragment.ofLine index line kind?) :
    kind? = some fragment.kind ∧ fragment.startLine = index ∧ fragment.stopLine = index := by
  cases kind? with
  | none => cases member
  | some kind =>
      cases kind with
      | comment =>
          rw [Fragment.ofLine, Option.mem_toList, Option.bind_eq_some_iff] at member
          obtain ⟨body, -, found⟩ := member
          obtain ⟨-, kind, lines⟩ := Fragment.ofMarked?_eq_some found
          exact ⟨congrArg some kind.symm, lines⟩
      | docstring =>
          rw [Fragment.ofLine, Option.mem_toList] at member
          obtain ⟨-, kind, lines⟩ := Fragment.ofMarked?_eq_some member
          exact ⟨congrArg some kind.symm, lines⟩
      | string =>
          rw [Fragment.ofLine] at member
          obtain ⟨quotation, -, found⟩ := List.mem_filterMap.mp member
          obtain ⟨-, kind, lines⟩ := Fragment.ofQuotation?_eq_some found
          exact ⟨congrArg some kind.symm, lines⟩

end Kinds

variable {rows : List Text} {index : Nat}

namespace OpenSince

variable {kind : ProseKind} {opener closer first : Text} {inner : List Text} {start : Nat}

theorem now (opens : BlockOpens kind opener closer (rows.getD index [])) :
    OpenSince rows (index + 1) index kind opener closer (rows.getD index []) [] :=
  ⟨Nat.lt_succ_self index, rfl, opens, by simp, (slice_self rows (index + 1)).symm⟩

/-- A line that does not close the block is one more line of it. -/
theorem step (since : OpenSince rows index start kind opener closer first inner)
    (known : index < rows.length) (other : ¬ Text.contains closer (rows.getD index []) = true) :
    OpenSince rows (index + 1) start kind opener closer first (inner ++ [rows.getD index []]) := by
  obtain ⟨before, line, opens, inside, between⟩ := since
  refine ⟨Nat.lt_succ_of_lt before, line, opens, ?_, ?_⟩
  · intro row member
    rcases List.mem_append.mp member with earlier | last
    · exact inside row earlier
    · rw [List.mem_singleton.mp last]
      exact eq_false_of_ne_true other
  · rw [between, slice_concat (Nat.succ_le_of_lt before) known]

end OpenSince

/-- One line leads from a mode to the next, with the fragments that come of it. -/
theorem scanLine_comesOf (rules : ScanRules) {mode : ScanMode} (known : index < rows.length)
    (remembers : mode.Remembers rows index) :
    (scanLine rules mode index (rows.getD index [])).1.Remembers rows (index + 1) ∧
      ∀ fragment ∈ (scanLine rules mode index (rows.getD index [])).2,
        fragment.ComesOf rules rows := by
  cases mode with
  | code =>
      rw [scanLine]
      split
      · next opens => exact ⟨.now (.comment (Bool.and_eq_true_iff.mp opens).2), by simp⟩
      · split
        · next delimiter opens =>
            have opened : opensDocstring? (rows.getD index []) = some delimiter := by
              split at opens
              · exact opens
              · cases opens
            exact ⟨.now (.docstring opened), by simp⟩
        · exact ⟨trivial, fun fragment member => .line member⟩
  | blockComment start first inner =>
      have since : OpenSince rows index start .comment "/*" "*/" first inner := remembers
      rw [scanLine]
      split
      · next closed =>
          refine ⟨trivial, fun fragment member => ?_⟩
          rw [List.mem_singleton.mp member]
          exact .block since known closed
      · next other => exact ⟨since.step known other, by simp⟩
  | docstring delimiter start first inner =>
      have since : OpenSince rows index start .docstring delimiter delimiter first inner := remembers
      rw [scanLine]
      split
      · next closed =>
          refine ⟨trivial, fun fragment member => ?_⟩
          rw [List.mem_singleton.mp member]
          exact .block since known closed
      · next other => exact ⟨since.step known other, by simp⟩

/-- A run of a scan keeps track of the block that is open, and all its fragments come of the lines. -/
theorem scanFrom_comesOf (rules : ScanRules) {mode : ScanMode} {rest : List Text}
    (behind : rows.drop index = rest) (remembers : mode.Remembers rows index) :
    (scanFrom rules mode index rest).1.Remembers rows (index + rest.length) ∧
      ∀ fragment ∈ (scanFrom rules mode index rest).2, fragment.ComesOf rules rows := by
  induction rest generalizing mode index with
  | nil => exact ⟨remembers, by simp [scanFrom]⟩
  | cons line rest ih =>
      obtain ⟨known, row, next⟩ := getD_of_drop_eq_cons behind []
      obtain ⟨later, here⟩ := scanLine_comesOf rules known remembers
      rw [row] at later here
      obtain ⟨last, further⟩ := ih next later
      rw [scanFrom]
      constructor
      · rw [List.length_cons, Nat.add_comm rest.length, ← Nat.add_assoc]
        exact last
      · intro fragment member
        rcases List.mem_append.mp member with first | behind
        · exact here fragment first
        · exact further fragment behind

/-- Every fragment of a scan comes of the lines. -/
theorem scan_comesOf (rules : ScanRules) (rows : List Text) :
    ∀ fragment ∈ (scanFrom rules .code 0 rows).2, fragment.ComesOf rules rows := by
  have remembers : ScanMode.code.Remembers rows 0 := trivial
  exact (scanFrom_comesOf rules List.drop_zero remembers).2

/-- A fragment on a single line is of the kind that the line carries. -/
theorem Fragment.ComesOf.classify?_eq {rules : ScanRules} {fragment : Fragment}
    (comes : fragment.ComesOf rules rows) (single : fragment.startLine = fragment.stopLine) :
    rules.classify? (rows.getD fragment.startLine []) = some fragment.kind := by
  cases comes with
  | @line index fragment member =>
      obtain ⟨kind, start, -⟩ := Fragment.of_mem_ofLine member
      rw [start]
      exact kind
  | block since known closed => exact absurd single (Nat.ne_of_lt since.before)

end CodeProse
