import CodeProse.Proofs.Document.BackToFront

/-!
# Batches of edits

A batch is taken as a whole exactly when every range fits and no two overlap. Its edits are meant
to replace their ranges all at once. They do, but for one kind of place: where a text is inserted
at the start of a stretch that is rewritten, the stretch is cut away after the insertion and takes
characters of the inserted text with it.
-/

set_option autoImplicit false

namespace CodeProse

/-- Whether two ranges have a character in common, or one of them stops or starts inside the
other. Ranges that only touch do not overlap. -/
def Range.Overlaps (left right : Range) : Prop :=
  left.start < right.stop ∧ right.start < left.stop

instance (left right : Range) : Decidable (left.Overlaps right) :=
  inferInstanceAs (Decidable (_ ∧ _))

/-- The new texts of the stretches that start at an offset. -/
def rewrittenAt (edits : List OffsetEdit) (place : Nat) : List Text :=
  (edits.filter (·.rewritesAt place)).map (·.replacement)

/-- What stands in a text with all edits done at once where an offset was, the texts inserted
there in the given order. -/
def replacedAt (text : Text) (edits : List OffsetEdit) (inserted : List Text) (place : Nat) : Text :=
  inserted.flatten ++ (rewrittenAt edits place).flatten ++ keptAt text edits place

/-- A text is cut at the ends of all edits at once. The order in which texts inserted at the same
offset come is left open. -/
def ReplacedAtOnce (text : Text) (edits : List OffsetEdit) (after : Text) : Prop :=
  ∃ order : Nat → List Text, (∀ place, (order place).Perm (insertedAt edits place)) ∧
    after = (List.range (text.length + 1)).flatMap fun place =>
      replacedAt text edits (order place) place

/-- Whether two edits replace a character in common, or one of them stops or starts inside the
stretch of the other. -/
def OffsetEdit.Overlaps (left right : OffsetEdit) : Prop :=
  left.start < right.stop ∧ right.start < left.stop

instance (left right : OffsetEdit) : Decidable (left.Overlaps right) :=
  inferInstanceAs (Decidable (_ ∧ _))

section Order

variable {text : Text} {edits : List OffsetEdit} {limit : Nat}

/-- Whether an edit stands before another or in the same place: by start, then by stop. -/
def OffsetEdit.notAfter (left right : OffsetEdit) : Bool :=
  left.start < right.start || (left.start == right.start && left.stop ≤ right.stop)

theorem OffsetEdit.notAfter_iff {left right : OffsetEdit} : left.notAfter right = true ↔
    left.start < right.start ∨ left.start = right.start ∧ left.stop ≤ right.stop := by
  simp [notAfter]

theorem OffsetEdit.notAfter_total (left right : OffsetEdit) :
    left.notAfter right = true ∨ right.notAfter left = true := by
  simp only [notAfter_iff]
  omega

theorem OffsetEdit.notAfter_trans (left middle right : OffsetEdit)
    (first : left.notAfter middle = true) (second : middle.notAfter right = true) :
    left.notAfter right = true := by
  simp only [notAfter_iff] at first second ⊢
  omega

theorem OffsetEdit.Overlaps.symm {left right : OffsetEdit} (overlap : left.Overlaps right) :
    right.Overlaps left :=
  ⟨overlap.2, overlap.1⟩

theorem areSeparate_iff_pairwise (ordered : ∀ edit ∈ edits, edit.start ≤ edit.stop) :
    areSeparate edits = true ↔ edits.Pairwise (·.stop ≤ ·.start) := by
  refine ⟨fun separate => ?_, areSeparate_of_pairwise⟩
  induction edits with
  | nil => exact List.Pairwise.nil
  | cons first rest ih =>
      have orderedRest : ∀ edit ∈ rest, edit.start ≤ edit.stop := fun edit member =>
        ordered edit (List.mem_cons_of_mem first member)
      cases rest with
      | nil => exact List.pairwise_singleton _ first
      | cons second rest =>
          simp only [areSeparate, Bool.and_eq_true, decide_eq_true_eq] at separate
          have further := ih orderedRest separate.2
          refine List.pairwise_cons.mpr ⟨fun next member => ?_, further⟩
          rcases List.mem_cons.mp member with rfl | later
          · exact separate.1
          · have reach := orderedRest second List.mem_cons_self
            have gap := List.rel_of_pairwise_cons further later
            exact Int.le_trans separate.1 (Int.le_trans reach gap)

/-- In document order no edit reaches over the next exactly if no two overlap. -/
theorem pairwise_inDocumentOrder_iff (ordered : ∀ edit ∈ edits, edit.start ≤ edit.stop) :
    (inDocumentOrder edits).Pairwise (·.stop ≤ ·.start) ↔
      edits.Pairwise fun left right => ¬ left.Overlaps right := by
  have permuted : (inDocumentOrder edits).Perm edits := stableSort_perm _ edits
  have sorted : (inDocumentOrder edits).Pairwise (·.notAfter · = true) :=
    pairwise_stableSort OffsetEdit.notAfter_trans fun left _ right _ =>
      OffsetEdit.notAfter_total left right
  have overlaps : (inDocumentOrder edits).Pairwise (fun left right => ¬ left.Overlaps right) ↔
      edits.Pairwise fun left right => ¬ left.Overlaps right :=
    permuted.pairwise_iff fun apart overlap => apart overlap.symm
  rw [← overlaps]
  constructor
  · intro apart
    refine apart.imp fun {left right} gap overlap => ?_
    exact Int.not_lt.mpr gap overlap.2
  · intro apart
    refine (sorted.and apart).imp_of_mem fun {left right} leftMember rightMember both => ?_
    have leftOrdered := ordered left (permuted.mem_iff.mp leftMember)
    have rightOrdered := ordered right (permuted.mem_iff.mp rightMember)
    have before := OffsetEdit.notAfter_iff.mp both.1
    have gap := both.2
    simp only [OffsetEdit.Overlaps] at gap
    omega

theorem insertedAt_inDocumentOrder (edits : List OffsetEdit) (place : Nat) :
    insertedAt (inDocumentOrder edits) place = insertedAt edits place := by
  have sorted : (edits.filter (·.insertsAt place)).Pairwise (·.notAfter · = true) := by
    refine List.pairwise_of_forall_mem_list fun left leftMember right rightMember => ?_
    have leftEnds := OffsetEdit.insertsAt_iff.mp (List.mem_filter.mp leftMember).2
    have rightEnds := OffsetEdit.insertsAt_iff.mp (List.mem_filter.mp rightMember).2
    rw [OffsetEdit.notAfter_iff]
    omega
  have selected : (inDocumentOrder edits).filter (·.insertsAt place) =
      stableSort OffsetEdit.notAfter (edits.filter (·.insertsAt place)) :=
    filter_stableSort OffsetEdit.notAfter_trans _ fun left _ right _ =>
      OffsetEdit.notAfter_total left right
  rw [insertedAt, selected, stableSort_of_pairwise sorted, insertedAt]

theorem keptAt_inDocumentOrder (text : Text) (edits : List OffsetEdit) (place : Nat) :
    keptAt text (inDocumentOrder edits) place = keptAt text edits place := by
  have same : (inDocumentOrder edits).any (·.covers place) = edits.any (·.covers place) :=
    (stableSort_perm _ edits).any_eq
  rw [keptAt, same, keptAt]

end Order

/-- What is inserted at the start of a rewritten stretch comes out whole, in some order. -/
def KeepsInsertions (text : Text) (edits : List OffsetEdit) (edit : OffsetEdit) : Prop :=
  ∃ inserted : List Text, inserted.Perm (insertedAt edits edit.start.toNat) ∧
    overwritten text (insertedAt edits edit.start.toNat) edit =
      inserted.flatten ++ edit.replacement

section AtOnce

variable {text : Text} {edits : List OffsetEdit} {edit : OffsetEdit} {place : Nat}

theorem filter_rewritesAt (apart : edits.Pairwise fun left right => ¬ left.Overlaps right)
    (member : edit ∈ edits) (rewrites : edit.rewritesAt place = true) :
    edits.filter (·.rewritesAt place) = [edit] := by
  have known : edit ∈ edits.filter (·.rewritesAt place) := List.mem_filter.mpr ⟨member, rewrites⟩
  have clear := apart.sublist (List.filter_sublist (p := (·.rewritesAt place)))
  cases selected : edits.filter (·.rewritesAt place) with
  | nil => rw [selected] at known; cases known
  | cons first rest =>
      cases rest with
      | nil =>
          rw [selected] at known
          rw [List.mem_singleton.mp known]
      | cons second rest =>
          have stretches : ∀ other ∈ first :: second :: rest, other.rewritesAt place = true :=
            fun other listed => (List.mem_filter.mp (selected ▸ listed)).2
          have firstEnds := OffsetEdit.rewritesAt_iff.mp (stretches first (by simp))
          have secondEnds := OffsetEdit.rewritesAt_iff.mp (stretches second (by simp))
          rw [selected] at clear
          exact absurd ⟨by omega, by omega⟩ (List.rel_of_pairwise_cons clear List.mem_cons_self)

theorem replacedAt_of_rewritesAt
    (apart : edits.Pairwise fun left right => ¬ left.Overlaps right) (member : edit ∈ edits)
    (rewrites : edit.rewritesAt place = true) (inserted : List Text) :
    replacedAt text edits inserted place = inserted.flatten ++ edit.replacement := by
  have cover : edits.any (·.covers place) = true :=
    List.any_eq_true.mpr ⟨edit, member, OffsetEdit.covers_of_rewritesAt rewrites⟩
  simp [replacedAt, rewrittenAt, filter_rewritesAt apart member rewrites, keptAt, cover]

theorem carriedOutAt_of_rewritesAt
    (apart : edits.Pairwise fun left right => ¬ left.Overlaps right) (member : edit ∈ edits)
    (rewrites : edit.rewritesAt place = true) :
    carriedOutAt text (inDocumentOrder edits) place =
      overwritten text (insertedAt edits place) edit := by
  rw [carriedOutAt, insertedAt_inDocumentOrder]
  cases found : (inDocumentOrder edits).find? (·.rewritesAt place) with
  | none => exact absurd rewrites (List.find?_eq_none.mp found edit (mem_stableSort.mpr member))
  | some other =>
      have listed : other ∈ edits.filter (·.rewritesAt place) := List.mem_filter.mpr
        ⟨mem_stableSort.mp (List.mem_of_find?_eq_some found), List.find?_some found⟩
      rw [filter_rewritesAt apart member rewrites] at listed
      rw [List.mem_singleton.mp listed]

/-- Where no stretch is rewritten the insertions are turned round, and nothing is lost. -/
theorem carriedOutAt_of_forall_not (none : ∀ edit ∈ edits, ¬ edit.rewritesAt place = true) :
    carriedOutAt text (inDocumentOrder edits) place =
      replacedAt text edits (insertedAt edits place).reverse place := by
  have missing : (inDocumentOrder edits).find? (·.rewritesAt place) = Option.none :=
    List.find?_eq_none.mpr fun edit member => none edit (mem_stableSort.mp member)
  have plain : rewrittenAt edits place = [] := by
    rw [rewrittenAt, List.filter_eq_nil_iff.mpr none, List.map_nil]
  simp [carriedOutAt, missing, insertedAt_inDocumentOrder, keptAt_inDocumentOrder, replacedAt, plain]

theorem length_overwritten {inserted : List Text} (within : edit.stop ≤ text.length) :
    (overwritten text inserted edit).length =
      inserted.flatten.length + edit.replacement.length := by
  have turned := inserted.reverse_perm.flatten.length_eq
  rw [overwritten, List.length_append, List.length_drop, List.length_append, turned,
    length_slice text _ _ (by omega)]
  omega

theorem length_carriedOutAt {order : List Text}
    (apart : edits.Pairwise fun left right => ¬ left.Overlaps right)
    (within : ∀ edit ∈ edits, edit.stop ≤ text.length) (same : order.Perm (insertedAt edits place)) :
    (carriedOutAt text (inDocumentOrder edits) place).length =
      (replacedAt text edits order place).length := by
  have ordered := same.flatten.length_eq
  by_cases stretch : ∃ edit ∈ edits, edit.rewritesAt place = true
  · obtain ⟨edit, member, rewrites⟩ := stretch
    rw [carriedOutAt_of_rewritesAt apart member rewrites,
      replacedAt_of_rewritesAt apart member rewrites, length_overwritten (within edit member),
      List.length_append, ordered]
  · have none : ∀ edit ∈ edits, ¬ edit.rewritesAt place = true :=
      fun edit member rewrites => stretch ⟨edit, member, rewrites⟩
    have turned := (insertedAt edits place).reverse_perm.flatten.length_eq
    rw [carriedOutAt_of_forall_not none, replacedAt, replacedAt]
    simp only [List.length_append, turned, ordered]

/-- Edits that do not overlap are carried out offset by offset. -/
theorem applyEdits_inDocumentOrder
    (apart : edits.Pairwise fun left right => ¬ left.Overlaps right)
    (ends : ∀ edit ∈ edits, 0 ≤ edit.start ∧ edit.start ≤ edit.stop ∧ edit.stop ≤ text.length) :
    applyEdits text (inDocumentOrder edits) =
      (List.range (text.length + 1)).flatMap (carriedOutAt text (inDocumentOrder edits)) := by
  have separate : Separate text.length (inDocumentOrder edits) :=
    ⟨(pairwise_inDocumentOrder_iff fun edit member => (ends edit member).2.1).mpr apart,
      fun edit member => ends edit (mem_stableSort.mp member)⟩
  have starts : ∀ edit ∈ inDocumentOrder edits, ((0 : Nat) : Int) ≤ edit.start :=
    fun edit member => (separate.ends edit member).1
  rw [List.range_eq_range']
  exact applyEdits_eq_carriedOut separate starts (Nat.zero_add _)

/-- Edits that do not overlap, carried out from the back to the front, replace their ranges at
once exactly if every rewritten stretch keeps what is inserted at its start. -/
theorem replacedAtOnce_applyEdits_iff
    (apart : edits.Pairwise fun left right => ¬ left.Overlaps right)
    (ends : ∀ edit ∈ edits, 0 ≤ edit.start ∧ edit.start ≤ edit.stop ∧ edit.stop ≤ text.length) :
    ReplacedAtOnce text edits (applyEdits text (inDocumentOrder edits)) ↔
      ∀ edit ∈ edits, edit.start < edit.stop → KeepsInsertions text edits edit := by
  have within : ∀ edit ∈ edits, edit.stop ≤ text.length := fun edit member =>
    (ends edit member).2.2
  rw [applyEdits_inDocumentOrder apart ends]
  constructor
  · -- The pieces have equal lengths on both sides, so equal texts have equal pieces.
    rintro ⟨order, same, after⟩ edit member extent
    have pieces := forall_eq_of_flatMap_eq
      (fun place _ => (length_carriedOutAt apart within (same place)).le) after
    obtain ⟨nonneg, -, stop⟩ := ends edit member
    have rewrites : edit.rewritesAt edit.start.toNat = true :=
      OffsetEdit.rewritesAt_iff.mpr ⟨by omega, by omega⟩
    have here := pieces edit.start.toNat (List.mem_range.mpr (by omega))
    rw [carriedOutAt_of_rewritesAt apart member rewrites,
      replacedAt_of_rewritesAt apart member rewrites] at here
    exact ⟨order edit.start.toNat, same _, here⟩
  · intro keeps
    have orders : ∀ place, ∃ order : List Text, order.Perm (insertedAt edits place) ∧
        carriedOutAt text (inDocumentOrder edits) place = replacedAt text edits order place := by
      intro place
      by_cases stretch : ∃ edit ∈ edits, edit.rewritesAt place = true
      · obtain ⟨edit, member, rewrites⟩ := stretch
        obtain ⟨start, extent⟩ := OffsetEdit.rewritesAt_iff.mp rewrites
        obtain ⟨inserted, same, kept⟩ := keeps edit member (by omega)
        rw [start, Int.toNat_natCast] at same kept
        refine ⟨inserted, same, ?_⟩
        rw [carriedOutAt_of_rewritesAt apart member rewrites, kept,
          replacedAt_of_rewritesAt apart member rewrites]
      · exact ⟨_, List.reverse_perm _, carriedOutAt_of_forall_not fun edit member rewrites =>
          stretch ⟨edit, member, rewrites⟩⟩
    choose order same pieces using orders
    exact ⟨order, same, List.flatMap_congr fun place _ => pieces place⟩

theorem overwritten_of_forall_empty {inserted : List Text} (within : edit.stop ≤ text.length)
    (empty : ∀ piece ∈ inserted, piece = []) : overwritten text inserted edit = edit.replacement := by
  have nothing : inserted.reverse.flatten = [] :=
    List.flatten_eq_nil_iff.mpr fun piece member => empty piece (List.mem_reverse.mp member)
  have whole : (slice text edit.start.toNat edit.stop.toNat).length ≤
      edit.stop.toNat - edit.start.toNat := by
    rw [length_slice text _ _ (by omega)]
  rw [overwritten, nothing, List.nil_append, List.drop_eq_nil_of_le whole, List.append_nil]

theorem KeepsInsertions.of_forall_empty (within : edit.stop ≤ text.length)
    (empty : ∀ inserted ∈ insertedAt edits edit.start.toNat, inserted = []) :
    KeepsInsertions text edits edit := by
  refine ⟨_, .refl _, ?_⟩
  rw [overwritten_of_forall_empty within empty, List.flatten_eq_nil_iff.mpr empty, List.nil_append]

end AtOnce

section Batch

theorem pairwise_overlaps_clamp {text : Text} {edits : List Edit}
    (fit : ∀ edit ∈ edits, edit.Fits text) :
    ((edits.map (Edit.clamp text)).Pairwise fun left right => ¬ left.Overlaps right) ↔
      edits.Pairwise fun left right => ¬ left.range.Overlaps right.range := by
  rw [List.pairwise_map]
  refine List.Pairwise.iff_of_mem fun {left right} leftMember rightMember => not_congr ?_
  have leftFits := fit left leftMember
  have rightFits := fit right rightMember
  refine and_congr ?_ ?_
  · exact Int.ofNat_lt.trans (leftFits.start.offsetAt_lt_iff rightFits.stop)
  · exact Int.ofNat_lt.trans (rightFits.start.offsetAt_lt_iff leftFits.stop)

/-- A batch is taken exactly if every range fits and no two overlap, and then its edits are
carried out in document order. -/
theorem replaceRanges?_eq_some_iff {text after : Text} {edits : List Edit} :
    replaceRanges? text edits = some after ↔
      ((∀ edit ∈ edits, edit.Fits text) ∧
        edits.Pairwise fun left right => ¬ left.range.Overlaps right.range) ∧
      after = applyEdits text (inDocumentOrder (edits.map (Edit.clamp text))) := by
  simp only [replaceRanges?, Option.bind_eq_bind, Option.bind_eq_some_iff,
    mapM_resolve?_eq_some_iff]
  have separate_iff : (∀ edit ∈ edits, edit.Fits text) →
      (areSeparate (inDocumentOrder (edits.map (Edit.clamp text))) = true ↔
        edits.Pairwise fun left right => ¬ left.range.Overlaps right.range) := by
    intro fit
    have ordered := fun edit member => (ends_clamp fit edit member).2.1
    have orderedSorted : ∀ edit ∈ inDocumentOrder (edits.map (Edit.clamp text)),
        edit.start ≤ edit.stop := fun edit member => ordered edit (mem_stableSort.mp member)
    rw [areSeparate_iff_pairwise orderedSorted, pairwise_inDocumentOrder_iff ordered,
      pairwise_overlaps_clamp fit]
  constructor
  · rintro ⟨_, ⟨fit, rfl⟩, taken⟩
    split at taken
    · next separate => exact ⟨⟨fit, (separate_iff fit).mp separate⟩, (Option.some.inj taken).symm⟩
    · cases taken
  · rintro ⟨⟨fit, apart⟩, rfl⟩
    exact ⟨_, ⟨fit, rfl⟩, if_pos ((separate_iff fit).mpr apart)⟩

/-- Whether a document takes a batch of edits, and the document afterwards. -/
def Document.replacing (document : Document) (edits : List Edit) : Bool × Document :=
  match document.replaceRanges? edits with
  | some after => (true, after)
  | none => (false, document)

theorem Document.replacing_of_writable {document : Document} (writable : document.readOnly = false)
    (edits : List Edit) : document.replacing edits =
      match CodeProse.replaceRanges? document.text edits with
      | some text => (true, { document with text })
      | none => (false, document) := by
  have editable : ¬ document.readOnly = true := by simp [writable]
  rw [Document.replacing, Document.replaceRanges?, if_neg editable]
  cases CodeProse.replaceRanges? document.text edits <;> rfl

/-- For every document that can be edited and every batch: the batch is taken exactly if every
range lies in the text with its ends in order and no two ranges overlap; a refused batch leaves
the document as it was; one that is taken changes nothing but the text, and replaces all ranges at
once exactly if every rewritten stretch keeps what is inserted at its start. That is so wherever
no character is inserted at the start of a stretch. -/
theorem Document.replacing_spec (document : Document) (edits : List Edit)
    (writable : document.readOnly = false) :
    let batch := edits.map (Edit.clamp document.text)
    let taken := (document.replacing edits).1
    let after := (document.replacing edits).2
    (taken = true ↔ (∀ edit ∈ edits, edit.Fits document.text) ∧
      edits.Pairwise fun left right => ¬ left.range.Overlaps right.range) ∧
    (taken = false → after = document) ∧
    (taken = true → after = { document with text := after.text } ∧
      (ReplacedAtOnce document.text batch after.text ↔
        ∀ edit ∈ batch, edit.start < edit.stop → KeepsInsertions document.text batch edit) ∧
      ((∀ edit ∈ batch, edit.start < edit.stop →
          ∀ inserted ∈ insertedAt batch edit.start.toNat, inserted = []) →
        ReplacedAtOnce document.text batch after.text)) := by
  intro batch taken after
  cases outcome : CodeProse.replaceRanges? document.text edits with
  | none =>
      have refused : document.replacing edits = (false, document) := by
        rw [Document.replacing_of_writable writable, outcome]
      have conditions : ¬ ((∀ edit ∈ edits, edit.Fits document.text) ∧
          edits.Pairwise fun left right => ¬ left.range.Overlaps right.range) := by
        intro holds
        rw [replaceRanges?_eq_some_iff.mpr ⟨holds, rfl⟩] at outcome
        cases outcome
      simp only [taken, after, refused]
      refine ⟨⟨fun impossible => ?_, fun holds => absurd holds conditions⟩, fun _ => trivial,
        fun impossible => ?_⟩
      · cases impossible
      · cases impossible
  | some text =>
      have accepted : document.replacing edits = (true, { document with text }) := by
        rw [Document.replacing_of_writable writable, outcome]
      obtain ⟨holds, shape⟩ := replaceRanges?_eq_some_iff.mp outcome
      have ends := ends_clamp holds.1
      have atOnce := replacedAtOnce_applyEdits_iff ((pairwise_overlaps_clamp holds.1).mpr holds.2) ends
      rw [← shape] at atOnce
      simp only [taken, after, accepted]
      refine ⟨⟨fun _ => holds, fun _ => trivial⟩, fun impossible => ?_, fun _ => ⟨trivial, atOnce, ?_⟩⟩
      · cases impossible
      · intro empty
        refine atOnce.mpr fun edit member extent => ?_
        exact .of_forall_empty (ends edit member).2.2 (empty edit member extent)

def shortNote : Document where
  identity := "note"
  languageId := Document.plainLanguage
  text := "abcd"

/-- A stretch that is rewritten, a text inserted where it stops, and a stretch that is deleted. -/
def touchingEdits : List Edit :=
  [⟨⟨⟨0, 2⟩, ⟨0, 2⟩⟩, "Z"⟩, ⟨⟨⟨0, 3⟩, ⟨0, 4⟩⟩, ""⟩, ⟨⟨⟨0, 0⟩, ⟨0, 2⟩⟩, "Y"⟩]

theorem Document.replacing_spec_shortNote :
    (shortNote.replacing touchingEdits).1 = true ∧
      (shortNote.replacing touchingEdits).2.text = "YZc".toText ∧
      ReplacedAtOnce shortNote.text (touchingEdits.map (Edit.clamp shortNote.text))
        (shortNote.replacing touchingEdits).2.text := by
  have spec := Document.replacing_spec shortNote touchingEdits rfl
  have taken : (shortNote.replacing touchingEdits).1 = true := by decide
  exact ⟨taken, by decide, (spec.2.2 taken).2.2 (by decide)⟩

/-- A text inserted at the start of a stretch that is rewritten. -/
def coveringEdits : List Edit :=
  [⟨⟨⟨0, 1⟩, ⟨0, 1⟩⟩, "X"⟩, ⟨⟨⟨0, 1⟩, ⟨0, 2⟩⟩, "Y"⟩]

/-- The text inserted at the start of a rewritten stretch is lost in place of the stretch. -/
theorem Document.not_forall_replacedAtOnce :
    ¬ ∀ (document : Document) (edits : List Edit), document.readOnly = false →
      (document.replacing edits).1 = true →
        ReplacedAtOnce document.text (edits.map (Edit.clamp document.text))
          (document.replacing edits).2.text := by
  intro law
  have claimed := law shortNote coveringEdits rfl (by decide)
  have text : (shortNote.replacing coveringEdits).2.text =
      applyEdits shortNote.text
        (inDocumentOrder (coveringEdits.map (Edit.clamp shortNote.text))) := by decide
  rw [text, replacedAtOnce_applyEdits_iff (by decide) (by decide)] at claimed
  obtain ⟨inserted, same, kept⟩ := claimed ⟨1, 2, "Y"⟩ (by decide) (by decide)
  have single : insertedAt (coveringEdits.map (Edit.clamp shortNote.text)) (1 : Int).toNat =
      ["X".toText] := by decide
  rw [single] at same kept
  rw [List.perm_singleton.mp same] at kept
  exact absurd kept (by decide)

end Batch

end CodeProse
