import CodeProse.Proofs.Document.Edit

/-!
# Edits from the back to the front

Edits that do not reach over one another are carried out one after the other, the last start
first. What comes of that is told offset by offset: the texts inserted there with the last one in
front, and where a stretch is rewritten its new text and what is left of the insertions behind it.
-/

set_option autoImplicit false

namespace CodeProse

namespace OffsetEdit

/-- Whether an edit inserts its text at an offset. -/
def insertsAt (place : Nat) (edit : OffsetEdit) : Bool :=
  edit.start = place && edit.stop = place

/-- Whether an edit rewrites a stretch that starts at an offset. -/
def rewritesAt (place : Nat) (edit : OffsetEdit) : Bool :=
  edit.start = place && (place : Int) < edit.stop

/-- Whether an edit replaces the character at an offset. -/
def covers (place : Nat) (edit : OffsetEdit) : Bool :=
  edit.start ≤ place && (place : Int) < edit.stop

end OffsetEdit

/-- The texts that are inserted at an offset, as they are listed. -/
def insertedAt (edits : List OffsetEdit) (place : Nat) : List Text :=
  (edits.filter (·.insertsAt place)).map (·.replacement)

/-- The character at an offset, unless an edit replaces it. -/
def keptAt (text : Text) (edits : List OffsetEdit) (place : Nat) : Text :=
  if edits.any (·.covers place) then [] else text[place]?.toList

/-- What an edit that rewrites a stretch leaves when texts were inserted at its start before: the
stretch is cut away by its length, whatever stands there by then. -/
def overwritten (text : Text) (inserted : List Text) (edit : OffsetEdit) : Text :=
  edit.replacement ++
    (inserted.reverse.flatten ++ slice text edit.start.toNat edit.stop.toNat).drop
      (edit.stop.toNat - edit.start.toNat)

/-- What stands where an offset was after edits were done from the back to the front. -/
def carriedOutAt (text : Text) (edits : List OffsetEdit) (place : Nat) : Text :=
  match edits.find? (·.rewritesAt place) with
  | none => (insertedAt edits place).reverse.flatten ++ keptAt text edits place
  | some edit => overwritten text (insertedAt edits place) edit

/-- A list of edits in document order, none reaching over the next, within a limit. -/
structure Separate (limit : Nat) (edits : List OffsetEdit) : Prop where
  apart : edits.Pairwise (·.stop ≤ ·.start)
  ends : ∀ edit ∈ edits, 0 ≤ edit.start ∧ edit.start ≤ edit.stop ∧ edit.stop ≤ limit

theorem Separate.sublist {limit : Nat} {edits kept : List OffsetEdit}
    (separate : Separate limit edits) (fewer : kept.Sublist edits) : Separate limit kept :=
  ⟨separate.apart.sublist fewer, fun edit member => separate.ends edit (fewer.subset member)⟩

section Applying

variable {text rest : Text} {place : Nat}

/-- An edit leaves what stands in front of it and cuts what it replaces away behind it. -/
theorem OffsetEdit.apply_take_append {edit : OffsetEdit} {stop : Nat} (within : place ≤ text.length)
    (start : edit.start = place) (reached : edit.stop = stop) (ordered : place ≤ stop) :
    OffsetEdit.apply (text.take place ++ rest) edit =
      text.take place ++ (edit.replacement ++ rest.drop (stop - place)) := by
  have front : (text.take place).length = place := List.length_take_of_le within
  rw [OffsetEdit.apply, start, reached, upTo_natCast, since_natCast, List.drop_append, front,
    List.drop_eq_nil_of_le (by omega), List.take_left' front, List.nil_append, List.append_assoc]

/-- Texts inserted at one offset after the other come out the last one first. -/
theorem foldl_apply_insertions {insertions : List OffsetEdit} (within : place ≤ text.length)
    (inserts : ∀ edit ∈ insertions, edit.insertsAt place = true) :
    insertions.foldl OffsetEdit.apply (text.take place ++ rest) =
      text.take place ++ ((insertions.map (·.replacement)).reverse.flatten ++ rest) := by
  induction insertions generalizing rest with
  | nil => simp
  | cons edit insertions ih =>
      have here := inserts edit List.mem_cons_self
      simp only [OffsetEdit.insertsAt, Bool.and_eq_true, decide_eq_true_eq] at here
      rw [List.foldl_cons, OffsetEdit.apply_take_append within here.1 here.2 (Nat.le_refl place),
        ih fun next member => inserts next (List.mem_cons_of_mem edit member)]
      simp

end Applying

section Places

variable {text : Text} {edits front later : List OffsetEdit} {place : Nat} {edit : OffsetEdit}

/-- Whether an edit matters for what stands at an offset. -/
def OffsetEdit.concerns (place : Nat) (edit : OffsetEdit) : Bool :=
  edit.insertsAt place || edit.covers place

theorem OffsetEdit.insertsAt_iff :
    edit.insertsAt place = true ↔ edit.start = place ∧ edit.stop = place := by
  simp [insertsAt]

theorem OffsetEdit.rewritesAt_iff :
    edit.rewritesAt place = true ↔ edit.start = place ∧ (place : Int) < edit.stop := by
  simp [rewritesAt]

theorem OffsetEdit.covers_iff :
    edit.covers place = true ↔ edit.start ≤ place ∧ (place : Int) < edit.stop := by
  simp [covers]

theorem OffsetEdit.concerns_iff : edit.concerns place = true ↔
    edit.start = place ∧ edit.stop = place ∨ edit.start ≤ place ∧ (place : Int) < edit.stop := by
  simp [concerns, insertsAt, covers]

theorem OffsetEdit.covers_of_rewritesAt (rewrites : edit.rewritesAt place = true) :
    edit.covers place = true := by
  rw [rewritesAt_iff] at rewrites
  rw [covers_iff]
  omega

theorem OffsetEdit.not_insertsAt_of_rewritesAt (rewrites : edit.rewritesAt place = true) :
    ¬ edit.insertsAt place = true := by
  rw [rewritesAt_iff] at rewrites
  rw [insertsAt_iff]
  omega

theorem find?_rewritesAt_of_insertions (inserts : ∀ edit ∈ front, edit.insertsAt place = true) :
    front.find? (·.rewritesAt place) = none :=
  List.find?_eq_none.mpr fun edit member rewrites =>
    OffsetEdit.not_insertsAt_of_rewritesAt rewrites (inserts edit member)

theorem carriedOutAt_filter_concerns (text : Text) (edits : List OffsetEdit) (place : Nat) :
    carriedOutAt text (edits.filter (·.concerns place)) place = carriedOutAt text edits place := by
  have insertion : (edits.filter (·.concerns place)).filter (·.insertsAt place) =
      edits.filter (·.insertsAt place) := by
    rw [List.filter_filter]
    refine List.filter_congr fun edit _ => ?_
    cases inserts : edit.insertsAt place <;> simp [OffsetEdit.concerns, inserts]
  have rewriting : (edits.filter (·.concerns place)).find? (·.rewritesAt place) =
      edits.find? (·.rewritesAt place) := by
    rw [List.find?_filter]
    refine congrArg (edits.find? ·) (funext fun edit => ?_)
    cases rewrites : edit.rewritesAt place with
    | false => simp
    | true => simp [OffsetEdit.concerns, OffsetEdit.covers_of_rewritesAt rewrites]
  have cover : (edits.filter (·.concerns place)).any (·.covers place) =
      edits.any (·.covers place) := by
    rw [List.any_filter]
    refine congrArg (edits.any ·) (funext fun edit => ?_)
    cases covered : edit.covers place <;> simp [OffsetEdit.concerns, covered]
  simp only [carriedOutAt, insertedAt, keptAt, insertion, rewriting, cover]

theorem carriedOutAt_append_of_passed
    (passed : ∀ edit ∈ front, edit.start < place ∧ edit.stop ≤ place) :
    carriedOutAt text (front ++ later) place = carriedOutAt text later place := by
  have none : front.filter (·.concerns place) = [] := by
    refine List.filter_eq_nil_iff.mpr fun edit member => ?_
    have before := passed edit member
    rw [OffsetEdit.concerns_iff]
    omega
  rw [← carriedOutAt_filter_concerns, List.filter_append, none, List.nil_append,
    carriedOutAt_filter_concerns]

theorem carriedOutAt_append_of_behind (behind : ∀ edit ∈ later, (place : Int) < edit.start) :
    carriedOutAt text (front ++ later) place = carriedOutAt text front place := by
  have none : later.filter (·.concerns place) = [] := by
    refine List.filter_eq_nil_iff.mpr fun edit member => ?_
    have after := behind edit member
    rw [OffsetEdit.concerns_iff]
    omega
  rw [← carriedOutAt_filter_concerns, List.filter_append, none, List.append_nil,
    carriedOutAt_filter_concerns]

theorem carriedOutAt_of_behind (behind : ∀ edit ∈ later, (place : Int) < edit.start) :
    carriedOutAt text later place = text[place]?.toList := by
  have nothing : carriedOutAt text ([] ++ later) place = carriedOutAt text [] place :=
    carriedOutAt_append_of_behind behind
  exact nothing

theorem carriedOutAt_of_insertions (inserts : ∀ edit ∈ front, edit.insertsAt place = true) :
    carriedOutAt text front place =
      (front.map (·.replacement)).reverse.flatten ++ text[place]?.toList := by
  have all : front.filter (·.insertsAt place) = front := List.filter_eq_self.mpr inserts
  have noCover : front.any (·.covers place) = false := by
    refine List.any_eq_false.mpr fun edit member => ?_
    have here := OffsetEdit.insertsAt_iff.mp (inserts edit member)
    rw [OffsetEdit.covers_iff]
    omega
  simp [carriedOutAt, insertedAt, keptAt, all, find?_rewritesAt_of_insertions inserts, noCover]

theorem carriedOutAt_of_rewriting (inserts : ∀ edit ∈ front, edit.insertsAt place = true)
    (rewrites : edit.rewritesAt place = true) :
    carriedOutAt text (front ++ [edit]) place =
      overwritten text (front.map (·.replacement)) edit := by
  have all : front.filter (·.insertsAt place) = front := List.filter_eq_self.mpr inserts
  have noInsertion := OffsetEdit.not_insertsAt_of_rewritesAt rewrites
  simp [carriedOutAt, insertedAt, all, noInsertion, find?_rewritesAt_of_insertions inserts, rewrites]

theorem carriedOutAt_of_covered (member : edit ∈ edits)
    (covered : edit.covers place = true) (starts : ∀ other ∈ edits, other.start ≠ place) :
    carriedOutAt text edits place = [] := by
  have noInsertion : edits.filter (·.insertsAt place) = [] := by
    refine List.filter_eq_nil_iff.mpr fun other known => ?_
    simp [OffsetEdit.insertsAt, starts other known]
  have noRewriting : edits.find? (·.rewritesAt place) = none := by
    refine List.find?_eq_none.mpr fun other known => ?_
    simp [OffsetEdit.rewritesAt, starts other known]
  have cover : edits.any (·.covers place) = true := List.any_eq_true.mpr ⟨edit, member, covered⟩
  simp [carriedOutAt, insertedAt, keptAt, noInsertion, noRewriting, cover]

end Places

section BackToFront

variable {text : Text} {place : Nat} {insertions later : List OffsetEdit}

/-- Separate edits from an offset on: the texts inserted there, a stretch rewritten there if there
is one, and the edits behind. -/
theorem Separate.exists_split {limit : Nat} {edits : List OffsetEdit}
    (separate : Separate limit edits) (starts : ∀ edit ∈ edits, (place : Int) ≤ edit.start) :
    ∃ insertions rewriting later, edits = insertions ++ (rewriting ++ later) ∧
      (∀ edit ∈ insertions, edit.insertsAt place = true) ∧
      (rewriting = [] ∨ ∃ edit, rewriting = [edit] ∧ edit.rewritesAt place = true) ∧
      ∀ edit ∈ later, (place : Int) < edit.start := by
  induction edits with
  | nil => exact ⟨[], [], [], rfl, by simp, .inl rfl, by simp⟩
  | cons edit rest ih =>
      obtain ⟨first, further⟩ := List.pairwise_cons.mp separate.apart
      obtain ⟨nonneg, ordered, within⟩ := separate.ends edit List.mem_cons_self
      have startsHere := starts edit List.mem_cons_self
      have gaps : ∀ next ∈ rest, edit.stop ≤ next.start := first
      rcases Int.lt_or_eq_of_le startsHere with behind | here
      · refine ⟨[], [], edit :: rest, rfl, by simp, .inl rfl, ?_⟩
        intro next member
        rcases List.mem_cons.mp member with rfl | later
        · exact behind
        · have gap := gaps next later
          omega
      · by_cases extent : (place : Int) < edit.stop
        · refine ⟨[], [edit], rest, rfl, by simp, .inr ⟨edit, rfl, ?_⟩, ?_⟩
          · simp [OffsetEdit.rewritesAt, ← here, extent]
          · intro next later
            have gap := gaps next later
            omega
        · have separateRest : Separate limit rest :=
            ⟨further, fun next member => separate.ends next (List.mem_cons_of_mem edit member)⟩
          obtain ⟨insertions, rewriting, later, shape, inserts, rewrites, behind⟩ :=
            ih separateRest fun next member => starts next (List.mem_cons_of_mem edit member)
          refine ⟨edit :: insertions, rewriting, later, by rw [shape]; rfl, ?_, rewrites, behind⟩
          intro next member
          rcases List.mem_cons.mp member with rfl | known
          · have stops : next.stop = place := by omega
            simp [OffsetEdit.insertsAt, ← here, stops]
          · exact inserts next known

/-- Edits at one offset are carried out behind those that start further back. -/
theorem applyEdits_append (here : ∀ edit ∈ insertions, edit.start = place)
    (behind : ∀ edit ∈ later, (place : Int) < edit.start) :
    applyEdits text (insertions ++ later) =
      insertions.foldl OffsetEdit.apply (applyEdits text later) := by
  have ordered : insertions.Pairwise fun left right => decide (right.start ≤ left.start) = true := by
    refine List.pairwise_of_forall_mem_list fun left leftMember right rightMember => ?_
    simp [here left leftMember, here right rightMember]
  have opposed : ∀ edit ∈ insertions, ∀ other ∈ later, decide (other.start ≤ edit.start) = false := by
    intro edit member other known
    have after := behind other known
    simpa [here edit member] using after
  rw [applyEdits, backToFront, stableSort_append ordered opposed, List.foldl_append]
  rfl

theorem take_append_carriedOut {count : Nat}
    (behind : ∀ edit ∈ later, (place : Int) < edit.start) :
    text.take (place + 1) ++
        (List.range' (place + 1) count).flatMap (carriedOutAt text later) =
      text.take place ++ (List.range' place (count + 1)).flatMap (carriedOutAt text later) := by
  rw [List.range'_succ, List.flatMap_cons, carriedOutAt_of_behind behind, List.take_add_one,
    List.append_assoc]

theorem flatMap_carriedOutAt_of_passed {front : List OffsetEdit} {count : Nat}
    (passed : ∀ edit ∈ front, edit.start < place ∧ edit.stop ≤ place) :
    (List.range' place count).flatMap (carriedOutAt text (front ++ later)) =
      (List.range' place count).flatMap (carriedOutAt text later) := by
  refine List.flatMap_congr fun further member => ?_
  have reached := (List.mem_range'_1.mp member).1
  refine carriedOutAt_append_of_passed fun edit known => ?_
  have before := passed edit known
  omega

theorem flatMap_carriedOutAt_of_behind {count : Nat}
    (behind : ∀ edit ∈ later, ((place + count : Nat) : Int) ≤ edit.start) :
    (List.range' place count).flatMap (carriedOutAt text later) =
      slice text place (place + count) := by
  refine flatMap_range'_eq_slice fun offset reached within => carriedOutAt_of_behind fun edit known => ?_
  have after := behind edit known
  omega

theorem flatMap_carriedOutAt_of_rewriting {edit : OffsetEdit} {count : Nat}
    (inserts : ∀ edit ∈ insertions, edit.insertsAt place = true) (start : edit.start = place)
    (stop : edit.stop = ((place + (count + 1) : Nat) : Int))
    (behind : ∀ edit ∈ later, ((place + (count + 1) : Nat) : Int) ≤ edit.start) :
    (List.range' place (count + 1)).flatMap (carriedOutAt text (insertions ++ [edit] ++ later)) =
      overwritten text (insertions.map (·.replacement)) edit := by
  have rewrites : edit.rewritesAt place = true := OffsetEdit.rewritesAt_iff.mpr ⟨start, by omega⟩
  have afterHere : ∀ edit ∈ later, (place : Int) < edit.start := by
    intro next member
    have after := behind next member
    omega
  -- The whole stretch counts at its first offset; at the others nothing is left standing.
  have inside : (List.range' (place + 1) count).flatMap
      (carriedOutAt text (insertions ++ [edit] ++ later)) = [] := by
    refine List.flatMap_eq_nil_iff.mpr fun further member => ?_
    obtain ⟨reached, within⟩ := List.mem_range'_1.mp member
    have covered : edit.covers further = true := OffsetEdit.covers_iff.mpr ⟨by omega, by omega⟩
    have listed : edit ∈ insertions ++ [edit] ++ later := by simp
    refine carriedOutAt_of_covered listed covered fun other known => ?_
    rcases List.mem_append.mp known with front | back
    · rcases List.mem_append.mp front with inserted | same
      · have ends := OffsetEdit.insertsAt_iff.mp (inserts other inserted)
        omega
      · rw [List.mem_singleton.mp same]
        omega
    · have after := behind other back
      omega
  rw [List.range'_succ, List.flatMap_cons, inside, List.append_nil,
    carriedOutAt_append_of_behind afterHere, carriedOutAt_of_rewriting inserts rewrites]

private theorem applyEdits_insertions {count : Nat} (within : place ≤ text.length)
    (inserts : ∀ edit ∈ insertions, edit.insertsAt place = true)
    (behind : ∀ edit ∈ later, (place : Int) < edit.start)
    (rest : applyEdits text later = text.take place ++
      (List.range' place (count + 1)).flatMap (carriedOutAt text later)) :
    applyEdits text (insertions ++ later) = text.take place ++
      (List.range' place (count + 1)).flatMap (carriedOutAt text (insertions ++ later)) := by
  have here : ∀ edit ∈ insertions, edit.start = place := fun edit member =>
    (OffsetEdit.insertsAt_iff.mp (inserts edit member)).1
  have passed : (List.range' (place + 1) count).flatMap
      (carriedOutAt text (insertions ++ later)) =
        (List.range' (place + 1) count).flatMap (carriedOutAt text later) := by
    refine flatMap_carriedOutAt_of_passed fun edit member => ?_
    have ends := OffsetEdit.insertsAt_iff.mp (inserts edit member)
    omega
  rw [applyEdits_append here behind, rest, foldl_apply_insertions within inserts,
    List.range'_succ, List.flatMap_cons, List.flatMap_cons, passed,
    carriedOutAt_of_behind behind, carriedOutAt_append_of_behind behind,
    carriedOutAt_of_insertions inserts, List.append_assoc]

/-- Edits at the start of a stretch that one of them rewrites: the text is kept up to there, the stretch
is overwritten, and behind it stands what the later edits have left. -/
theorem applyEdits_overwritten {edit : OffsetEdit} {stop : Nat} {part : Text}
    (inserts : ∀ edit ∈ insertions, edit.insertsAt place = true) (start : edit.start = place)
    (stopEq : edit.stop = stop) (ordered : place ≤ stop) (within : stop ≤ text.length)
    (behind : ∀ edit ∈ later, (place : Int) < edit.start)
    (rest : applyEdits text later = text.take stop ++ part) :
    applyEdits text (insertions ++ [edit] ++ later) =
      text.take place ++ (overwritten text (insertions.map (·.replacement)) edit ++ part) := by
  have here : ∀ known ∈ insertions ++ [edit], known.start = place := by
    intro known member
    rcases List.mem_append.mp member with inserted | same
    · exact (OffsetEdit.insertsAt_iff.mp (inserts known inserted)).1
    · rw [List.mem_singleton.mp same, start]
  have long : (slice text place stop).length = stop - place :=
    length_slice text place stop within
  rw [applyEdits_append here behind, rest, ← take_append_slice text ordered, List.append_assoc,
    List.foldl_append, foldl_apply_insertions (by omega) inserts, List.foldl_cons, List.foldl_nil,
    OffsetEdit.apply_take_append (by omega) start stopEq (by omega), overwritten, start, stopEq,
    Int.toNat_natCast, Int.toNat_natCast, ← List.append_assoc _ (slice _ _ _),
    List.drop_append_of_le_length (by rw [List.length_append, long]; omega), List.append_assoc]

private theorem applyEdits_rewriting {edit : OffsetEdit} {width further : Nat}
    (inserts : ∀ edit ∈ insertions, edit.insertsAt place = true) (start : edit.start = place)
    (stop : edit.stop = ((place + (width + 1) : Nat) : Int))
    (behind : ∀ edit ∈ later, ((place + (width + 1) : Nat) : Int) ≤ edit.start)
    (within : place + (width + 1) ≤ text.length)
    (rest : applyEdits text later = text.take place ++
      (List.range' place (width + 1 + further)).flatMap (carriedOutAt text later)) :
    applyEdits text (insertions ++ [edit] ++ later) = text.take place ++
      (List.range' place (width + 1 + further)).flatMap
        (carriedOutAt text (insertions ++ [edit] ++ later)) := by
  have here : ∀ known ∈ insertions ++ [edit], known.start = place ∧
      known.stop ≤ ((place + (width + 1) : Nat) : Int) := by
    intro known member
    rcases List.mem_append.mp member with inserted | same
    · have ends := OffsetEdit.insertsAt_iff.mp (inserts known inserted)
      exact ⟨ends.1, by omega⟩
    · rw [List.mem_singleton.mp same]
      exact ⟨start, Int.le_of_eq stop⟩
  have afterHere : ∀ edit ∈ later, (place : Int) < edit.start := by
    intro next member
    have after := behind next member
    omega
  have passed : (List.range' (place + (width + 1)) further).flatMap
      (carriedOutAt text (insertions ++ [edit] ++ later)) =
        (List.range' (place + (width + 1)) further).flatMap (carriedOutAt text later) := by
    refine flatMap_carriedOutAt_of_passed fun known member => ?_
    have ends := here known member
    omega
  rw [← List.range'_append_1, List.flatMap_append, flatMap_carriedOutAt_of_behind behind,
    ← List.append_assoc, take_append_slice text (by omega)] at rest
  rw [applyEdits_overwritten inserts start stop (by omega) within afterHere rest,
    ← List.range'_append_1, List.flatMap_append,
    flatMap_carriedOutAt_of_rewriting inserts start stop behind, passed]

/-- Separate edits from an offset on, carried out from the back to the front, leave the text in
front of it and at each further offset what is carried out there. -/
theorem applyEdits_eq_carriedOut {edits : List OffsetEdit} {count : Nat}
    (separate : Separate text.length edits) (starts : ∀ edit ∈ edits, (place : Int) ≤ edit.start)
    (reach : place + count = text.length + 1) :
    applyEdits text edits =
      text.take place ++ (List.range' place count).flatMap (carriedOutAt text edits) := by
  -- By induction on the number of offsets: the edits at the first of them are carried out last.
  induction count generalizing place edits with
  | zero =>
      have none : edits = [] := by
        refine List.eq_nil_iff_forall_not_mem.mpr fun edit member => ?_
        have start := starts edit member
        have ends := separate.ends edit member
        omega
      rw [none, List.take_of_length_le (by omega)]
      simp [applyEdits, backToFront, stableSort]
  | succ count ih =>
      obtain ⟨insertions, rewriting, later, rfl, inserts, rewrites, behind⟩ :=
        separate.exists_split starts
      have separateLater : Separate text.length later := separate.sublist <|
        (List.sublist_append_right _ later).trans (List.sublist_append_right _ _)
      have rest := ih separateLater (fun edit member => Int.add_one_le_of_lt (behind edit member))
        (by omega : place + 1 + count = text.length + 1)
      rw [take_append_carriedOut behind] at rest
      rcases rewrites with rfl | ⟨edit, rfl, rewrites⟩
      · exact applyEdits_insertions (by omega) inserts behind rest
      · obtain ⟨start, extent⟩ := OffsetEdit.rewritesAt_iff.mp rewrites
        obtain ⟨-, -, reached⟩ := separate.ends edit (by simp)
        obtain ⟨width, stop⟩ : ∃ width : Nat, edit.stop = ((place + (width + 1) : Nat) : Int) :=
          ⟨(edit.stop - place - 1).toNat, by omega⟩
        obtain ⟨further, counted⟩ : ∃ further, count + 1 = width + 1 + further :=
          ⟨count - width, by omega⟩
        have behindStop : ∀ next ∈ later, ((place + (width + 1) : Nat) : Int) ≤ next.start := by
          intro next member
          rw [← stop]
          exact (List.pairwise_append.mp (List.pairwise_append.mp separate.apart).2.1).2.2
            edit List.mem_cons_self next member
        rw [counted] at rest ⊢
        rw [← List.append_assoc insertions]
        exact applyEdits_rewriting inserts start stop behindStop (by omega) rest

end BackToFront

end CodeProse
