import CodeProse.Sequence
import Mathlib.Data.List.Forall2
import Mathlib.Data.List.Sort

/-!
# Laws of sequences

Cutting, stable ordering, grouping by key, cutting into chunks and alignment, as the rest of the
theory uses them.
-/

set_option autoImplicit false

namespace CodeProse

section Cutting

variable {α : Type}

@[simp] theorem boundary_natCast (length bound : Nat) :
    boundary length (bound : Int) = min bound length := by
  have nonneg : ¬ (bound : Int) < 0 := Int.not_lt.mpr (Int.natCast_nonneg bound)
  rw [boundary, if_neg nonneg, Int.toNat_natCast]

@[simp] theorem upTo_natCast (items : List α) (bound : Nat) :
    upTo items (bound : Int) = items.take bound := by
  simp [upTo, List.take_eq_take_iff]

@[simp] theorem since_natCast (items : List α) (bound : Nat) :
    since items (bound : Int) = items.drop bound := by
  rw [since, boundary_natCast]
  rcases Nat.le_total bound items.length with inside | beyond
  · rw [Nat.min_eq_left inside]
  · rw [Nat.min_eq_right beyond, List.drop_of_length_le beyond, List.drop_length]

theorem length_slice (items : List α) (start stop : Nat) (within : stop ≤ items.length) :
    (slice items start stop).length = stop - start := by
  simp [slice, Nat.min_eq_left within]

theorem take_append_slice (items : List α) {start stop : Nat} (ordered : start ≤ stop) :
    items.take start ++ slice items start stop = items.take stop := by
  have front : (items.take stop).take start = items.take start := by
    rw [List.take_take, Nat.min_eq_left ordered]
  rw [slice, ← front, List.take_append_drop]

theorem slice_append_drop (items : List α) {start stop : Nat} (ordered : start ≤ stop) :
    slice items start stop ++ items.drop stop = items.drop start := by
  have whole : items.take start ++ (slice items start stop ++ items.drop stop) =
      items.take start ++ items.drop start := by
    rw [← List.append_assoc, take_append_slice items ordered, List.take_append_drop,
      List.take_append_drop]
  exact List.append_cancel_left whole

theorem slice_eq_drop_iff {items : List α} {start stop : Nat} :
    slice items start stop = items.drop start ↔ items.length ≤ stop ∨ items.length ≤ start := by
  constructor
  · intro same
    have lengths := congrArg List.length same
    rw [slice, List.length_drop, List.length_drop, List.length_take] at lengths
    omega
  · rintro (whole | behind)
    · rw [slice, List.take_of_length_le whole]
    · rw [slice, List.drop_of_length_le behind, List.drop_of_length_le]
      exact Nat.le_trans (List.length_take_le' stop items) behind

theorem slice_eq_take_drop (items : List α) (start stop : Nat) :
    slice items start stop = (items.drop start).take (stop - start) := by
  rw [slice, List.drop_take]

theorem getD_of_drop_eq_cons {items rest : List α} {item : α} {offset : Nat}
    (behind : items.drop offset = item :: rest) (fallback : α) :
    offset < items.length ∧ items.getD offset fallback = item ∧ items.drop (offset + 1) = rest := by
  have known : offset < items.length := by
    have some := congrArg List.length behind
    rw [List.length_drop, List.length_cons] at some
    omega
  obtain ⟨here, next⟩ := List.cons.inj ((List.drop_eq_getElem_cons known).symm.trans behind)
  refine ⟨known, ?_, next⟩
  simp [List.getD_eq_getElem?_getD, known, here]

theorem slice_eq_cons {items : List α} {start stop : Nat} {fallback : α} (before : start < stop)
    (known : start < items.length) :
    slice items start stop = items.getD start fallback :: slice items (start + 1) stop := by
  have item : items.getD start fallback = items[start] := by
    simp [List.getD_eq_getElem?_getD, known]
  have inside : start < (items.take stop).length := by
    rw [List.length_take]
    omega
  rw [slice, List.drop_eq_getElem_cons inside, List.getElem_take, item, slice]

theorem slice_concat {items : List α} {start stop : Nat} {fallback : α} (ordered : start ≤ stop)
    (known : stop < items.length) :
    slice items start stop ++ [items.getD stop fallback] = slice items start (stop + 1) := by
  have reached : (items.take stop).length = stop := by
    rw [List.length_take, Nat.min_eq_left (Nat.le_of_lt known)]
  have item : items.getD stop fallback = items[stop] := by
    simp [List.getD_eq_getElem?_getD, known]
  rw [item, slice, slice, List.take_succ_eq_append_getElem known,
    List.drop_append_of_le_length (by omega)]

@[simp] theorem getD_concat_length (items : List α) (item fallback : α) :
    (items ++ [item]).getD items.length fallback = item := by
  simp [List.getD_eq_getElem?_getD]

@[simp] theorem slice_self (items : List α) (place : Nat) : slice items place place = [] := by
  simp [slice]

theorem flatMap_getElem?_range' (items : List α) (start count : Nat) :
    (List.range' start count).flatMap (fun place => items[place]?.toList) =
      slice items start (start + count) := by
  induction count generalizing start with
  | zero => simp
  | succ count ih =>
      rw [List.range'_succ, List.flatMap_cons, ih, slice_eq_take_drop, slice_eq_take_drop]
      have shorter : start + 1 + count - (start + 1) = count := by omega
      have longer : start + (count + 1) - start = count + 1 := by omega
      rw [shorter, longer]
      cases found : items[start]? with
      | none =>
          have beyond : items.length ≤ start := List.getElem?_eq_none_iff.mp found
          simp [List.drop_of_length_le beyond, List.drop_of_length_le (Nat.le_succ_of_le beyond)]
      | some item =>
          obtain ⟨known, here⟩ := List.getElem?_eq_some_iff.mp found
          rw [List.drop_eq_getElem_cons known, here, List.take_succ_cons]
          rfl

theorem flatMap_range'_eq_slice {items : List α} {pieces : Nat → List α} {start count : Nat}
    (here : ∀ place, start ≤ place → place < start + count → pieces place = items[place]?.toList) :
    (List.range' start count).flatMap pieces = slice items start (start + count) := by
  rw [← flatMap_getElem?_range']
  refine List.flatMap_congr fun place member => ?_
  obtain ⟨reached, within⟩ := List.mem_range'_1.mp member
  exact here place reached within

end Cutting

section Joining

variable {α β : Type}

theorem length_flatMap_le {items : List α} {first second : α → List β}
    (grows : ∀ item ∈ items, (first item).length ≤ (second item).length) :
    (items.flatMap first).length ≤ (items.flatMap second).length := by
  induction items with
  | nil => exact Nat.le_refl 0
  | cons item rest ih =>
      have here := grows item List.mem_cons_self
      have later := ih fun next member => grows next (List.mem_cons_of_mem item member)
      simp only [List.flatMap_cons, List.length_append]
      omega

/-- Pieces of which at most the last one holds anything read the same in reverse order. -/
theorem flatten_reverse_of_pairwise {pieces : List (List α)}
    (empty : pieces.Pairwise fun left _ => left = []) : pieces.reverse.flatten = pieces.flatten := by
  induction pieces with
  | nil => rfl
  | cons piece rest ih =>
      obtain ⟨first, further⟩ := List.pairwise_cons.mp empty
      rw [List.reverse_cons, List.flatten_append, ih further, List.flatten_singleton,
        List.flatten_cons]
      cases rest with
      | nil => simp
      | cons next others => simp [first next List.mem_cons_self]

/-- Joined pieces agree only if they agree piece by piece, where none of them shrinks. -/
theorem forall_eq_of_flatMap_eq {items : List α} {first second : α → List β}
    (grows : ∀ item ∈ items, (first item).length ≤ (second item).length)
    (same : items.flatMap first = items.flatMap second) :
    ∀ item ∈ items, first item = second item := by
  induction items with
  | nil => exact fun item member => nomatch member
  | cons item rest ih =>
      have later : ∀ next ∈ rest, (first next).length ≤ (second next).length :=
        fun next member => grows next (List.mem_cons_of_mem item member)
      have here := grows item List.mem_cons_self
      have behind := length_flatMap_le later
      have whole := congrArg List.length same
      simp only [List.flatMap_cons, List.length_append] at whole
      -- Nothing shrinks and the whole does not grow, so the first pieces have one length.
      obtain ⟨head, tail⟩ := List.append_inj same (by omega)
      exact List.forall_mem_cons.mpr ⟨head, ih later tail⟩

end Joining

section Adding

@[simp] theorem total_nil : total [] = 0 := rfl

@[simp] theorem total_cons (number : Nat) (numbers : List Nat) :
    total (number :: numbers) = number + total numbers := rfl

theorem total_perm {left right : List Nat} (same : left.Perm right) : total left = total right :=
  same.sum_nat

variable {α β : Type}

theorem total_map_add (first second : α → Nat) (items : List α) :
    total (items.map fun item => first item + second item) =
      total (items.map first) + total (items.map second) := by
  induction items with
  | nil => rfl
  | cons item rest ih =>
      simp only [List.map_cons, total_cons, ih]
      omega

theorem total_map_mul (factor : Nat) (number : α → Nat) (items : List α) :
    total (items.map fun item => factor * number item) = factor * total (items.map number) := by
  induction items with
  | nil => rfl
  | cons item rest ih => rw [List.map_cons, total_cons, ih, List.map_cons, total_cons, Nat.mul_add]

/-- A table is added up by its rows or by its columns. -/
theorem total_map_total_map (number : α → β → Nat) (rows : List α) (columns : List β) :
    total (rows.map fun row => total (columns.map (number row))) =
      total (columns.map fun column => total (rows.map fun row => number row column)) := by
  induction rows with
  | nil =>
      have none := total_map_mul 0 (fun _ => 0) columns
      show 0 = total (columns.map fun _ => 0)
      simpa only [Nat.zero_mul] using none.symm
  | cons row rest ih => simp only [List.map_cons, total_cons, total_map_add, ih]

end Adding

section Ordering

variable {α : Type}

theorem insertInOrder_eq_orderedInsert (before : α → α → Bool) (item : α) (items : List α) :
    insertInOrder before item items = items.orderedInsert (before · · = true) item := by
  induction items with
  | nil => rfl
  | cons other rest ih => simp only [insertInOrder, List.orderedInsert_cons, ih]

theorem stableSort_eq_insertionSort (before : α → α → Bool) (items : List α) :
    stableSort before items = items.insertionSort (before · · = true) := by
  induction items with
  | nil => rfl
  | cons item rest ih =>
      rw [List.insertionSort_cons, ← ih, ← insertInOrder_eq_orderedInsert]
      rfl

theorem stableSort_perm (before : α → α → Bool) (items : List α) :
    (stableSort before items).Perm items := by
  rw [stableSort_eq_insertionSort]
  exact List.perm_insertionSort _ items

@[simp] theorem mem_stableSort {before : α → α → Bool} {items : List α} {item : α} :
    item ∈ stableSort before items ↔ item ∈ items :=
  (stableSort_perm before items).mem_iff

theorem stableSort_of_pairwise {before : α → α → Bool} {items : List α}
    (ordered : items.Pairwise (before · · = true)) : stableSort before items = items := by
  rw [stableSort_eq_insertionSort]
  exact ordered.insertionSort_eq

theorem insertInOrder_congr {before other : α → α → Bool} {item : α} {items : List α}
    (same : ∀ next ∈ items, before item next = other item next) :
    insertInOrder before item items = insertInOrder other item items := by
  induction items with
  | nil => rfl
  | cons next rest ih =>
      obtain ⟨here, later⟩ := List.forall_mem_cons.mp same
      rw [insertInOrder, insertInOrder, here, ih later]

/-- Relations that agree about each item and those behind it order a list alike. -/
theorem stableSort_congr {before other : α → α → Bool} {items : List α}
    (same : items.Pairwise fun left right => before left right = other left right) :
    stableSort before items = stableSort other items := by
  induction items with
  | nil => rfl
  | cons item rest ih =>
      obtain ⟨first, further⟩ := List.pairwise_cons.mp same
      have step : ∀ relation : α → α → Bool, stableSort relation (item :: rest) =
          insertInOrder relation item (stableSort relation rest) := fun _ => rfl
      rw [step, step, ← ih further]
      exact insertInOrder_congr fun next member => first next (mem_stableSort.mp member)

theorem insertInOrder_of_forall_not {before : α → α → Bool} {item : α} {items : List α}
    (behind : ∀ other ∈ items, before item other = false) :
    insertInOrder before item items = items ++ [item] := by
  induction items with
  | nil => rfl
  | cons other rest ih =>
      have later := ih fun next member => behind next (List.mem_cons_of_mem other member)
      simp [insertInOrder, behind other List.mem_cons_self, later]

/-- A list none of whose items may stand before a later one is turned round. -/
theorem stableSort_eq_reverse {before : α → α → Bool} {items : List α}
    (opposed : items.Pairwise (before · · = false)) : stableSort before items = items.reverse := by
  induction items with
  | nil => rfl
  | cons item rest ih =>
      obtain ⟨first, further⟩ := List.pairwise_cons.mp opposed
      have behind : ∀ other ∈ rest.reverse, before item other = false :=
        fun other member => first other (List.mem_reverse.mp member)
      have step : stableSort before (item :: rest) =
          insertInOrder before item (stableSort before rest) := rfl
      rw [step, ih further, insertInOrder_of_forall_not behind, List.reverse_cons]

/-- Items behind none of which those in front may stand are ordered among themselves. -/
theorem stableSort_append {before : α → α → Bool} {front back : List α}
    (ordered : front.Pairwise (before · · = true))
    (behind : ∀ item ∈ front, ∀ other ∈ back, before item other = false) :
    stableSort before (front ++ back) = stableSort before back ++ front := by
  induction front with
  | nil => simp
  | cons item front ih =>
      obtain ⟨first, further⟩ := List.pairwise_cons.mp ordered
      have later := ih further fun next member => behind next (List.mem_cons_of_mem item member)
      have step : stableSort before (item :: front ++ back) =
          insertInOrder before item (stableSort before (front ++ back)) := rfl
      have passes : ∀ passed : List α, (∀ other ∈ passed, before item other = false) →
          insertInOrder before item (passed ++ front) = passed ++ item :: front := by
        intro passed none
        induction passed with
        | nil =>
            cases front with
            | nil => rfl
            | cons next front => simp [insertInOrder, first next List.mem_cons_self]
        | cons other passed ihPassed =>
            have rest := ihPassed fun next member => none next (List.mem_cons_of_mem other member)
            simp [insertInOrder, none other List.mem_cons_self, rest]
      rw [step, later]
      exact passes _ fun other member =>
        behind item List.mem_cons_self other (mem_stableSort.mp member)

/-- Putting an item into a list keeps a relation of the items to those behind them that holds
between the item and all others, and between those it must not stand before and the item. -/
theorem pairwise_insertInOrder_of_passed {before : α → α → Bool} {related : α → α → Prop}
    {item : α} {items : List α} (front : ∀ other ∈ items, related item other)
    (passed : ∀ other ∈ items, before item other = false → related other item)
    (ordered : items.Pairwise related) : (insertInOrder before item items).Pairwise related := by
  induction items with
  | nil => exact List.pairwise_singleton related item
  | cons other rest ih =>
      obtain ⟨first, further⟩ := List.pairwise_cons.mp ordered
      obtain ⟨-, frontRest⟩ := List.forall_mem_cons.mp front
      obtain ⟨passedHere, passedRest⟩ := List.forall_mem_cons.mp passed
      unfold insertInOrder
      split
      · exact List.pairwise_cons.mpr ⟨front, ordered⟩
      · next there =>
          refine List.pairwise_cons.mpr ⟨fun later member => ?_, ih frontRest passedRest further⟩
          rw [insertInOrder_eq_orderedInsert, List.mem_orderedInsert] at member
          rcases member with rfl | behind
          · exact passedHere (eq_false_of_ne_true there)
          · exact first later behind

/-- Ordering moves an item before another one only where the other may not stand before it. -/
theorem pairwise_sublist_stableSort (before : α → α → Bool) (items : List α) :
    (stableSort before items).Pairwise fun left right =>
      before right left = true → [left, right].Sublist items := by
  induction items with
  | nil => exact List.Pairwise.nil
  | cons item rest ih =>
      show (insertInOrder before item (stableSort before rest)).Pairwise _
      refine pairwise_insertInOrder_of_passed ?_ ?_ ?_
      · intro other member _
        exact (List.singleton_sublist.mpr (mem_stableSort.mp member)).cons_cons item
      · intro other _ later earlier
        rw [later] at earlier
        cases earlier
      · exact ih.imp fun kept earlier => (kept earlier).cons item

section Transitive

variable {before : α → α → Bool}
  (trans : ∀ left middle right, before left middle = true → before middle right = true →
    before left right = true)
include trans

theorem pairwise_insertInOrder {item : α} {items : List α}
    (total : ∀ other ∈ items, before item other = true ∨ before other item = true)
    (ordered : items.Pairwise (before · · = true)) :
    (insertInOrder before item items).Pairwise (before · · = true) := by
  induction items with
  | nil => exact List.pairwise_singleton _ item
  | cons other rest ih =>
      obtain ⟨first, further⟩ := List.pairwise_cons.mp ordered
      unfold insertInOrder
      split
      · next here =>
          refine List.pairwise_cons.mpr ⟨?_, ordered⟩
          intro later member
          rcases List.mem_cons.mp member with rfl | behind
          · exact here
          · exact trans item other later here (first later behind)
      · next there =>
          have after : before other item = true :=
            (total other List.mem_cons_self).resolve_left there
          have inserted := ih (fun later member => total later (List.mem_cons_of_mem _ member)) further
          refine List.pairwise_cons.mpr ⟨?_, inserted⟩
          intro later member
          rw [insertInOrder_eq_orderedInsert, List.mem_orderedInsert] at member
          rcases member with rfl | behind
          · exact after
          · exact first later behind

/-- Ordering by a transitive relation that is total on the items leaves every item before those
behind it. -/
theorem pairwise_stableSort {items : List α}
    (total : ∀ left ∈ items, ∀ right ∈ items, before left right = true ∨ before right left = true) :
    (stableSort before items).Pairwise (before · · = true) := by
  induction items with
  | nil => exact List.Pairwise.nil
  | cons item rest ih =>
      refine pairwise_insertInOrder trans ?_ (ih ?_)
      · intro other member
        exact total item List.mem_cons_self other (List.mem_cons_of_mem _ (mem_stableSort.mp member))
      · intro left leftMember right rightMember
        exact total left (List.mem_cons_of_mem _ leftMember) right (List.mem_cons_of_mem _ rightMember)

theorem stableSort_eq_of_pairwise {items ordered : List α} (same : items.Perm ordered)
    (total : ∀ left ∈ items, ∀ right ∈ items, before left right = true ∨ before right left = true)
    (antisymm : ∀ left ∈ items, ∀ right ∈ items, before left right = true →
      before right left = true → left = right)
    (sorted : ordered.Pairwise (before · · = true)) : stableSort before items = ordered := by
  have permuted : (stableSort before items).Perm ordered := (stableSort_perm before items).trans same
  refine permuted.eq_of_pairwise ?_ (pairwise_stableSort trans total) sorted
  intro left right leftMember rightMember
  exact antisymm left (mem_stableSort.mp leftMember) right (same.mem_iff.mpr rightMember)

theorem stableSort_eq_of_perm {items other : List α} (same : items.Perm other)
    (total : ∀ left ∈ items, ∀ right ∈ items, before left right = true ∨ before right left = true)
    (antisymm : ∀ left ∈ items, ∀ right ∈ items, before left right = true →
      before right left = true → left = right) :
    stableSort before items = stableSort before other := by
  apply stableSort_eq_of_pairwise trans (same.trans (stableSort_perm before other).symm) total antisymm
  apply pairwise_stableSort trans
  intro left leftMember right rightMember
  exact total left (same.mem_iff.mpr leftMember) right (same.mem_iff.mpr rightMember)

theorem filter_insertInOrder (keep : α → Bool) (item : α) {items : List α}
    (ordered : items.Pairwise (before · · = true)) :
    (insertInOrder before item items).filter keep =
      if keep item then insertInOrder before item (items.filter keep) else items.filter keep := by
  induction items with
  | nil => cases kept : keep item <;> simp [insertInOrder, kept]
  | cons other rest ih =>
      obtain ⟨first, further⟩ := List.pairwise_cons.mp ordered
      by_cases here : before item other = true
      · have front : ∀ kept : List α, kept.Sublist (other :: rest) →
            insertInOrder before item kept = item :: kept := by
          intro kept within
          cases kept with
          | nil => rfl
          | cons next _ =>
              have reached : before item next = true := by
                rcases List.mem_cons.mp (within.subset List.mem_cons_self) with rfl | behind
                · exact here
                · exact trans item other next here (first next behind)
              rw [insertInOrder, if_pos reached]
        rw [front _ (List.Sublist.refl _), front _ List.filter_sublist, List.filter_cons]
      · rw [insertInOrder, if_neg here, List.filter_cons, List.filter_cons, ih further]
        cases keep item <;> cases keep other <;> simp [insertInOrder, here]

theorem filter_stableSort (keep : α → Bool) {items : List α}
    (total : ∀ left ∈ items, ∀ right ∈ items, before left right = true ∨ before right left = true) :
    (stableSort before items).filter keep = stableSort before (items.filter keep) := by
  induction items with
  | nil => rfl
  | cons item rest ih =>
      have totalRest : ∀ left ∈ rest, ∀ right ∈ rest,
          before left right = true ∨ before right left = true := by
        intro left leftMember right rightMember
        exact total left (List.mem_cons_of_mem _ leftMember) right (List.mem_cons_of_mem _ rightMember)
      show (insertInOrder before item (stableSort before rest)).filter keep = _
      rw [filter_insertInOrder trans keep item (pairwise_stableSort trans totalRest), ih totalRest,
        List.filter_cons]
      cases keep item <;> rfl

end Transitive

theorem map_stableSort {β : Type} (before : β → β → Bool) (key : α → β) (items : List α) :
    (stableSort (fun left right => before (key left) (key right)) items).map key =
      stableSort before (items.map key) := by
  have insertion : ∀ (item : α) (sorted : List α),
      (insertInOrder (fun left right => before (key left) (key right)) item sorted).map key =
        insertInOrder before (key item) (sorted.map key) := by
    intro item sorted
    induction sorted with
    | nil => rfl
    | cons other rest ih =>
        simp only [insertInOrder, List.map_cons]
        split
        · rfl
        · rw [List.map_cons, ih]
  induction items with
  | nil => rfl
  | cons item rest ih =>
      show (insertInOrder _ item (stableSort _ rest)).map key = _
      rw [insertion, ih]
      rfl

end Ordering

section Grouping

variable {α κ : Type} [BEq κ]

theorem firstOfEach_subset (key : α → κ) (items : List α) (seen : List κ) :
    firstOfEach key items seen ⊆ items := by
  induction items generalizing seen with
  | nil => exact fun _ member => member
  | cons item rest ih =>
      unfold firstOfEach
      split
      · exact fun _ member => List.mem_cons_of_mem item (ih seen member)
      · exact List.cons_subset_cons item (ih _)

variable [LawfulBEq κ]

theorem not_mem_seen_of_mem_firstOfEach (key : α → κ) {items : List α} {seen : List κ} {item : α}
    (member : item ∈ firstOfEach key items seen) : key item ∉ seen := by
  induction items generalizing seen with
  | nil => cases member
  | cons other rest ih =>
      unfold firstOfEach at member
      split at member
      · exact ih member
      · next fresh =>
          rcases List.mem_cons.mp member with rfl | later
          · simpa using fresh
          · exact fun present => ih later (List.mem_cons_of_mem _ present)

theorem nodup_keys_firstOfEach (key : α → κ) (items : List α) (seen : List κ) :
    ((firstOfEach key items seen).map key).Nodup := by
  induction items generalizing seen with
  | nil => exact List.nodup_nil
  | cons item rest ih =>
      unfold firstOfEach
      split
      · exact ih seen
      · refine List.nodup_cons.mpr ⟨?_, ih _⟩
        intro present
        obtain ⟨other, member, same⟩ := List.mem_map.mp present
        exact not_mem_seen_of_mem_firstOfEach key member (same ▸ List.mem_cons_self)

theorem exists_mem_firstOfEach (key : α → κ) {items : List α} {seen : List κ} {item : α}
    (member : item ∈ items) (fresh : key item ∉ seen) :
    ∃ kept ∈ firstOfEach key items seen, key kept = key item := by
  induction items generalizing seen with
  | nil => cases member
  | cons other rest ih =>
      unfold firstOfEach
      split
      · next known =>
          rcases List.mem_cons.mp member with rfl | later
          · exact absurd (by simpa using known) fresh
          · exact ih later fresh
      · by_cases same : key other = key item
        · exact ⟨other, List.mem_cons_self, same⟩
        · rcases List.mem_cons.mp member with rfl | later
          · exact absurd rfl same
          · have unseen : key item ∉ key other :: seen := by
              simpa [Ne.symm same] using fresh
            obtain ⟨kept, keptMember, keptKey⟩ := ih later unseen
            exact ⟨kept, List.mem_cons_of_mem _ keptMember, keptKey⟩

theorem map_firstOfEach (key : α → κ) (items : List α) (seen : List κ) :
    (firstOfEach key items seen).map key =
      ((items.map key).filter fun own => !seen.contains own).eraseDups := by
  induction items generalizing seen with
  | nil => rfl
  | cons item rest ih =>
      unfold firstOfEach
      split
      · next known => rw [ih, List.map_cons, List.filter_cons_of_neg (by simpa using known)]
      · next fresh =>
          rw [List.map_cons, ih, List.map_cons, List.filter_cons_of_pos (by simpa using fresh),
            List.eraseDups_cons, List.filter_filter]
          congr 3
          funext own
          simp [Bool.not_or]

theorem map_firstOfEach_nil (key : α → κ) (items : List α) :
    (firstOfEach key items []).map key = (items.map key).eraseDups := by
  rw [map_firstOfEach]
  exact congrArg List.eraseDups (List.filter_eq_self.mpr fun _ _ => rfl)

end Grouping

section Chunks

variable {α : Type}

private theorem flatten_chunksWithin {size : Nat} (positive : 0 < size) (limit : Nat)
    (items : List α) (enough : items.length ≤ limit) :
    (chunks.chunksWithin size limit items).flatten = items := by
  induction limit generalizing items with
  | zero =>
      have empty : items = [] := List.eq_nil_of_length_eq_zero (Nat.le_zero.mp enough)
      rw [empty]
      rfl
  | succ limit ih =>
      unfold chunks.chunksWithin
      cases items with
      | nil => rfl
      | cons item rest =>
          have shorter : ((item :: rest).drop size).length ≤ limit := by
            rw [List.length_drop]
            simp only [List.length_cons] at enough ⊢
            omega
          simp [ih _ shorter]

theorem flatten_chunks {size : Nat} (positive : 0 < size) (items : List α) :
    (chunks size items).flatten = items :=
  flatten_chunksWithin positive items.length items (Nat.le_refl _)

private theorem flatten_chunksWithin_zero (limit : Nat) (items : List α) :
    (chunks.chunksWithin 0 limit items).flatten = [] := by
  induction limit with
  | zero => rfl
  | succ limit ih =>
      unfold chunks.chunksWithin
      cases items with
      | nil => rfl
      | cons item rest => simpa using ih

private theorem mem_of_mem_chunksWithin {size limit : Nat} {items chunk : List α}
    (known : chunk ∈ chunks.chunksWithin size limit items) {item : α} (member : item ∈ chunk) :
    item ∈ items := by
  induction limit generalizing items with
  | zero => cases known
  | succ limit ih =>
      unfold chunks.chunksWithin at known
      split at known
      · cases known
      · rcases List.mem_cons.mp known with rfl | later
        · exact List.mem_of_mem_take member
        · exact List.mem_of_mem_drop (ih later)

theorem mem_of_mem_chunks {size : Nat} {items chunk : List α} (known : chunk ∈ chunks size items)
    {item : α} (member : item ∈ chunk) : item ∈ items :=
  mem_of_mem_chunksWithin known member

private theorem dvd_length_flatten_of_chunksWithin {size limit : Nat} {items : List α}
    {front back : List (List α)} (shape : chunks.chunksWithin size limit items = front ++ back)
    (more : back ≠ []) : size ∣ front.flatten.length := by
  induction front generalizing limit items with
  | nil => exact Nat.dvd_zero size
  | cons chunk front ih =>
      cases limit with
      | zero => cases shape
      | succ limit =>
          unfold chunks.chunksWithin at shape
          split at shape
          · cases shape
          · obtain ⟨rfl, further⟩ := List.cons.inj shape
            -- A chunk with another one behind it is full.
            have full : size ≤ items.length := by
              refine Nat.le_of_not_lt fun short => ?_
              rw [List.drop_eq_nil_of_le (Nat.le_of_lt short)] at further
              have none : chunks.chunksWithin size limit ([] : List α) = [] := by
                cases limit <;> rfl
              rw [none] at further
              exact more (List.append_eq_nil_iff.mp further.symm).2
            rw [List.flatten_cons, List.length_append, List.length_take_of_le full]
            exact Nat.dvd_add (Nat.dvd_refl size) (ih further)

/-- Chunks with others behind them are full. -/
theorem dvd_length_flatten_of_chunks {size : Nat} {items : List α} {front back : List (List α)}
    (shape : chunks size items = front ++ back) (more : back ≠ []) :
    size ∣ front.flatten.length :=
  dvd_length_flatten_of_chunksWithin shape more

theorem chunks_singleton {size : Nat} (positive : 0 < size) (item : α) :
    chunks size [item] = [[item]] := by
  have whole : [item].take size = [item] := List.take_of_length_le positive
  simp [chunks, chunks.chunksWithin, whole]

theorem flatten_chunks_zero (items : List α) : (chunks 0 items).flatten = [] :=
  flatten_chunksWithin_zero items.length items

end Chunks

section Alignment

variable {α β : Type} {aligned : α → β → Prop} {lefts : List α} {rights : List β}

theorem exists_aligned_of_mem_left (both : List.Forall₂ aligned lefts rights) {left : α}
    (member : left ∈ lefts) : ∃ right ∈ rights, aligned left right := by
  induction both with
  | nil => cases member
  | cons here _ ih =>
      rcases List.mem_cons.mp member with rfl | later
      · exact ⟨_, List.mem_cons_self, here⟩
      · obtain ⟨right, known, facts⟩ := ih later
        exact ⟨right, List.mem_cons_of_mem _ known, facts⟩

theorem exists_aligned_of_mem_right (both : List.Forall₂ aligned lefts rights) {right : β}
    (member : right ∈ rights) : ∃ left ∈ lefts, aligned left right := by
  obtain ⟨left, known, facts⟩ := exists_aligned_of_mem_left both.flip member
  exact ⟨left, known, facts⟩

theorem exists_forall₂ (each : ∀ left ∈ lefts, ∃ right, aligned left right) :
    ∃ rights, List.Forall₂ aligned lefts rights := by
  induction lefts with
  | nil => exact ⟨[], .nil⟩
  | cons left rest ih =>
      obtain ⟨here, others⟩ := List.forall_mem_cons.mp each
      obtain ⟨right, first⟩ := here
      obtain ⟨rights, later⟩ := ih others
      exact ⟨right :: rights, .cons first later⟩

theorem forall₂_compose {γ : Type} {further : β → γ → Prop} {whole : α → γ → Prop}
    {ends : List γ} (through : ∀ left right final, aligned left right → further right final →
      whole left final)
    (both : List.Forall₂ aligned lefts rights) (beyond : List.Forall₂ further rights ends) :
    List.Forall₂ whole lefts ends := by
  induction both generalizing ends with
  | nil =>
      cases beyond
      exact .nil
  | cons here _ ih =>
      cases beyond with
      | cons next later => exact .cons (through _ _ _ here next) (ih later)

theorem map_eq_map_of_forall₂ {γ : Type} (key : α → γ) (mark : β → γ)
    (same : ∀ left right, aligned left right → key left = mark right)
    (both : List.Forall₂ aligned lefts rights) : lefts.map key = rights.map mark := by
  induction both with
  | nil => rfl
  | cons here _ ih => rw [List.map_cons, List.map_cons, same _ _ here, ih]

/-- Results for some of the items, in their order, and for all of them where nothing is missing. -/
def PartlyAligned (aligned : α → β → Prop) (complete : Prop) (lefts : List α) (rights : List β) :
    Prop :=
  ∃ some, some.Sublist lefts ∧ (complete → some = lefts) ∧ List.Forall₂ aligned some rights

namespace PartlyAligned

variable {complete : Prop}

theorem forall₂ (partly : PartlyAligned aligned complete lefts rights) (known : complete) :
    List.Forall₂ aligned lefts rights := by
  obtain ⟨some, -, all, both⟩ := partly
  exact all known ▸ both

theorem mono {weaker : Prop} (implied : weaker → complete)
    (partly : PartlyAligned aligned complete lefts rights) :
    PartlyAligned aligned weaker lefts rights := by
  obtain ⟨some, fewer, all, both⟩ := partly
  exact ⟨some, fewer, fun known => all (implied known), both⟩

theorem nil : PartlyAligned aligned complete [] [] :=
  ⟨[], .refl [], fun _ => rfl, .nil⟩

theorem cons {left : α} {right : β} (here : aligned left right)
    (partly : PartlyAligned aligned complete lefts rights) :
    PartlyAligned aligned complete (left :: lefts) (right :: rights) := by
  obtain ⟨some, fewer, all, both⟩ := partly
  exact ⟨left :: some, fewer.cons_cons left, fun known => congrArg (left :: ·) (all known),
    .cons here both⟩

theorem append {moreLefts : List α} {moreRights : List β}
    (first : PartlyAligned aligned complete lefts rights)
    (second : PartlyAligned aligned complete moreLefts moreRights) :
    PartlyAligned aligned complete (lefts ++ moreLefts) (rights ++ moreRights) := by
  obtain ⟨some, fewer, all, both⟩ := first
  obtain ⟨others, fewerOthers, allOthers, bothOthers⟩ := second
  exact ⟨some ++ others, fewer.append fewerOthers,
    fun known => by rw [all known, allOthers known], List.rel_append both bothOthers⟩

/-- Items that stand for others bring those with them. -/
theorem compose_left {γ : Type} {before : γ → α → Prop} {whole : γ → β → Prop} {starts : List γ}
    (through : ∀ start left right, before start left → aligned left right → whole start right)
    (front : List.Forall₂ before starts lefts)
    (partly : PartlyAligned aligned complete lefts rights) :
    PartlyAligned whole complete starts rights := by
  obtain ⟨some, fewer, all, both⟩ := partly
  obtain ⟨kept, fewerKept, bothKept⟩ : ∃ kept, kept.Sublist starts ∧
      List.Forall₂ before kept some := by
    clear all both
    induction fewer generalizing starts with
    | slnil =>
        cases front
        exact ⟨[], .refl [], .nil⟩
    | cons left fewer ih =>
        cases front with
        | cons here later =>
            obtain ⟨kept, fewerKept, bothKept⟩ := ih later
            exact ⟨kept, fewerKept.cons _, bothKept⟩
    | cons_cons left fewer ih =>
        cases front with
        | cons here later =>
            obtain ⟨kept, fewerKept, bothKept⟩ := ih later
            exact ⟨_ :: kept, fewerKept.cons_cons _, .cons here bothKept⟩
  refine ⟨kept, fewerKept, fun known => fewerKept.eq_of_length ?_,
    forall₂_compose through bothKept both⟩
  rw [bothKept.length_eq, all known, front.length_eq]

/-- What numbers select for the items of a list with those numbers. -/
theorem filterMap_range {select : Nat → Option β} (items : List α)
    (sound : ∀ index (known : index < items.length) found, select index = some found →
      aligned items[index] found)
    (all : complete → ∀ index < items.length, (select index).isSome = true) :
    PartlyAligned aligned complete items ((List.range items.length).filterMap select) := by
  induction items generalizing select with
  | nil => exact nil
  | cons item rest ih =>
      have later : PartlyAligned aligned complete rest
          ((List.range rest.length).filterMap fun index => select (index + 1)) :=
        ih (fun index known => sound (index + 1) (Nat.succ_lt_succ known))
          fun known index inRange => all known (index + 1) (Nat.succ_lt_succ inRange)
      rw [List.length_cons, List.range_succ_eq_map, List.filterMap_cons, List.filterMap_map]
      cases first : select 0 with
      | some found => exact later.cons (sound 0 (Nat.succ_pos _) found first)
      | none =>
          obtain ⟨some, fewer, -, both⟩ := later
          refine ⟨some, fewer.cons item, fun known => ?_, both⟩
          have selected := all known 0 (Nat.succ_pos _)
          rw [first] at selected
          cases selected

end PartlyAligned

/-- The items that are chosen, and what they select, where nothing is selected for the others. -/
theorem forall₂_filter_filterMap {chosen : α → Bool} {select : α → Option β} (items : List α)
    (selected : ∀ item, chosen item = true → ∃ found, select item = some found ∧ aligned item found)
    (others : ∀ item, chosen item = false → select item = none) :
    List.Forall₂ aligned (items.filter chosen) (items.filterMap select) := by
  induction items with
  | nil => exact .nil
  | cons item rest ih =>
      cases choice : chosen item with
      | true =>
          obtain ⟨found, here, facts⟩ := selected item choice
          rw [List.filter_cons_of_pos choice, List.filterMap_cons_some here]
          exact .cons facts ih
      | false =>
          rw [List.filter_cons_of_neg (by simp [choice]),
            List.filterMap_cons_none (others item choice)]
          exact ih

theorem filter_filterMap_eq {chosen : α → Bool} {select : α → Option β} {keep : β → Bool}
    {items : List α} (same : ∀ item ∈ items, ∀ found, select item = some found →
      keep found = chosen item) :
    (items.filterMap select).filter keep = (items.filter chosen).filterMap select := by
  rw [List.filter_filterMap, List.filterMap_filter]
  refine List.filterMap_congr fun item member => ?_
  cases here : select item with
  | none => simp
  | some found =>
      rw [Option.filter_some, same item member found here]

end Alignment

section Picking

variable {α β : Type} {means : α → β → Prop} {items : List α}

/-- The values of those items of a list that have one, in the order of the items. -/
inductive Picks (means : α → β → Prop) : List α → List β → Prop where
  | nil : Picks means [] []
  | keep {item : α} {value : β} {items : List α} {values : List β} (meant : means item value)
      (rest : Picks means items values) : Picks means (item :: items) (value :: values)
  | skip {item : α} {items : List α} {values : List β} (useless : ∀ value, ¬ means item value)
      (rest : Picks means items values) : Picks means (item :: items) values

theorem Picks.unique {values others : List β}
    (single : ∀ item value other, means item value → means item other → value = other)
    (first : Picks means items values) (second : Picks means items others) :
    values = others := by
  induction first generalizing others with
  | nil =>
      cases second
      rfl
  | keep meant _ ih =>
      cases second with
      | keep also rest => rw [single _ _ _ meant also, ih rest]
      | skip useless _ => exact absurd meant (useless _)
  | skip useless _ ih =>
      cases second with
      | keep meant _ => exact absurd meant (useless _)
      | skip _ rest => exact ih rest

theorem picks_filterMap {select : α → Option β}
    (selects : ∀ item value, select item = some value ↔ means item value) (items : List α) :
    Picks means items (items.filterMap select) := by
  induction items with
  | nil => exact .nil
  | cons item rest ih =>
      cases selected : select item with
      | some value =>
          rw [List.filterMap_cons_some selected]
          exact .keep ((selects item value).mp selected) ih
      | none =>
          rw [List.filterMap_cons_none selected]
          refine .skip (fun value meant => ?_) ih
          rw [← selects, selected] at meant
          cases meant

end Picking

section Names

variable {α β : Type}

theorem not_mem_names_of_nodup {front back : List (α × β)} {entry : α × β}
    (distinct : ((front ++ entry :: back).map Prod.fst).Nodup) :
    entry.1 ∉ front.map Prod.fst := by
  intro known
  rw [List.map_append, List.map_cons] at distinct
  exact (List.nodup_append.mp distinct).2.2 _ known _ List.mem_cons_self rfl

variable [BEq α] [LawfulBEq α]

theorem lookup_eq_some_of_mem {entries : List (α × β)} {name : α} {value : β}
    (distinct : (entries.map Prod.fst).Nodup) (member : (name, value) ∈ entries) :
    entries.lookup name = some value := by
  obtain ⟨front, back, rfl⟩ := List.append_of_mem member
  refine List.lookup_eq_some_iff.mpr ⟨front, back, rfl, fun entry before => ?_⟩
  refine bne_iff_ne.mpr fun same => not_mem_names_of_nodup distinct ?_
  exact List.mem_map.mpr ⟨entry, before, same.symm⟩

theorem lookup_cons_of_ne {entries : List (α × β)} {name own : α} {value : β}
    (other : own ≠ name) :
    ((name, value) :: entries).lookup own = entries.lookup own := by
  rw [List.lookup_cons, beq_eq_false_iff_ne.mpr other]

theorem eraseDups_concat_of_mem {names : List α} {name : α} (known : name ∈ names) :
    (names ++ [name]).eraseDups = names.eraseDups := by
  have gone : [name].removeAll names = [] := by simp [List.removeAll, known]
  rw [List.eraseDups_append, gone, List.eraseDups_nil, List.append_nil]

theorem eraseDups_concat_of_not_mem {names : List α} {name : α} (fresh : name ∉ names) :
    (names ++ [name]).eraseDups = names.eraseDups ++ [name] := by
  have stays : [name].removeAll names = [name] := by simp [List.removeAll, fresh]
  rw [List.eraseDups_append, stays, List.eraseDups_cons]
  rfl

/-- Lists with the same names, none of them twice, and with the same values under them are one. -/
theorem eq_of_lookup_eq {left right : List (α × β)} (distinct : (left.map Prod.fst).Nodup)
    (names : left.map Prod.fst = right.map Prod.fst)
    (values : ∀ name, left.lookup name = right.lookup name) : left = right := by
  have lengths : left.length = right.length := by simpa using congrArg List.length names
  refine List.ext_getElem lengths fun place inLeft inRight => ?_
  have name : left[place].1 = right[place].1 := by
    have here := congrArg (·[place]?) names
    simpa [inLeft, inRight] using here
  have leftValue : left.lookup left[place].1 = some left[place].2 :=
    lookup_eq_some_of_mem distinct (List.getElem_mem inLeft)
  have rightValue : right.lookup right[place].1 = some right[place].2 :=
    lookup_eq_some_of_mem (names ▸ distinct) (List.getElem_mem inRight)
  rw [values, name, rightValue] at leftValue
  exact Prod.ext name (Option.some.inj leftValue).symm

end Names

end CodeProse
