import CodeProse.Language.Quotation
import CodeProse.Proofs.Sequence

/-!
# Laws of quotations

A quotation of a line is cut from it, between two quotes, and the next one opens behind its
closing quote.
-/

set_option autoImplicit false

namespace CodeProse

theorem closingQuote?_lt {quote : CodePoint} {overLines : Bool} {text : Text} {length : Nat}
    (found : closingQuote? quote overLines text = some length) : length < text.length := by
  fun_induction closingQuote? quote overLines text generalizing length with
  | case1 => cases found
  | case2 =>
      cases found
      exact Nat.zero_lt_one
  | case3 => cases found
  | case4 =>
      cases found
      exact Nat.succ_pos _
  | case5 => cases found
  | case6 next rest _ _ ih =>
      obtain ⟨behind, foundBehind, rfl⟩ := Option.map_eq_some_iff.mp found
      have short := ih foundBehind
      simp only [List.length_cons]
      omega
  | case7 => cases found
  | case8 char next rest _ _ _ ih =>
      obtain ⟨behind, foundBehind, rfl⟩ := Option.map_eq_some_iff.mp found
      have short := ih foundBehind
      simp only [List.length_cons] at short ⊢
      omega

/-- A quotation that stands in a line, between its quotes. -/
structure Quotation.StandsIn (line : Text) (quotation : Quotation) : Prop where
  content : slice line (quotation.offset + 1) (quotation.offset + 1 + quotation.content.length) =
    quotation.content
  closed : quotation.offset + 1 + quotation.content.length < line.length

section QuotationsFrom

variable {line text : Text} {offset skip : Nat}

theorem quotationsFrom_standsIn (rest : line.drop offset = text) :
    ∀ quotation ∈ quotationsFrom offset skip text,
      quotation.StandsIn line ∧ offset + skip ≤ quotation.offset := by
  induction text generalizing offset skip with
  | nil => exact fun _ impossible => by cases skip <;> cases impossible
  | cons char text ih =>
      have next : line.drop (offset + 1) = text := by
        rw [← List.drop_drop, rest, List.drop_one, List.tail_cons]
      have within : offset + 1 + text.length = line.length := by
        have total := congrArg List.length rest
        rw [List.length_drop, List.length_cons] at total
        omega
      intro quotation member
      cases skip with
      | succ skip =>
          obtain ⟨stands, behind⟩ := ih next quotation member
          exact ⟨stands, by omega⟩
      | zero =>
          rw [quotationsFrom] at member
          split at member
          · split at member
            · next length closing =>
                have short := closingQuote?_lt closing
                rcases List.mem_cons.mp member with rfl | later
                · have taken : (text.take length).length = length :=
                    List.length_take_of_le (Nat.le_of_lt short)
                  refine ⟨⟨?_, ?_⟩, Nat.le_refl _⟩
                  · show slice line (offset + 1) (offset + 1 + (text.take length).length) = _
                    rw [taken, slice_eq_take_drop, next, Nat.add_sub_cancel_left]
                  · show offset + 1 + (text.take length).length < line.length
                    omega
                · obtain ⟨stands, behind⟩ := ih next quotation later
                  exact ⟨stands, by omega⟩
            · obtain ⟨stands, behind⟩ := ih next quotation member
              exact ⟨stands, by omega⟩
          · obtain ⟨stands, behind⟩ := ih next quotation member
            exact ⟨stands, by omega⟩

/-- Every quotation opens behind the closing quote of those before it. -/
theorem pairwise_quotationsFrom (rest : line.drop offset = text) :
    (quotationsFrom offset skip text).Pairwise fun left right =>
      left.offset + 1 + left.content.length < right.offset := by
  induction text generalizing offset skip with
  | nil => cases skip <;> exact List.Pairwise.nil
  | cons char text ih =>
      have next : line.drop (offset + 1) = text := by
        rw [← List.drop_drop, rest, List.drop_one, List.tail_cons]
      cases skip with
      | succ skip => exact ih next
      | zero =>
          rw [quotationsFrom]
          split
          · split
            · next length closing =>
                refine List.pairwise_cons.mpr ⟨fun later member => ?_, ih next⟩
                obtain ⟨-, behind⟩ := quotationsFrom_standsIn next later member
                have taken : (text.take length).length = length :=
                  List.length_take_of_le (Nat.le_of_lt (closingQuote?_lt closing))
                show offset + 1 + (text.take length).length < later.offset
                omega
            · exact ih next
          · exact ih next

end QuotationsFrom

end CodeProse
