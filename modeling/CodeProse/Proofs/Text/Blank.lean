import CodeProse.Text.Blank

/-!
# Laws of trimming

Trimming cuts a text at its ends: what is left is a part of the text.
-/

set_option autoImplicit false

namespace CodeProse.Text

theorem suffix_trimStart (text : Text) : trimStart text <:+ text :=
  List.dropWhile_suffix _

theorem prefix_dropEndWhile (drops : CodePoint → Bool) (text : Text) :
    dropEndWhile drops text <+: text := by
  have kept := List.reverse_prefix.mpr (List.dropWhile_suffix (l := text.reverse) drops)
  rwa [List.reverse_reverse] at kept

theorem prefix_trimEnd (text : Text) : trimEnd text <+: text :=
  prefix_dropEndWhile _ text

theorem infix_trim (text : Text) : trim text <:+: text :=
  (prefix_trimEnd _).isInfix.trans (suffix_trimStart text).isInfix

/-- The blanks at the front of a text and what is left without them. -/
theorem drop_length_sub_trimStart (text : Text) :
    text.drop (text.length - (trimStart text).length) = trimStart text :=
  (List.suffix_iff_eq_drop.mp (suffix_trimStart text)).symm

theorem suffix_dropWhile {drops : CodePoint → Bool} {back text : Text} (within : back <:+ text)
    (kept : back.head?.any fun first => !drops first) : back <:+ text.dropWhile drops := by
  induction text with
  | nil => exact within
  | cons char rest ih =>
      rcases List.suffix_cons_iff.mp within with whole | later
      · have stays : drops char = false := by simpa [whole] using kept
        rwa [List.dropWhile_cons_of_neg (by simp [stays])]
      · rw [List.dropWhile_cons]
        split
        · exact ih later
        · exact within

/-- What ends in a character that is not dropped is left at the front. -/
theorem prefix_dropEndWhile_of_prefix {drops : CodePoint → Bool} {front text : Text}
    (within : front <+: text) (kept : front.getLast?.any fun last => !drops last) :
    front <+: dropEndWhile drops text := by
  have back : front.reverse <:+ text.reverse := List.reverse_suffix.mpr within
  have stays : front.reverse <:+ text.reverse.dropWhile drops :=
    suffix_dropWhile back (by rwa [List.head?_reverse])
  have front := List.reverse_prefix.mpr stays
  rwa [List.reverse_reverse] at front

theorem dropEndWhile_append {drops : CodePoint → Bool} {front back : Text}
    (dropped : ∀ char ∈ back, drops char = true)
    (kept : front.getLast?.any fun last => !drops last) :
    dropEndWhile drops (front ++ back) = front := by
  have backwards : ∀ char ∈ back.reverse, drops char = true :=
    fun char member => dropped char (List.mem_reverse.mp member)
  have shorter : dropEndWhile drops (front ++ back) = dropEndWhile drops front := by
    rw [dropEndWhile, List.reverse_append, List.dropWhile_append_of_pos backwards, dropEndWhile]
  have whole := prefix_dropEndWhile_of_prefix (List.prefix_refl front) kept
  rw [shorter]
  exact (prefix_dropEndWhile drops front).eq_of_length_le whole.length_le

end CodeProse.Text
