import CodeProse.Proofs.Language.Quotation

/-!
# Quoted regions of a line

What may stand between two quotes is told by a grammar. The quotations of a line are its regions by
that grammar from the left: they do not overlap, and whatever else could be read as a quotation opens
inside one of them. No other list of regions does the same.
-/

set_option autoImplicit false

namespace CodeProse

/-- What may stand between two quotes: characters that are neither the quote nor a backslash, and
characters that a backslash takes along. -/
inductive IsQuotable (quote : CodePoint) : Text → Prop where
  | nil : IsQuotable quote []
  | plain {char : CodePoint} {rest : Text} (other : char ≠ quote) (free : char ≠ '\\') :
      IsQuotable quote rest → IsQuotable quote (char :: rest)
  | escaped {char : CodePoint} {rest : Text} :
      IsQuotable quote rest → IsQuotable quote (.scalar '\\' :: char :: rest)

section Closing

variable {quote : CodePoint} {text content behind : Text} {length : Nat}

theorem closingQuote?_complete (quotable : IsQuotable quote content) (firm : quote ≠ '\\')
    (plain : .scalar '\n' ∉ content) :
    closingQuote? quote false (content ++ quote :: behind) = some content.length := by
  induction quotable with
  | nil =>
      cases behind with
      | nil => exact if_pos rfl
      | cons next rest => exact if_pos rfl
  | @plain char rest other free _ ih =>
      have feed : char ≠ '\n' := fun same => plain (same ▸ List.mem_cons_self)
      obtain ⟨next, further, shape⟩ := List.exists_cons_of_ne_nil
        (List.append_ne_nil_of_right_ne_nil rest (List.cons_ne_nil quote behind))
      have found := ih (List.not_mem_of_not_mem_cons plain)
      rw [shape] at found
      rw [List.cons_append, shape, closingQuote?, if_neg other, if_neg free, if_neg (by simp [feed]),
        found]
      rfl
  | @escaped char rest _ ih =>
      have feed : char ≠ '\n' := fun same => plain (by simp [same])
      have found := ih fun member => plain (by simp [member])
      rw [List.cons_append, List.cons_append, closingQuote?, if_neg firm.symm, if_pos rfl,
        if_neg feed, found]
      rfl

theorem closingQuote?_sound (found : closingQuote? quote false text = some length) :
    ∃ content behind, text = content ++ quote :: behind ∧ IsQuotable quote content ∧
      content.length = length := by
  fun_induction closingQuote? quote false text generalizing length with
  | case1 => cases found
  | case2 =>
      cases found
      exact ⟨[], [], rfl, .nil, rfl⟩
  | case3 => cases found
  | case4 next rest =>
      cases found
      exact ⟨[], next :: rest, rfl, .nil, rfl⟩
  | case5 => cases found
  | case6 next rest _ _ ih =>
      obtain ⟨short, foundBehind, rfl⟩ := Option.map_eq_some_iff.mp found
      obtain ⟨content, behind, rfl, quotable, rfl⟩ := ih foundBehind
      exact ⟨.scalar '\\' :: next :: content, behind, rfl, quotable.escaped, rfl⟩
  | case7 => cases found
  | case8 char next rest other free _ ih =>
      obtain ⟨short, foundBehind, rfl⟩ := Option.map_eq_some_iff.mp found
      obtain ⟨content, behind, shape, quotable, rfl⟩ := ih foundBehind
      exact ⟨char :: content, behind, by rw [shape]; rfl, quotable.plain other free, rfl⟩

theorem IsQuotable.unique {other rest : Text} (quotable : IsQuotable quote content)
    (otherQuotable : IsQuotable quote other) (firm : quote ≠ '\\')
    (same : content ++ quote :: behind = other ++ quote :: rest) : content = other := by
  induction quotable generalizing other with
  | nil =>
      cases otherQuotable with
      | nil => rfl
      | plain differs _ _ => exact absurd (List.cons.inj same).1.symm differs
      | escaped _ => exact absurd (List.cons.inj same).1 firm
  | plain differs free _ ih =>
      cases otherQuotable with
      | nil => exact absurd (List.cons.inj same).1 differs
      | plain _ _ further =>
          obtain ⟨rfl, tails⟩ := List.cons.inj same
          rw [ih further tails]
      | escaped _ => exact absurd (List.cons.inj same).1 free
  | escaped _ ih =>
      cases otherQuotable with
      | nil => exact absurd (List.cons.inj same).1.symm firm
      | plain _ free _ => exact absurd (List.cons.inj same).1.symm free
      | escaped further =>
          obtain ⟨-, escaped⟩ := List.cons.inj same
          obtain ⟨rfl, tails⟩ := List.cons.inj escaped
          rw [ih further tails]

end Closing

section Regions

variable {line text : Text} {start offset skip : Nat} {regions others : List Quotation}
  {quotation : Quotation}

/-- What can be read as a quotation in a line, whatever else can. -/
structure Quotation.IsReadIn (line : Text) (quotation : Quotation) : Prop where
  quote : quotation.quote ∈ quoteChars
  quotable : IsQuotable quotation.quote quotation.content
  stands : ∃ behind, line.drop quotation.offset =
    quotation.quote :: (quotation.content ++ quotation.quote :: behind)

/-- The quotations of a line from a place on: in order and without overlap, and such that every
quote that is in none of them has no partner. -/
structure AreQuotationsFrom (line : Text) (start : Nat) (regions : List Quotation) : Prop where
  read : ∀ region ∈ regions, region.IsReadIn line
  behind : ∀ region ∈ regions, start ≤ region.offset
  ordered : regions.Pairwise fun left right =>
    left.offset + 1 + left.content.length < right.offset
  complete : ∀ other : Quotation, other.IsReadIn line → start ≤ other.offset →
    ∃ region ∈ regions, region.offset ≤ other.offset ∧
      other.offset ≤ region.offset + 1 + region.content.length

theorem ne_backslash_of_mem_quoteChars {quote : CodePoint} (known : quote ∈ quoteChars) :
    quote ≠ '\\' := by
  have absent : .scalar '\\' ∉ quoteChars := by decide
  exact ne_of_mem_of_not_mem known absent

theorem Quotation.IsReadIn.closing (read : quotation.IsReadIn line) (plain : .scalar '\n' ∉ line) :
    ∃ rest, line.drop quotation.offset = quotation.quote :: rest ∧
      closingQuote? quotation.quote false rest = some quotation.content.length := by
  obtain ⟨behind, shape⟩ := read.stands
  refine ⟨_, shape, closingQuote?_complete read.quotable
    (ne_backslash_of_mem_quoteChars read.quote) fun feed => plain ?_⟩
  refine List.mem_of_mem_drop (i := quotation.offset) ?_
  rw [shape]
  exact List.mem_cons_of_mem _ (List.mem_append_left _ feed)

theorem quotationsFrom_isReadIn (rest : line.drop offset = text) :
    ∀ region ∈ quotationsFrom offset skip text, region.IsReadIn line := by
  induction text generalizing offset skip with
  | nil => exact fun _ impossible => by cases skip <;> cases impossible
  | cons char text ih =>
      have next : line.drop (offset + 1) = text := by
        rw [← List.drop_drop, rest, List.drop_one, List.tail_cons]
      cases skip with
      | succ skip => exact ih next
      | zero =>
          rw [quotationsFrom]
          split
          · next known =>
              split
              · next length closing =>
                  refine List.forall_mem_cons.mpr ⟨?_, ih next⟩
                  obtain ⟨content, behind, rfl, quotable, rfl⟩ := closingQuote?_sound closing
                  rw [List.take_left]
                  exact ⟨List.contains_iff_mem.mp known, quotable, behind, rest⟩
              · exact ih next
          · exact ih next

theorem quotationsFrom_complete (plain : .scalar '\n' ∉ line) (rest : line.drop offset = text)
    (read : quotation.IsReadIn line) (ahead : offset + skip ≤ quotation.offset) :
    ∃ region ∈ quotationsFrom offset skip text, region.offset ≤ quotation.offset ∧
      quotation.offset ≤ region.offset + 1 + region.content.length := by
  obtain ⟨tail, shape, closing⟩ := read.closing plain
  induction text generalizing offset skip with
  | nil =>
      have length := congrArg List.length shape
      have short : line.length ≤ offset := List.drop_eq_nil_iff.mp rest
      rw [List.length_drop, List.length_cons] at length
      omega
  | cons char text ih =>
      have next : line.drop (offset + 1) = text := by
        rw [← List.drop_drop, rest, List.drop_one, List.tail_cons]
      have here : quotation.offset = offset → quotation.quote = char ∧ tail = text := by
        intro same
        rw [same, rest] at shape
        exact ⟨(List.cons.inj shape).1.symm, (List.cons.inj shape).2.symm⟩
      cases skip with
      | succ skip => exact ih next (by omega)
      | zero =>
          rw [quotationsFrom]
          split
          · split
            · next length found =>
                have taken : (text.take length).length = length :=
                  List.length_take_of_le (Nat.le_of_lt (closingQuote?_lt found))
                -- What can be read opens in the quotation found here, or behind it.
                by_cases inside : quotation.offset ≤ offset + 1 + length
                · refine ⟨_, List.mem_cons_self, ahead, ?_⟩
                  show quotation.offset ≤ offset + 1 + (text.take length).length
                  rwa [taken]
                · have beyond : offset + 1 + (length + 1) ≤ quotation.offset := by omega
                  obtain ⟨region, member, within⟩ := ih next beyond
                  exact ⟨region, List.mem_cons_of_mem _ member, within⟩
            · next none =>
                refine ih next (Nat.lt_of_le_of_ne ahead fun same => ?_)
                obtain ⟨rfl, rfl⟩ := here same.symm
                rw [none] at closing
                cases closing
          · next other =>
              refine ih next (Nat.lt_of_le_of_ne ahead fun same => ?_)
              obtain ⟨rfl, -⟩ := here same.symm
              exact other (List.contains_iff_mem.mpr read.quote)

theorem areQuotationsFrom_quotationsFrom (plain : .scalar '\n' ∉ line) (rest : line.drop start = text) :
    AreQuotationsFrom line start (quotationsFrom start 0 text) where
  read := quotationsFrom_isReadIn rest
  behind := fun region member => (quotationsFrom_standsIn rest region member).2
  ordered := pairwise_quotationsFrom rest
  complete := fun _ read ahead => quotationsFrom_complete plain rest read ahead

theorem Quotation.IsReadIn.unique {other : Quotation} (read : quotation.IsReadIn line)
    (otherRead : other.IsReadIn line) (same : quotation.offset = other.offset) :
    quotation = other := by
  obtain ⟨behind, shape⟩ := read.stands
  obtain ⟨rest, otherShape⟩ := otherRead.stands
  rw [same, otherShape] at shape
  obtain ⟨quote, tails⟩ := List.cons.inj shape
  have quotable := otherRead.quotable
  rw [quote] at tails quotable
  have content := quotable.unique read.quotable (ne_backslash_of_mem_quoteChars read.quote) tails
  cases quotation
  cases other
  cases same
  cases quote
  cases content
  rfl

namespace AreQuotationsFrom

variable {region other : Quotation}

theorem first_le (all : AreQuotationsFrom line start (region :: regions))
    (read : other.IsReadIn line) (ahead : start ≤ other.offset) : region.offset ≤ other.offset := by
  obtain ⟨known, member, before, -⟩ := all.complete other read ahead
  rcases List.mem_cons.mp member with rfl | later
  · exact before
  · have gap := (List.pairwise_cons.mp all.ordered).1 known later
    omega

theorem tail (all : AreQuotationsFrom line start (region :: regions)) :
    AreQuotationsFrom line (region.offset + 2 + region.content.length) regions where
  read := fun known member => all.read known (List.mem_cons_of_mem _ member)
  behind := fun known member => by
    have gap := (List.pairwise_cons.mp all.ordered).1 known member
    omega
  ordered := (List.pairwise_cons.mp all.ordered).2
  complete := fun other read ahead => by
    have first := all.behind region List.mem_cons_self
    obtain ⟨known, member, before, within⟩ := all.complete other read (by omega)
    rcases List.mem_cons.mp member with rfl | later
    · omega
    · exact ⟨known, later, before, within⟩

theorem unique (all : AreQuotationsFrom line start regions)
    (same : AreQuotationsFrom line start others) : regions = others := by
  induction regions generalizing start others with
  | nil =>
      cases others with
      | nil => rfl
      | cons other rest =>
          have first := List.mem_cons_self (a := other) (l := rest)
          obtain ⟨known, member, -⟩ := all.complete other (same.read other first)
            (same.behind other first)
          cases member
  | cons region regions ih =>
      have first := List.mem_cons_self (a := region) (l := regions)
      have read := all.read region first
      cases others with
      | nil =>
          obtain ⟨known, member, -⟩ := same.complete region read (all.behind region first)
          cases member
      | cons other rest =>
          have otherFirst := List.mem_cons_self (a := other) (l := rest)
          have otherRead := same.read other otherFirst
          -- Neither list starts before the other, and there is one quotation to read there.
          have before := all.first_le otherRead (same.behind other otherFirst)
          have after := same.first_le read (all.behind region first)
          obtain rfl := read.unique otherRead (Nat.le_antisymm before after)
          rw [ih all.tail same.tail]

end AreQuotationsFrom

theorem areQuotationsFrom_zero_iff (plain : .scalar '\n' ∉ line) :
    AreQuotationsFrom line 0 regions ↔ regions = quotations line := by
  have all : AreQuotationsFrom line 0 (quotations line) :=
    areQuotationsFrom_quotationsFrom plain List.drop_zero
  constructor
  · exact fun found => found.unique all
  · rintro rfl
    exact all

end Regions

end CodeProse
