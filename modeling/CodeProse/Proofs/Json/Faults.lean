import CodeProse.Json.Reader
import Mathlib.Data.List.TakeWhile

/-!
# What the reader of JSON gives up on

The reader goes forward only: what it leaves is an end of the text. So where it gives up on an
integer, a run of that many digits stands in the text, and where it gives up on a nesting, more
brackets are opened in the text than may be nested. Any other text is read or malformed.
-/

set_option autoImplicit false

namespace CodeProse.Json

/-- Whether a character opens an array or an object. -/
def isOpening (char : CodePoint) : Bool :=
  char == '[' || char == '\x7b'

/-- What a text holds that the reader has a fault with, where collections may be nested `depth`
levels deep. -/
def Explains (depth : Nat) (text : Text) : ReadError → Prop
  | .malformed => True
  | .integerTooLong digits => integerDigitLimit < digits ∧
      ∃ run : Text, run.length = digits ∧ (∀ char ∈ run, char.isDigit = true) ∧ run <:+: text
  | .nestedTooDeep _ => depth < text.countP isOpening

/-- A part of a text is read off its front, or the text explains the fault. -/
def ReadsOff {α : Type} (depth : Nat) (text : Text) : Except ReadError (α × Text) → Prop
  | .ok (_, rest) => rest <:+ text
  | .error fault => Explains depth text fault

section Forward

variable {α β : Type} {depth : Nat} {part text : Text}

theorem Explains.of_suffix {fault : ReadError} (explains : Explains depth part fault)
    (behind : part <:+ text) : Explains depth text fault := by
  cases fault with
  | malformed => exact trivial
  | integerTooLong digits =>
      obtain ⟨many, run, length, digit, inside⟩ := explains
      exact ⟨many, run, length, digit, inside.trans behind.isInfix⟩
  | nestedTooDeep collection => exact Nat.lt_of_lt_of_le explains (behind.sublist.countP_le)

theorem Explains.of_opening {fault : ReadError} {first : CodePoint} (opens : isOpening first = true)
    (explains : Explains depth text fault) : Explains (depth + 1) (first :: text) fault := by
  cases fault with
  | malformed => exact trivial
  | integerTooLong digits => exact explains.of_suffix (List.suffix_cons first text)
  | nestedTooDeep collection =>
      rw [Explains, List.countP_cons_of_pos opens]
      exact Nat.succ_lt_succ explains

theorem ReadsOff.of_suffix {result : Except ReadError (α × Text)}
    (reads : ReadsOff depth part result) (behind : part <:+ text) : ReadsOff depth text result := by
  cases result with
  | ok found => exact reads.trans behind
  | error fault => exact Explains.of_suffix reads behind

theorem ReadsOff.of_opening {result : Except ReadError (α × Text)} {first : CodePoint}
    (opens : isOpening first = true) (reads : ReadsOff depth text result) :
    ReadsOff (depth + 1) (first :: text) result := by
  cases result with
  | ok found => exact reads.trans (List.suffix_cons first text)
  | error fault => exact Explains.of_opening opens reads

theorem ReadsOff.bind {result : Except ReadError (α × Text)}
    {next : α × Text → Except ReadError (β × Text)} (reads : ReadsOff depth text result)
    (further : ∀ value rest, ReadsOff depth rest (next (value, rest))) :
    ReadsOff depth text (result >>= next) := by
  cases result with
  | ok found => exact (further found.1 found.2).of_suffix reads
  | error fault => exact reads

theorem readsOff_tooDeep {first : CodePoint} (opens : isOpening first = true) {collection : Text} :
    ReadsOff 0 (first :: text)
      (.error (.nestedTooDeep collection) : Except ReadError (α × Text)) := by
  show 0 < (first :: text).countP isOpening
  rw [List.countP_cons_of_pos opens]
  exact Nat.succ_pos _

theorem readsOff_malformed : ReadsOff depth text (.error .malformed : Except ReadError (α × Text)) :=
  trivial

end Forward

section Parts

variable {depth : Nat} {text rest : Text}

theorem skipSpace_suffix (text : Text) : skipSpace text <:+ text :=
  List.dropWhile_suffix isSpace

theorem suffix_of_skipSpace {char : CodePoint} (skips : skipSpace text = char :: rest) :
    rest <:+ text :=
  (List.suffix_cons char rest).trans (skips ▸ skipSpace_suffix text)

theorem readUnit?_suffix {unit : Nat} (read : readUnit? text = some (unit, rest)) :
    rest <:+ text := by
  unfold readUnit? at read
  split at read
  · simp only [Option.bind_eq_bind, Option.bind_eq_some_iff, Option.some.injEq,
      Prod.mk.injEq] at read
    obtain ⟨a, -, b, -, c, -, d, -, -, rfl⟩ := read
    exact ⟨[_, _, _, _], rfl⟩
  · cases read

theorem readLowSurrogate?_suffix {unit : Nat} (read : readLowSurrogate? text = some (unit, rest)) :
    rest <:+ text := by
  unfold readLowSurrogate? at read
  split at read
  · next behind =>
      split at read
      · next low after found =>
          split at read
          · cases read
            exact (readUnit?_suffix found).trans ⟨['\\', 'u'], rfl⟩
          · cases read
      · cases read
  · cases read

theorem readUnicode?_suffix {char : CodePoint} (read : readUnicode? text = some (char, rest)) :
    rest <:+ text := by
  obtain ⟨⟨unit, behind⟩, found, read⟩ := Option.bind_eq_some_iff.mp read
  have front := readUnit?_suffix found
  have second : ∀ {found : CodePoint × Text}, some found = some (char, rest) → found.2 = rest :=
    fun same => congrArg Prod.snd (Option.some.inj same)
  dsimp only at read
  split at read
  · split at read
    · next low after paired =>
        exact second read ▸ (readLowSurrogate?_suffix paired).trans front
    · exact second read ▸ front
  · exact second read ▸ front

theorem escaped_suffix {letter char : CodePoint}
    (read : (if letter == 'u' then readUnicode? text
      else (simpleEscape? letter).map fun char => (char, text)) = some (char, rest)) :
    rest <:+ text := by
  split at read
  · exact readUnicode?_suffix read
  · obtain ⟨stands, -, same⟩ := Option.map_eq_some_iff.mp read
    have whole : text = rest := congrArg Prod.snd same
    exact whole ▸ List.suffix_rfl

theorem readsOff_readString (limit : Nat) (text : Text) :
    ReadsOff depth text (readString limit text) := by
  induction limit generalizing text with
  | zero => exact readsOff_malformed
  | succ limit ih =>
      cases text with
      | nil => exact readsOff_malformed
      | cons char rest =>
          have further : ∀ (char : CodePoint) (rest : Text), ReadsOff depth rest
              (readString limit rest >>= fun found => .ok (char :: found.1, found.2)) :=
            fun char rest => (ih rest).bind fun _ behind => List.suffix_rfl
          unfold readString
          split
          · exact List.suffix_cons char rest
          · split
            · cases rest with
              | nil => exact readsOff_malformed
              | cons letter rest =>
                  dsimp only
                  split
                  · exact readsOff_malformed
                  · next escaped behind found =>
                      refine (further escaped behind).of_suffix ?_
                      exact (escaped_suffix found).trans ⟨[char, letter], rfl⟩
            · split
              · exact readsOff_malformed
              · exact (further char rest).of_suffix (List.suffix_cons char rest)

theorem splitDigits_suffix (text : Text) : (splitDigits text).2 <:+ text :=
  List.dropWhile_suffix CodePoint.isDigit

theorem splitSign_suffix (text : Text) : (splitSign text).2 <:+ text := by
  unfold splitSign
  split
  · exact List.suffix_cons _ _
  · exact List.suffix_cons _ _
  · exact List.suffix_rfl

/-- What stands before the point of a number is a run of digits in front of what is left. -/
theorem exists_run_of_splitWhole (text : Text) :
    (splitWhole text).2 <:+ text ∧ ((splitWhole text).1.length ≤ 1 ∨
      ∃ run : Text, run.length = (splitWhole text).1.length ∧
        (∀ char ∈ run, char.isDigit = true) ∧ run <:+: text) := by
  unfold splitWhole
  split
  · exact ⟨List.suffix_cons _ _, .inl (Nat.le_refl 1)⟩
  · refine ⟨splitDigits_suffix text, .inr ⟨text.takeWhile CodePoint.isDigit, ?_, ?_, ?_⟩⟩
    · exact (List.length_map _).symm
    · exact fun char member => List.mem_takeWhile_imp member
    · exact (List.takeWhile_prefix _).isInfix

theorem splitPoint?_suffix {digits : List Nat} (split : splitPoint? text = some (digits, rest)) :
    rest <:+ text := by
  unfold splitPoint? at split
  split at split
  · next behind =>
      split at split
      · cases split
      · cases Option.some.inj split
        exact (splitDigits_suffix behind).trans (List.suffix_cons _ _)
  · cases split

theorem splitExponent?_suffix {exponent : Int}
    (read : splitExponent? text = some (exponent, rest)) : rest <:+ text := by
  unfold splitExponent? at read
  split at read
  · next mark behind =>
      split at read
      · have sign := splitSign_suffix behind
        cases signed : splitSign behind with
        | mk negative magnitude =>
            rw [signed] at read sign
            have front := splitDigits_suffix magnitude
            dsimp only at read
            split at read
            · cases read
            · next digits after some known =>
                rw [known] at front
                cases Option.some.inj read
                exact (front.trans sign).trans (List.suffix_cons _ _)
      · cases read
  · cases read

theorem readsOff_readNumber (negative : Bool) (text : Text) :
    ReadsOff depth text (readNumber negative text) := by
  obtain ⟨front, run⟩ := exists_run_of_splitWhole text
  unfold readNumber
  split
  · exact readsOff_malformed
  · next whole afterWhole some known =>
      rw [known] at front run
      have point : ((splitPoint? afterWhole).getD ([], afterWhole)).2 <:+ afterWhole := by
        cases found : splitPoint? afterWhole with
        | none => exact List.suffix_rfl
        | some fraction => exact splitPoint?_suffix found
      dsimp only
      generalize (splitPoint? afterWhole).getD ([], afterWhole) = fraction at point
      have mark : ((splitExponent? fraction.2).getD (0, fraction.2)).2 <:+ fraction.2 := by
        cases found : splitExponent? fraction.2 with
        | none => exact List.suffix_rfl
        | some exponent => exact splitExponent?_suffix found
      have behind := (mark.trans point).trans front
      split
      · split
        · next long =>
            have many : 1 < whole.length := Nat.lt_trans (by decide) long
            exact ⟨long, run.resolve_left (Nat.not_le.mpr many)⟩
        · exact behind
      · exact behind

theorem readLiteral?_suffix {value : Json} (read : readLiteral? text = some (value, rest)) :
    rest <:+ text := by
  obtain ⟨literal, -, same⟩ := Option.map_eq_some_iff.mp read
  have behind : text.drop literal.1.length = rest := congrArg Prod.snd same
  exact behind ▸ List.drop_suffix _ _

end Parts

section Values

variable {limit : Nat}

theorem readsOff_readValue_succ
    (items : ∀ depth text, ReadsOff depth text (readItems limit depth text))
    (members : ∀ depth known text, ReadsOff depth text (readMembers limit depth known text))
    (depth : Nat) (text : Text) : ReadsOff depth text (readValue (limit + 1) depth text) := by
  have opened : isOpening (.scalar '[') = true ∧ isOpening (.scalar '\x7b') = true := ⟨rfl, rfl⟩
  unfold readValue
  split
  · next found read => exact readLiteral?_suffix read
  · split
    · refine ReadsOff.of_suffix ?_ (List.suffix_cons _ _)
      exact (readsOff_readString _ _).bind fun _ behind => List.suffix_rfl
    · exact readsOff_tooDeep opened.1
    · refine ReadsOff.of_opening opened.1 ?_
      split
      · next skips => exact suffix_of_skipSpace skips
      · refine ReadsOff.of_suffix ?_ (skipSpace_suffix _)
        exact (items _ _).bind fun _ behind => List.suffix_rfl
    · exact readsOff_tooDeep opened.2
    · refine ReadsOff.of_opening opened.2 ?_
      split
      · next skips => exact suffix_of_skipSpace skips
      · refine ReadsOff.of_suffix ?_ (skipSpace_suffix _)
        exact (members _ _ _).bind fun _ behind => List.suffix_rfl
    · exact (readsOff_readNumber true _).of_suffix (List.suffix_cons _ _)
    · exact readsOff_readNumber false _

theorem readsOff_readItems_succ
    (value : ∀ depth text, ReadsOff depth text (readValue limit depth text))
    (items : ∀ depth text, ReadsOff depth text (readItems limit depth text))
    (depth : Nat) (text : Text) : ReadsOff depth text (readItems (limit + 1) depth text) := by
  unfold readItems
  refine (value depth text).bind fun item rest => ?_
  dsimp only
  split
  · next skips => exact suffix_of_skipSpace skips
  · next skips =>
      refine ReadsOff.of_suffix ?_ ((skipSpace_suffix _).trans (suffix_of_skipSpace skips))
      exact (items depth _).bind fun _ behind => List.suffix_rfl
  · exact readsOff_malformed

theorem readsOff_readMembers_succ
    (value : ∀ depth text, ReadsOff depth text (readValue limit depth text))
    (members : ∀ depth known text, ReadsOff depth text (readMembers limit depth known text))
    (depth : Nat) (known : List (Text × Json)) (text : Text) :
    ReadsOff depth text (readMembers (limit + 1) depth known text) := by
  unfold readMembers
  split
  · refine ReadsOff.of_suffix ?_ (List.suffix_cons _ _)
    refine (readsOff_readString _ _).bind fun name behind => ?_
    dsimp only
    split
    · next skips =>
        refine ReadsOff.of_suffix ?_ ((skipSpace_suffix _).trans (suffix_of_skipSpace skips))
        refine (value depth _).bind fun found rest => ?_
        dsimp only
        split
        · next skips => exact suffix_of_skipSpace skips
        · next skips =>
            exact (members depth _ _).of_suffix
              ((skipSpace_suffix _).trans (suffix_of_skipSpace skips))
        · exact readsOff_malformed
    · exact readsOff_malformed
  · exact readsOff_malformed

/-- A value, the items of an array and the members of an object are read off the front. -/
theorem readsOff_parts (limit : Nat) :
    (∀ depth text, ReadsOff depth text (readValue limit depth text)) ∧
    (∀ depth text, ReadsOff depth text (readItems limit depth text)) ∧
    ∀ depth members text, ReadsOff depth text (readMembers limit depth members text) := by
  induction limit with
  | zero =>
      exact ⟨fun _ _ => readsOff_malformed, fun _ _ => readsOff_malformed,
        fun _ _ _ => readsOff_malformed⟩
  | succ limit ih =>
      obtain ⟨value, items, members⟩ := ih
      exact ⟨readsOff_readValue_succ items members, readsOff_readItems_succ value items,
        readsOff_readMembers_succ value members⟩

/-- A text that the reader gives up on explains it. -/
theorem explains_of_read {depth : Nat} {text : Text} {fault : ReadError}
    (gaveUp : read depth text = .error fault) : Explains depth text fault := by
  have reads := (readsOff_parts (2 * text.length + 2)).1 depth (skipSpace text)
  unfold read at gaveUp
  cases found : readValue (2 * text.length + 2) depth (skipSpace text) with
  | ok found =>
      rw [found] at gaveUp
      change (if (skipSpace _).isEmpty then _ else _) = _ at gaveUp
      split at gaveUp
      · cases gaveUp
      · cases gaveUp
        exact trivial
  | error other =>
      rw [found] at gaveUp reads
      cases gaveUp
      exact Explains.of_suffix reads (skipSpace_suffix text)

end Values

end CodeProse.Json
