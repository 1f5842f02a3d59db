import CodeProse.Json.Reader
import CodeProse.Json.Writer
import CodeProse.Proofs.Numeric.Digits
import CodeProse.Proofs.Text.Surrogates

/-!
# Reading the parts of written JSON

What is read from the front of a text where a character, a string or an integer was written, and
what is left behind it. A character is written in one of three forms, and none of them holds a
control character as it is.
-/

set_option autoImplicit false

namespace CodeProse.Json

section Characters

theorem hexDigits_succ {width number : Nat} (positive : 0 < width) :
    Text.hexDigits (width + 1) number =
      Text.hexDigits width (number / 16) ++ [.scalar (Nat.digitChar (number % 16))] := by
  by_cases single : number < 16
  · have zeros : List.replicate width ('0' : CodePoint) =
        List.replicate (width - 1) ('0' : CodePoint) ++ "0".toText := by
      rw [← Nat.succ_pred_eq_of_pos positive]
      exact List.replicate_succ'
    have whole : number / 16 = 0 := by omega
    have part : number % 16 = number := by omega
    simp [Text.hexDigits, Text.digits_of_lt single, Text.digits_of_lt (by decide : 0 < 16), whole,
      part, zeros]
  · have several := Text.digits_of_le (by decide) (Nat.not_lt.mp single)
    simp [Text.hexDigits, several, Nat.add_sub_add_right]

theorem hexDigits_four {unit : Nat} (small : unit < 65536) :
    Text.hexDigits 4 unit =
      [.scalar (Nat.digitChar (unit / 4096)), .scalar (Nat.digitChar (unit / 256 % 16)),
        .scalar (Nat.digitChar (unit / 16 % 16)), .scalar (Nat.digitChar (unit % 16))] := by
  have first : Text.hexDigits 1 (unit / 4096) = [.scalar (Nat.digitChar (unit / 4096))] := by
    rw [Text.hexDigits, Text.digits_of_lt (by omega)]
    rfl
  rw [hexDigits_succ (by decide), hexDigits_succ (by decide), hexDigits_succ (by decide),
    Nat.div_div_eq_div_mul, Nat.div_div_eq_div_mul, first]
  simp [Nat.div_div_eq_div_mul]

theorem hexValue?_digitChar {digit : Nat} (small : digit < 16) :
    hexValue? (Nat.digitChar digit) = some digit := by
  have all : ∀ digit < 16, hexValue? (Nat.digitChar digit) = some digit := by decide
  exact all digit small

theorem readUnit?_hexDigits {unit : Nat} (small : unit < 65536) (rest : Text) :
    readUnit? (Text.hexDigits 4 unit ++ rest) = some (unit, rest) := by
  have value : ((unit / 4096 * 16 + unit / 256 % 16) * 16 + unit / 16 % 16) * 16 + unit % 16 =
      unit := by omega
  rw [hexDigits_four small]
  simp [readUnit?, hexValue?_digitChar (show unit / 4096 < 16 by omega),
    hexValue?_digitChar (Nat.mod_lt _ (by decide)), value]

theorem readLowSurrogate?_unitEscape {unit : Nat} (small : unit < 65536) (rest : Text) :
    readLowSurrogate? (unitEscape unit ++ rest) =
      if 0xDC00 ≤ unit ∧ unit ≤ 0xDFFF then some (unit, rest) else none := by
  simp [unitEscape, readLowSurrogate?, readUnit?_hexDigits small]

/-- An escape stands for its number, unless it is the first half of a pair and the second half
follows. -/
theorem readUnicode?_of_unit {unit : Nat} (small : unit < 65536) {rest : Text}
    (alone : 0xD800 ≤ unit ∧ unit ≤ 0xDBFF → readLowSurrogate? rest = none) :
    readUnicode? (Text.hexDigits 4 unit ++ rest) = some (CodePoint.ofNat unit, rest) := by
  by_cases high : 0xD800 ≤ unit ∧ unit ≤ 0xDBFF
  · simp [readUnicode?, readUnit?_hexDigits small, high, alone high]
  · simp [readUnicode?, readUnit?_hexDigits small, high]

theorem readUnicode?_of_pair {high low : Nat} (isHigh : 0xD800 ≤ high ∧ high ≤ 0xDBFF)
    (isLow : 0xDC00 ≤ low ∧ low ≤ 0xDFFF) (rest : Text) :
    readUnicode? (Text.hexDigits 4 high ++ (unitEscape low ++ rest)) =
      some (CodePoint.ofNat (0x10000 + (high - 0xD800) * 1024 + (low - 0xDC00)), rest) := by
  have second := readLowSurrogate?_unitEscape (show low < 65536 by omega) rest
  rw [if_pos isLow] at second
  simp [readUnicode?, readUnit?_hexDigits (show high < 65536 by omega), isHigh, second]

theorem exists_surrogates {char : CodePoint} (large : ¬ char.toNat < 0x10000) :
    ∃ high low, (0xD800 ≤ high ∧ high ≤ 0xDBFF) ∧ (0xDC00 ≤ low ∧ low ≤ 0xDFFF) ∧
      unicodeEscape char = unitEscape high ++ unitEscape low ∧
      CodePoint.ofNat (0x10000 + (high - 0xD800) * 1024 + (low - 0xDC00)) = char := by
  have bound := char.toNat_lt
  refine ⟨0xD800 + (char.toNat - 0x10000) / 1024, 0xDC00 + (char.toNat - 0x10000) % 1024,
    by omega, by omega, if_neg large, ?_⟩
  have code : 0x10000 + (0xD800 + (char.toNat - 0x10000) / 1024 - 0xD800) * 1024 +
      (0xDC00 + (char.toNat - 0x10000) % 1024 - 0xDC00) = char.toNat := by omega
  rw [code, CodePoint.ofNat_toNat]

/-- The escape of a character is read as that character; above U+FFFF it is a pair of escapes. -/
theorem exists_unicodeEscape (char : CodePoint) :
    ∃ behind, unicodeEscape char = .scalar '\\' :: .scalar 'u' :: behind ∧
      ∀ rest, (char.IsHigh → readLowSurrogate? rest = none) →
        readUnicode? (behind ++ rest) = some (char, rest) := by
  by_cases plain : char.toNat < 0x10000
  · refine ⟨Text.hexDigits 4 char.toNat, if_pos plain, fun rest alone => ?_⟩
    rw [readUnicode?_of_unit plain alone, CodePoint.ofNat_toNat]
  · obtain ⟨high, low, isHigh, isLow, escape, code⟩ := exists_surrogates plain
    refine ⟨Text.hexDigits 4 high ++ unitEscape low, escape, fun rest _ => ?_⟩
    rw [List.append_assoc, readUnicode?_of_pair isHigh isLow, code]

theorem readLowSurrogate?_unicodeEscape {char : CodePoint} (other : ¬ char.IsLow) (rest : Text) :
    readLowSurrogate? (unicodeEscape char ++ rest) = none := by
  by_cases plain : char.toNat < 0x10000
  · rw [unicodeEscape, if_pos plain, readLowSurrogate?_unitEscape plain]
    exact if_neg other
  · obtain ⟨high, low, isHigh, -, escape, -⟩ := exists_surrogates plain
    rw [escape, List.append_assoc, readLowSurrogate?_unitEscape (by omega), if_neg (by omega)]

end Characters

section Strings

variable {charset : Charset} {char letter : CodePoint} {limit : Nat} {rest behind text : Text}

theorem readString_unicode (stands : readUnicode? rest = some (char, behind)) :
    readString (limit + 1) (.scalar '\\' :: .scalar 'u' :: rest) =
      (readString limit behind).map fun read => (char :: read.1, read.2) := by
  rw [readString]
  simp only [CodePoint.beq_scalar, Char.reduceBEq, Bool.false_eq_true, if_false, if_true, stands]
  cases readString limit behind <;> rfl

theorem readString_simple (other : letter ≠ 'u') (stands : simpleEscape? letter = some char) :
    readString (limit + 1) (.scalar '\\' :: letter :: rest) =
      (readString limit rest).map fun read => (char :: read.1, read.2) := by
  rw [readString]
  simp only [CodePoint.beq_scalar, Char.reduceBEq, Bool.false_eq_true, if_false, if_true,
    beq_eq_false_iff_ne.mpr other, stands, Option.map_some]
  cases readString limit rest <;> rfl

theorem readString_plain (quote : char ≠ '"') (backslash : char ≠ '\\')
    (printable : ¬ char.toNat < 0x20) :
    readString (limit + 1) (char :: rest) =
      (readString limit rest).map fun read => (char :: read.1, read.2) := by
  rw [readString.eq_def]
  simp only [beq_eq_false_iff_ne.mpr quote, beq_eq_false_iff_ne.mpr backslash, Bool.false_eq_true,
    if_false, printable]
  cases readString limit rest <;> rfl

/-- The three forms of a written character: a backslash with a letter that stands for it, a `\u`
escape, and the character as it is. -/
inductive Escapes (char : CodePoint) : Text → Prop where
  | letter {letter : CodePoint} (other : letter ≠ 'u') (stands : simpleEscape? letter = some char) :
      Escapes char ['\\', letter]
  | code : Escapes char (unicodeEscape char)
  | plain (quote : char ≠ '"') (backslash : char ≠ '\\') (printable : ¬ char.toNat < 0x20) :
      Escapes char [char]

theorem escapes_escapeChar (charset : Charset) (char : CodePoint) :
    Escapes char (escapeChar charset char) := by
  have named {code : Nat} (is : (char.toNat == code) = true) : CodePoint.ofNat code = char := by
    rw [← eq_of_beq is, CodePoint.ofNat_toNat]
  unfold escapeChar
  split
  · next mark =>
      rcases Bool.or_eq_true_iff.mp mark with quote | backslash
      · cases eq_of_beq quote
        exact .letter (by decide) rfl
      · cases eq_of_beq backslash
        exact .letter (by decide) rfl
  next other =>
  split
  · next lineFeed => exact .letter (by decide) (congrArg some (eq_of_beq lineFeed).symm)
  split
  · next carriageReturn =>
      exact .letter (by decide) (congrArg some (eq_of_beq carriageReturn).symm)
  split
  · next tab => exact .letter (by decide) (congrArg some (eq_of_beq tab).symm)
  split
  · next backspace => exact .letter (by decide) (congrArg some (named backspace))
  split
  · next formFeed => exact .letter (by decide) (congrArg some (named formFeed))
  split
  · exact .code
  next printable =>
  split
  · exact .code
  · rw [Bool.or_eq_true_iff, beq_iff_eq, beq_iff_eq, not_or] at other
    exact .plain other.1 other.2 printable

/-- A written character is read as that character, and reading goes on behind it. -/
theorem Escapes.readString_append (escapes : Escapes char text)
    (alone : char.IsHigh → text = [char] ∨ readLowSurrogate? rest = none) :
    readString (limit + 1) (text ++ rest) =
      (readString limit rest).map fun read => (char :: read.1, read.2) := by
  cases escapes with
  | letter other stands => exact readString_simple other stands
  | code =>
      obtain ⟨behind, shape, reads⟩ := exists_unicodeEscape char
      have joined : char.IsHigh → readLowSurrogate? rest = none := fun high =>
        (alone high).resolve_left (by simp [shape])
      rw [shape]
      exact readString_unicode (reads rest joined)
  | plain quote backslash printable => exact readString_plain quote backslash printable

/-- A written character is not taken for the second half of a pair unless it is one. -/
theorem Escapes.readLowSurrogate?_append (escapes : Escapes char text) (other : ¬ char.IsLow) :
    readLowSurrogate? (text ++ rest) = none := by
  cases escapes with
  | letter differs stands =>
      rw [readLowSurrogate?.eq_def]
      split
      · next same => exact absurd (List.cons.inj (List.cons.inj same).2).1 differs
      · rfl
  | code => exact readLowSurrogate?_unicodeEscape other rest
  | plain quote backslash printable =>
      rw [readLowSurrogate?.eq_def]
      split
      · next same => exact absurd (List.cons.inj same).1 backslash
      · rfl

theorem Escapes.length_pos (escapes : Escapes char text) : 0 < text.length := by
  cases escapes with
  | letter => exact Nat.succ_pos _
  | code =>
      obtain ⟨behind, shape, -⟩ := exists_unicodeEscape char
      rw [shape]
      exact Nat.succ_pos _
  | plain => exact Nat.succ_pos _

theorem length_le_length_flatMap_escapeChar (charset : Charset) (text : Text) :
    text.length ≤ (text.flatMap (escapeChar charset)).length := by
  induction text with
  | nil => exact Nat.le_refl 0
  | cons char text ih =>
      have positive := (escapes_escapeChar charset char).length_pos
      rw [List.flatMap_cons, List.length_append, List.length_cons]
      omega

/-- Whether a text is read as it was written: a character set that escapes the halves of surrogate
pairs joins two of them that stand side by side. -/
def Charset.Keeps (charset : Charset) (text : Text) : Prop :=
  charset = .ascii → text.IsUnpaired

theorem Charset.Keeps.unicode (text : Text) : Charset.unicode.Keeps text := by
  rintro ⟨⟩

theorem Charset.Keeps.tail (kept : charset.Keeps (char :: text)) : charset.Keeps text :=
  fun same => (kept same).tail

theorem escapeChar_unicode_of_isHigh (high : char.IsHigh) : escapeChar .unicode char = [char] := by
  have large : 0x20 ≤ char.toNat := Nat.le_trans (by decide) high.1
  have differs (code : Nat) (small : code < 0x20) : (char.toNat == code) = false :=
    beq_eq_false_iff_ne.mpr (by omega)
  have other (mark : Char) (ascii : mark.toNat < 0xD800) : (char == mark) = false :=
    beq_eq_false_iff_ne.mpr fun same => by
      have low : char.toNat < 0xD800 := same ▸ ascii
      exact absurd high.1 (Nat.not_le.mpr low)
  simp [escapeChar, other '"' (by decide), other '\\' (by decide), other '\n' (by decide),
    other '\r' (by decide), other '\t' (by decide), differs 8 (by decide),
    differs 12 (by decide), Nat.not_lt.mpr large]

/-- Behind the first half of a pair, nothing that was written is read as its second half. -/
theorem Charset.Keeps.alone (kept : charset.Keeps (char :: text)) (high : char.IsHigh) :
    escapeChar charset char = [char] ∨
      readLowSurrogate? (text.flatMap (escapeChar charset) ++ .scalar '"' :: rest) = none := by
  cases charset with
  | unicode => exact .inl (escapeChar_unicode_of_isHigh high)
  | ascii =>
      refine .inr ?_
      cases text with
      | nil => rfl
      | cons next text =>
          have other : ¬ next.IsLow := fun low => (kept rfl).head ⟨high, low⟩
          rw [List.flatMap_cons, List.append_assoc]
          exact (escapes_escapeChar .ascii next).readLowSurrogate?_append other

/-- The inside of a written string is read up to its closing quote. -/
theorem readString_flatMap_escapeChar (kept : charset.Keeps text) (enough : text.length < limit) :
    readString limit (text.flatMap (escapeChar charset) ++ .scalar '"' :: rest) =
      .ok (text, rest) := by
  induction text generalizing limit with
  | nil =>
      cases limit with
      | zero => exact absurd enough (Nat.not_lt_zero _)
      | succ limit => rfl
  | cons char text ih =>
      cases limit with
      | zero => exact absurd enough (Nat.not_lt_zero _)
      | succ limit =>
          rw [List.flatMap_cons, List.append_assoc,
            (escapes_escapeChar charset char).readString_append kept.alone,
            ih kept.tail (Nat.lt_of_succ_lt_succ enough)]
          rfl

theorem readString_writeString (kept : charset.Keeps text) (rest : Text) :
    ∃ behind, writeString charset text ++ rest = .scalar '"' :: behind ∧
      readString (behind.length + 1) behind = .ok (text, rest) := by
  refine ⟨text.flatMap (escapeChar charset) ++ .scalar '"' :: rest, by simp [writeString], ?_⟩
  refine readString_flatMap_escapeChar kept ?_
  have longer := length_le_length_flatMap_escapeChar charset text
  rw [List.length_append]
  omega

/-- A text that holds no control character. -/
def IsPrintable (text : Text) : Prop :=
  ∀ char ∈ text, ¬ char.toNat < 0x20

instance (text : Text) : Decidable (IsPrintable text) :=
  List.decidableBAll (fun char : CodePoint => ¬ char.toNat < 0x20) text

theorem isPrintable_append {front back : Text} (first : IsPrintable front)
    (second : IsPrintable back) : IsPrintable (front ++ back) :=
  List.forall_mem_append.mpr ⟨first, second⟩

theorem isPrintable_unitEscape {unit : Nat} (small : unit < 65536) :
    IsPrintable (unitEscape unit) := by
  have digit : ∀ digit < 16, ¬ (Nat.digitChar digit).toNat < 0x20 := by decide
  have marks : IsPrintable "\\u".toText := by decide
  rw [unitEscape, hexDigits_four small]
  refine isPrintable_append marks ?_
  simp only [IsPrintable, List.forall_mem_cons]
  exact ⟨digit _ (by omega), digit _ (by omega), digit _ (by omega), digit _ (by omega),
    List.forall_mem_nil _⟩

theorem isPrintable_unicodeEscape (char : CodePoint) : IsPrintable (unicodeEscape char) := by
  by_cases plain : char.toNat < 0x10000
  · rw [unicodeEscape, if_pos plain]
    exact isPrintable_unitEscape plain
  · obtain ⟨high, low, isHigh, isLow, escape, -⟩ := exists_surrogates plain
    rw [escape]
    exact isPrintable_append (isPrintable_unitEscape (by omega)) (isPrintable_unitEscape (by omega))

theorem printable_of_holds (holds : CodePoint → Bool)
    (refused : ∀ code < 0x20, holds (CodePoint.ofNat code) = false) {char : CodePoint}
    (held : holds char = true) : ¬ char.toNat < 0x20 := by
  intro control
  have none := refused char.toNat control
  rw [CodePoint.ofNat_toNat, held] at none
  cases none

theorem printable_of_simpleEscape (stands : simpleEscape? letter = some char) :
    ¬ letter.toNat < 0x20 :=
  printable_of_holds (fun letter => (simpleEscape? letter).isSome) (by decide) (by simp [stands])

theorem isPrintable_ofInt (value : Int) : IsPrintable (Text.ofInt value) := by
  have natural (number : Nat) : IsPrintable (Text.ofNat number) := fun char member =>
    printable_of_holds CodePoint.isDigit (by decide) (Text.isDigit_of_mem_ofNat number char member)
  cases value with
  | ofNat number => exact natural number
  | negSucc number => exact List.forall_mem_cons.mpr ⟨by decide, natural (number + 1)⟩

theorem Escapes.isPrintable (escapes : Escapes char text) : IsPrintable text := by
  cases escapes with
  | letter _ stands =>
      exact List.forall_mem_cons.mpr
        ⟨by decide, List.forall_mem_singleton.mpr (printable_of_simpleEscape stands)⟩
  | code => exact isPrintable_unicodeEscape char
  | plain _ _ printable => exact List.forall_mem_singleton.mpr printable

theorem isPrintable_writeString (charset : Charset) (text : Text) :
    IsPrintable (writeString charset text) := by
  have quote : IsPrintable ['"'] := by decide
  refine isPrintable_append (isPrintable_append quote ?_) quote
  intro written member
  obtain ⟨char, -, known⟩ := List.mem_flatMap.mp member
  exact (escapes_escapeChar charset char).isPrintable written known

end Strings

/-- What may follow a value: nothing, or the mark that goes on with a collection or closes it. -/
def EndsValue (rest : Text) : Prop :=
  ∀ mark ∈ rest.head?, mark = ',' ∨ mark = ']' ∨ mark = '\x7d'

theorem endsValue_nil : EndsValue [] := by
  rintro mark ⟨⟩

section Numbers

variable {number : Nat} {rest : Text}

theorem splitWhole_ofNat_append (ends : EndsValue rest) :
    splitWhole (Text.ofNat number ++ rest) =
      ((Text.ofNat number).map fun char => char.toNat - 48, rest) := by
  have stop : ∀ char ∈ rest.head?, char.isDigit = false := by
    intro char first
    rcases ends char first with rfl | rfl | rfl <;> decide
  rcases Nat.eq_zero_or_pos number with rfl | positive
  · rfl
  · rw [← splitDigits_append (Text.isDigit_of_mem_ofNat number) stop]
    have other := Text.head?_ofNat_ne_zero positive
    obtain ⟨first, behind, shape, -⟩ := Text.exists_ofNat_eq_cons number
    rw [shape] at other ⊢
    exact splitWhole.eq_2 _ fun _ same => other (congrArg some (List.cons.inj same).1)

theorem splitPoint?_eq_none (ends : EndsValue rest) : splitPoint? rest = none := by
  cases rest with
  | nil => rfl
  | cons mark behind => rcases ends mark rfl with rfl | rfl | rfl <;> rfl

theorem splitExponent?_eq_none (ends : EndsValue rest) : splitExponent? rest = none := by
  cases rest with
  | nil => rfl
  | cons mark behind => rcases ends mark rfl with rfl | rfl | rfl <;> rfl

/-- A written number is read with the sign that stands before it. -/
theorem readNumber_ofNat_append (negative : Bool) (number : Nat) (ends : EndsValue rest)
    (short : (Text.ofNat number).length ≤ integerDigitLimit) :
    readNumber negative (Text.ofNat number ++ rest) =
      .ok (int (if negative then -number else number), rest) := by
  have value := digitsValue_ofNat number
  have digits :
      ((Text.ofNat number).map fun char => char.toNat - 48).length ≤ integerDigitLimit := by
    rwa [List.length_map]
  have some : ((Text.ofNat number).map fun char => char.toNat - 48) ≠ [] := by
    simpa using Text.ofNat_ne_nil number
  rw [readNumber, splitWhole_ofNat_append ends]
  generalize (Text.ofNat number).map (fun char => char.toNat - 48) = whole at value digits some ⊢
  cases whole with
  | nil => exact absurd rfl some
  | cons first further =>
      have fits : ¬ integerDigitLimit < (first :: further).length := Nat.not_lt.mpr digits
      simp only [splitPoint?_eq_none ends, splitExponent?_eq_none ends, Option.getD_none,
        List.isEmpty_nil, Option.isNone_none, Bool.and_self, if_true, if_neg fits, value]

end Numbers

section Words

variable {first : CodePoint} {text behind : Text} {limit depth : Nat}

theorem readLiteral?_eq_none (other : ∀ literal ∈ literals, ¬ literal.1 <+: text) :
    readLiteral? text = none := by
  have none : (literals.find? fun literal => literal.1.isPrefixOf text) = none :=
    List.find?_eq_none.mpr fun literal member front =>
      other literal member (List.isPrefixOf_iff_prefix.mp front)
  rw [readLiteral?, none, Option.map_none]

theorem readLiteral?_of_mark (mark : first = '"' ∨ first = '[' ∨ first = '\x7b') :
    readLiteral? (first :: behind) = none := by
  apply readLiteral?_eq_none
  rcases mark with rfl | rfl | rfl <;> simp [literals, List.cons_prefix_cons]

theorem ne_of_isDigit (digit : first.isDigit = true) {mark : CodePoint} (other : mark.isDigit = false) :
    first ≠ mark ∧ mark ≠ first := by
  have differ : first ≠ mark := by
    rintro rfl
    rw [digit] at other
    cases other
  exact ⟨differ, differ.symm⟩

theorem readValue_of_isDigit (digit : first.isDigit = true) :
    readValue (limit + 1) depth (first :: behind) = readNumber false (first :: behind) := by
  have word : readLiteral? (first :: behind) = none := by
    apply readLiteral?_eq_none
    simp [literals, List.cons_prefix_cons, ne_of_isDigit digit]
  rw [readValue, word]
  all_goals simp [ne_of_isDigit digit]

theorem readValue_of_minus (digit : first.isDigit = true) :
    readValue (limit + 1) depth (.scalar '-' :: first :: behind) =
      readNumber true (first :: behind) := by
  have word : readLiteral? (.scalar '-' :: first :: behind) = none := by
    apply readLiteral?_eq_none
    simp [literals, List.cons_prefix_cons, ne_of_isDigit digit]
  rw [readValue, word]

end Words

end CodeProse.Json
