import CodeProse.Text.Encoding

/-!
# Laws of UTF-8

What is written in UTF-8 is read back as it was, character by character, by the number of bytes that
the code of the character takes.
-/

set_option autoImplicit false

namespace CodeProse

section Bytes

variable {number : Nat}

theorem toNat_uint8OfNat (small : number < 256) : (UInt8.ofNat number).toNat = number := by
  rw [UInt8.toNat_ofNat']
  exact Nat.mod_eq_of_lt small

theorem utf8Tail_succ {missing low high code taken : Nat} {rest : List UInt8}
    (small : number < 256) (above : low ≤ number) (below : number ≤ high) :
    utf8Tail (missing + 1) low high code taken (UInt8.ofNat number :: rest) =
      utf8Tail missing 0x80 0xBF (code * 64 + number % 64) (taken + 1) rest := by
  have byte := toNat_uint8OfNat small
  rw [utf8Tail, byte]
  simp [above, below]

theorem utf8Lead?_one (below : number < 0x80) :
    utf8Lead? (UInt8.ofNat number) = some (0, 0, 0, number) := by
  simp only [utf8Lead?, toNat_uint8OfNat (Nat.lt_trans below (by decide : 0x80 < 256))]
  rw [if_pos below]

theorem utf8Lead?_two (above : 0xC2 ≤ number) (below : number ≤ 0xDF) :
    utf8Lead? (UInt8.ofNat number) = some (1, 0x80, 0xBF, number - 0xC0) := by
  simp only [utf8Lead?, toNat_uint8OfNat (by omega : number < 256), Bool.and_eq_true,
    decide_eq_true_eq]
  rw [if_neg (by omega), if_pos ⟨above, below⟩]

/-- The second byte of a character of three bytes lies between this bound and the next one, which
keep out the longer forms of characters of two bytes and the surrogates. -/
def lowOfThree (lead : Nat) : Nat :=
  if lead = 0xE0 then 0xA0 else 0x80

def highOfThree (lead : Nat) : Nat :=
  if lead = 0xED then 0x9F else 0xBF

theorem utf8Lead?_three (above : 0xE0 ≤ number) (below : number ≤ 0xEF) :
    utf8Lead? (UInt8.ofNat number) =
      some (2, lowOfThree number, highOfThree number, number - 0xE0) := by
  simp only [utf8Lead?, toNat_uint8OfNat (by omega : number < 256), Bool.and_eq_true,
    decide_eq_true_eq, beq_iff_eq, lowOfThree, highOfThree]
  rw [if_neg (by omega), if_neg (by omega)]
  by_cases lowest : number = 0xE0
  · simp [lowest]
  · by_cases surrogate : number = 0xED
    · simp [surrogate]
    · rw [if_neg lowest, if_neg surrogate, if_pos (by omega), if_neg lowest, if_neg surrogate]

def lowOfFour (lead : Nat) : Nat :=
  if lead = 0xF0 then 0x90 else 0x80

def highOfFour (lead : Nat) : Nat :=
  if lead = 0xF4 then 0x8F else 0xBF

theorem utf8Lead?_four (above : 0xF0 ≤ number) (below : number ≤ 0xF4) :
    utf8Lead? (UInt8.ofNat number) =
      some (3, lowOfFour number, highOfFour number, number - 0xF0) := by
  simp only [utf8Lead?, toNat_uint8OfNat (by omega : number < 256), Bool.and_eq_true,
    decide_eq_true_eq, beq_iff_eq, lowOfFour, highOfFour]
  rw [if_neg (by omega), if_neg (by omega), if_neg (by omega), if_neg (by omega),
    if_neg (by omega)]
  by_cases lowest : number = 0xF0
  · simp [lowest]
  · by_cases highest : number = 0xF4
    · simp [highest]
    · rw [if_neg lowest, if_pos (by omega), if_neg lowest, if_neg highest]

end Bytes

/-- The first bytes of a sequence are the UTF-8 of a character. -/
def ReadsAs (char : Char) (bytes : List UInt8) : Prop :=
  ∃ byte tail, bytes = byte :: tail ∧
    ∀ rest, utf8Piece byte (tail ++ rest) = (.ok char, tail.length + 1)

theorem readsAs_two {char : Char} (above : 0x80 ≤ char.toNat) (below : char.toNat < 0x800) :
    ReadsAs char [UInt8.ofNat (0xC0 + char.toNat / 64), UInt8.ofNat (0x80 + char.toNat % 64)] := by
  refine ⟨_, [_], rfl, fun rest => ?_⟩
  have lead := utf8Lead?_two (by omega : 0xC2 ≤ 0xC0 + char.toNat / 64) (by omega)
  have code : (0xC0 + char.toNat / 64 - 0xC0) * 64 + (0x80 + char.toNat % 64) % 64 =
      char.toNat := by omega
  rw [utf8Piece, lead]
  dsimp only
  rw [List.cons_append, utf8Tail_succ (by omega) (by omega) (by omega), code, utf8Tail,
    Char.ofNat_toNat]
  rfl

theorem readsAs_three {char : Char} (above : 0x800 ≤ char.toNat) (below : char.toNat < 0x10000)
    (valid : char.toNat < 0xD800 ∨ 0xDFFF < char.toNat) :
    ReadsAs char [UInt8.ofNat (0xE0 + char.toNat / 4096),
      UInt8.ofNat (0x80 + char.toNat / 64 % 64), UInt8.ofNat (0x80 + char.toNat % 64)] := by
  refine ⟨_, [_, _], rfl, fun rest => ?_⟩
  have lead := utf8Lead?_three (by omega : 0xE0 ≤ 0xE0 + char.toNat / 4096) (by omega)
  have low : lowOfThree (0xE0 + char.toNat / 4096) ≤ 0x80 + char.toNat / 64 % 64 := by
    rw [lowOfThree]
    split <;> omega
  have high : 0x80 + char.toNat / 64 % 64 ≤ highOfThree (0xE0 + char.toNat / 4096) := by
    rw [highOfThree]
    split <;> omega
  have code : ((0xE0 + char.toNat / 4096 - 0xE0) * 64 + (0x80 + char.toNat / 64 % 64) % 64) * 64 +
      (0x80 + char.toNat % 64) % 64 = char.toNat := by omega
  rw [utf8Piece, lead]
  dsimp only
  rw [List.cons_append, utf8Tail_succ (by omega) low high, List.cons_append,
    utf8Tail_succ (by omega) (by omega) (by omega), code, utf8Tail, Char.ofNat_toNat]
  rfl

theorem readsAs_four {char : Char} (above : 0x10000 ≤ char.toNat) (below : char.toNat < 0x110000) :
    ReadsAs char [UInt8.ofNat (0xF0 + char.toNat / 262144),
      UInt8.ofNat (0x80 + char.toNat / 4096 % 64), UInt8.ofNat (0x80 + char.toNat / 64 % 64),
      UInt8.ofNat (0x80 + char.toNat % 64)] := by
  refine ⟨_, [_, _, _], rfl, fun rest => ?_⟩
  have lead := utf8Lead?_four (by omega : 0xF0 ≤ 0xF0 + char.toNat / 262144) (by omega)
  have low : lowOfFour (0xF0 + char.toNat / 262144) ≤ 0x80 + char.toNat / 4096 % 64 := by
    rw [lowOfFour]
    split <;> omega
  have high : 0x80 + char.toNat / 4096 % 64 ≤ highOfFour (0xF0 + char.toNat / 262144) := by
    rw [highOfFour]
    split <;> omega
  have code : (((0xF0 + char.toNat / 262144 - 0xF0) * 64 + (0x80 + char.toNat / 4096 % 64) % 64) *
      64 + (0x80 + char.toNat / 64 % 64) % 64) * 64 + (0x80 + char.toNat % 64) % 64 =
        char.toNat := by omega
  rw [utf8Piece, lead]
  dsimp only
  rw [List.cons_append, utf8Tail_succ (by omega) low high, List.cons_append,
    utf8Tail_succ (by omega) (by omega) (by omega), List.cons_append,
    utf8Tail_succ (by omega) (by omega) (by omega), code, utf8Tail, Char.ofNat_toNat]
  rfl

theorem readsAs_utf8Bytes (char : Char) : ReadsAs char (utf8Bytes char) := by
  have valid : char.toNat < 0xD800 ∨ 0xDFFF < char.toNat ∧ char.toNat < 0x110000 := char.valid
  have powers : Nat.pow 2 0 = 1 ∧ Nat.pow 2 6 = 64 ∧ Nat.pow 2 12 = 4096 := by decide
  simp only [utf8Bytes, powers, Nat.div_one]
  split
  · next one =>
      refine ⟨_, [], rfl, fun rest => ?_⟩
      simp only [utf8Piece, utf8Lead?_one one, utf8Tail, Char.ofNat_toNat]
      rfl
  · split
    · exact readsAs_two (by omega) (by omega)
    · split
      · exact readsAs_three (by omega) (by omega) (by omega)
      · exact readsAs_four (by omega) (by omega)

/-- The pieces of characters in UTF-8 are these characters, as far as the limit goes. -/
theorem utf8Pieces_utf8Bytes (chars : List Char) (limit offset : Nat)
    (enough : (chars.flatMap utf8Bytes).length ≤ limit) :
    utf8Pieces limit offset (chars.flatMap utf8Bytes) = chars.map Except.ok := by
  induction chars generalizing limit offset with
  | nil => cases limit <;> rfl
  | cons char rest ih =>
      obtain ⟨byte, tail, bytes, reads⟩ := readsAs_utf8Bytes char
      have whole : (char :: rest).flatMap utf8Bytes =
          byte :: (tail ++ rest.flatMap utf8Bytes) := by
        rw [List.flatMap_cons, bytes]
        rfl
      rw [whole] at enough ⊢
      cases limit with
      | zero => cases enough
      | succ limit =>
          rw [utf8Pieces, reads]
          dsimp only
          rw [List.length_cons, List.length_append] at enough
          rw [Nat.add_sub_cancel, List.drop_left, ih _ _ (by omega), List.map_cons]

theorem mapM_id_ok {ε α : Type} (items : List α) :
    (items.map Except.ok : List (Except ε α)).mapM id = .ok items := by
  induction items with
  | nil => rfl
  | cons item rest ih =>
      rw [List.map_cons, List.mapM_cons, ih]
      rfl

theorem mapM_eq_none_iff {α β : Type} {select : α → Option β} {items : List α} :
    items.mapM select = none ↔ ∃ item ∈ items, select item = none := by
  induction items with
  | nil =>
      constructor
      · exact fun refused => nomatch refused
      · rintro ⟨item, member, -⟩
        cases member
  | cons item rest ih =>
      rw [List.mapM_cons]
      cases first : select item with
      | none => exact ⟨fun _ => ⟨item, List.mem_cons_self, first⟩, fun _ => rfl⟩
      | some value =>
          cases later : rest.mapM select with
          | none =>
              obtain ⟨other, member, refused⟩ := ih.mp later
              exact ⟨fun _ => ⟨other, List.mem_cons_of_mem item member, refused⟩, fun _ => rfl⟩
          | some values =>
              constructor
              · exact fun refused => nomatch refused
              · rintro ⟨other, member, refused⟩
                rcases List.mem_cons.mp member with rfl | member
                · rw [first] at refused
                  cases refused
                · rw [ih.mpr ⟨other, member, refused⟩] at later
                  cases later

theorem mapM_singleton_eq_none_iff {α β : Type} {select : α → Option β} {item : α} :
    [item].mapM select = none ↔ select item = none := by
  rw [mapM_eq_none_iff]
  simp

/-- Items that a selection takes, and that can be had back from what it makes of them. -/
theorem map_eq_of_mapM_eq_some {α β : Type} {select : α → Option β} {back : β → α}
    (returns : ∀ {item value}, select item = some value → back value = item) {items : List α}
    {values : List β} (selected : items.mapM select = some values) : values.map back = items := by
  induction items generalizing values with
  | nil =>
      cases selected
      rfl
  | cons item rest ih =>
      rw [List.mapM_cons] at selected
      obtain ⟨value, first, selected⟩ := Option.bind_eq_some_iff.mp selected
      obtain ⟨others, later, same⟩ := Option.bind_eq_some_iff.mp selected
      cases same
      rw [List.map_cons, returns first, ih later]

namespace Text

theorem chars?_ofChars (chars : List Char) : (ofChars chars).chars? = some chars := by
  induction chars with
  | nil => rfl
  | cons char rest ih =>
      rw [chars?] at ih ⊢
      rw [ofChars, List.map_cons, List.mapM_cons, ← ofChars, ih]
      rfl

theorem ofChars_of_chars? {text : Text} {chars : List Char} (plain : text.chars? = some chars) :
    ofChars chars = text := by
  refine map_eq_of_mapM_eq_some ?_ plain
  intro point char same
  cases point <;> cases same
  rfl

theorem ofUtf8_of_toUtf8? {text : Text} {bytes : List UInt8} (encoded : text.toUtf8? = some bytes) :
    ofUtf8 bytes = .ok text := by
  obtain ⟨chars, plain, rfl⟩ := Option.map_eq_some_iff.mp encoded
  rw [ofUtf8, utf8Pieces_utf8Bytes chars _ 0 (Nat.le_refl _), mapM_id_ok, ← ofChars_of_chars? plain]
  rfl

end Text

end CodeProse
