import CodeProse.Proofs.Json.Reader
import CodeProse.Proofs.Sequence

/-!
# Reading written values

Values without fractions, with integers of a readable length and with distinct names in every
object, are read from their JSON texts as they were: with all characters kept, and in ASCII as well
unless a text holds both halves of a surrogate pair side by side.
So two of them that are written alike are the same, and no text of one holds a control character.
-/

set_option autoImplicit false

namespace CodeProse.Json

variable {charset : Charset} {limit depth : Nat} {rest : Text}

theorem readValue_ofInt_append {value : Int} (ends : EndsValue rest)
    (writable : isUnwritable value = false) :
    readValue (limit + 1) depth (Text.ofInt value ++ rest) = .ok (int value, rest) := by
  have short := isUnwritable_eq_false_iff.mp writable
  cases value with
  | ofNat number =>
      obtain ⟨first, behind, shape, digit⟩ := Text.exists_ofNat_eq_cons number
      have read := readNumber_ofNat_append false number ends short
      rw [shape] at read
      rw [Text.ofInt, shape]
      exact (readValue_of_isDigit digit).trans read
  | negSucc number =>
      obtain ⟨first, behind, shape, digit⟩ := Text.exists_ofNat_eq_cons (number + 1)
      have read := readNumber_ofNat_append true (number + 1) ends short
      rw [shape] at read
      rw [Text.ofInt, shape]
      exact (readValue_of_minus digit).trans read

theorem skipSpace_cons {first : CodePoint} {behind : Text} (other : isSpace first = false) :
    skipSpace (first :: behind) = first :: behind :=
  List.dropWhile_cons_of_neg (by simp [other])

-- A text that starts with a blank would be skipped into, and one that starts with a bracket would
-- close an empty array. The length of the text bounds the number of its parts.
/-- A value whose text starts like a value, and from whose text it is read wherever it ends. -/
structure ReadBack (charset : Charset) (depth : Nat) (value : Json) : Prop where
  starts : ∃ first behind, write charset value = first :: behind ∧ isSpace first = false ∧
    first ≠ ']'
  reads : ∀ {limit : Nat} {rest : Text}, (write charset value).length ≤ limit → EndsValue rest →
    readValue limit depth (write charset value ++ rest) = .ok (value, rest)

theorem ReadBack.skipSpace_write {value : Json} (back : ReadBack charset depth value)
    (rest : Text) :
    skipSpace (write charset value ++ rest) = write charset value ++ rest := by
  obtain ⟨first, behind, shape, other, -⟩ := back.starts
  rw [shape]
  exact skipSpace_cons other

section Items

variable {item : Json} {items : List Json} {text behind : Text}

theorem readItems_last (read : readValue limit depth text = .ok (item, .scalar ']' :: rest)) :
    readItems (limit + 1) depth text = .ok ([item], rest) := by
  rw [readItems, read]
  rfl

theorem readItems_further
    (read : readValue limit depth text = .ok (item, .scalar ',' :: .scalar ' ' :: behind))
    (more : readItems limit depth (skipSpace behind) = .ok (items, rest)) :
    readItems (limit + 1) depth text = .ok (item :: items, rest) := by
  have blank : skipSpace (.scalar ' ' :: behind) = skipSpace behind := rfl
  rw [readItems, read]
  change (readItems limit depth (skipSpace (.scalar ' ' :: behind))).bind _ = _
  rw [blank, more]
  rfl

theorem writeItems_cons_append :
    writeItems charset (item :: items) ++ rest =
      .scalar ',' :: .scalar ' ' :: (write charset item ++ (writeItems charset items ++ rest)) := by
  simp [writeItems]

theorem endsValue_writeItems (items : List Json) :
    EndsValue (writeItems charset items ++ rest) := by
  rintro mark first
  cases items with
  | nil => exact .inr (.inl (Option.some.inj first).symm)
  | cons item items => exact .inl (Option.some.inj first).symm

theorem readItems_write (back : ∀ value ∈ item :: items, ReadBack charset depth value)
    (enough : (write charset item).length + (writeItems charset items).length ≤ limit) :
    readItems limit depth (write charset item ++ (writeItems charset items ++ rest)) =
      .ok (item :: items, rest) := by
  have ends : EndsValue (writeItems charset items ++ rest) := endsValue_writeItems items
  induction items generalizing item limit with
  | nil =>
      rw [writeItems, List.length_singleton] at enough
      cases limit with
      | zero => exact absurd enough (Nat.not_succ_le_zero _)
      | succ limit =>
          have here := back item List.mem_cons_self
          exact readItems_last (here.reads (Nat.le_of_succ_le_succ enough) ends)
  | cons next items ih =>
      obtain ⟨here, further⟩ := List.forall_mem_cons.mp back
      have size : (writeItems charset (next :: items)).length =
          (write charset next).length + (writeItems charset items).length + 2 := by
        simp [writeItems]
      cases limit with
      | zero => omega
      | succ limit =>
          rw [writeItems_cons_append] at ends ⊢
          refine readItems_further (here.reads (by omega) ends) ?_
          rw [(further next List.mem_cons_self).skipSpace_write]
          exact ih further (by omega) (endsValue_writeItems items)

end Items

section Members

variable {name : Text} {value : Json} {members found : List (Text × Json)} {text behind : Text}

theorem setMember_of_not_mem (fresh : name ∉ members.map Prod.fst) :
    setMember name value members = members ++ [(name, value)] := by
  induction members with
  | nil => rfl
  | cons member members ih =>
      rw [List.map_cons, List.mem_cons, not_or] at fresh
      rw [setMember, if_neg (Ne.symm fresh.1), ih fresh.2, List.cons_append]

theorem readMembers_last (kept : charset.Keeps name)
    (read : readValue limit depth (skipSpace text) = .ok (value, .scalar '\x7d' :: rest)) :
    readMembers (limit + 1) depth found (writeString charset name ++ .scalar ':' :: text) =
      .ok (setMember name value found, rest) := by
  obtain ⟨behind, shape, reads⟩ := readString_writeString kept (.scalar ':' :: text)
  rw [shape, readMembers, reads]
  change (readValue limit depth (skipSpace text)).bind _ = _
  rw [read]
  rfl

theorem readMembers_further (kept : charset.Keeps name)
    (read : readValue limit depth (skipSpace text) =
      .ok (value, .scalar ',' :: .scalar ' ' :: behind)) :
    readMembers (limit + 1) depth found (writeString charset name ++ .scalar ':' :: text) =
      readMembers limit depth (setMember name value found) (skipSpace behind) := by
  obtain ⟨behind, shape, reads⟩ := readString_writeString kept (.scalar ':' :: text)
  rw [shape, readMembers, reads]
  change (readValue limit depth (skipSpace text)).bind _ = _
  rw [read]
  rfl

theorem writeMembers_cons_append :
    writeMembers charset ((name, value) :: members) ++ rest =
      .scalar ',' :: .scalar ' ' :: (writeString charset name ++
        .scalar ':' :: .scalar ' ' ::
          (write charset value ++ (writeMembers charset members ++ rest))) := by
  simp [writeMembers]

theorem endsValue_writeMembers (members : List (Text × Json)) :
    EndsValue (writeMembers charset members ++ rest) := by
  rintro mark first
  cases members with
  | nil => exact .inr (.inr (Option.some.inj first).symm)
  | cons member members => exact .inl (Option.some.inj first).symm

theorem readMembers_write
    (names : ∀ member ∈ (name, value) :: members, charset.Keeps member.1)
    (back : ∀ member ∈ (name, value) :: members, ReadBack charset depth member.2)
    (distinct : ((found ++ (name, value) :: members).map Prod.fst).Nodup)
    (enough : (write charset value).length + (writeMembers charset members).length ≤ limit) :
    readMembers limit depth found (writeString charset name ++
        .scalar ':' :: .scalar ' ' :: (write charset value ++ (writeMembers charset members ++ rest))) =
      .ok (found ++ (name, value) :: members, rest) := by
  have ends : EndsValue (writeMembers charset members ++ rest) := endsValue_writeMembers members
  have blank (text : Text) : skipSpace (.scalar ' ' :: text) = skipSpace text := rfl
  -- The members already found grow along the induction; under distinct names each is put last.
  induction members generalizing name value found limit with
  | nil =>
      rw [writeMembers, List.length_singleton] at enough
      rw [writeMembers, List.singleton_append] at ends ⊢
      cases limit with
      | zero => exact absurd enough (Nat.not_succ_le_zero _)
      | succ limit =>
          have here : ReadBack charset depth value := back _ List.mem_cons_self
          have read := here.reads (Nat.le_of_succ_le_succ enough) ends
          rw [← here.skipSpace_write, ← blank] at read
          rw [readMembers_last (names _ List.mem_cons_self) read,
            setMember_of_not_mem (not_mem_names_of_nodup distinct)]
  | cons next members ih =>
      have size : (writeMembers charset (next :: members)).length =
          (writeString charset next.1).length + (write charset next.2).length +
            (writeMembers charset members).length + 4 := by
        simp [writeMembers]
        omega
      cases limit with
      | zero => omega
      | succ limit =>
          have here : ReadBack charset depth value := back _ List.mem_cons_self
          have shorter : (write charset value).length ≤ limit := by omega
          have read := here.reads shorter ends
          rw [← here.skipSpace_write, ← blank, writeMembers_cons_append] at read
          rw [writeMembers_cons_append, readMembers_further (names _ List.mem_cons_self) read,
            setMember_of_not_mem (not_mem_names_of_nodup distinct)]
          have quote (text : Text) : skipSpace (writeString charset next.1 ++ text) =
              writeString charset next.1 ++ text := rfl
          rw [quote, ih (fun member known => names member (List.mem_cons_of_mem _ known))
            (fun member known => back member (List.mem_cons_of_mem _ known))
            (by simpa using distinct) (by omega) (endsValue_writeMembers members)]
          simp

end Members

theorem ReadBack.intro {value : Json}
    (starts : ∃ first behind, write charset value = first :: behind ∧ isSpace first = false ∧
      first ≠ ']')
    (reads : ∀ {limit : Nat} {rest : Text}, (write charset value).length ≤ limit + 1 →
      EndsValue rest →
      readValue (limit + 1) depth (write charset value ++ rest) = .ok (value, rest)) :
    ReadBack charset depth value := by
  refine ⟨starts, ?_⟩
  intro limit rest enough ends
  cases limit with
  | zero =>
      obtain ⟨first, behind, shape, -⟩ := starts
      rw [shape] at enough
      exact absurd enough (Nat.not_succ_le_zero _)
  | succ limit => exact reads enough ends

theorem readValue_of_word {value : Json} {text : Text}
    (word : readLiteral? text = some (value, rest)) :
    readValue (limit + 1) depth text = .ok (value, rest) := by
  rw [readValue.eq_def]
  simp only [word]

theorem readValue_string {text : Text} (kept : charset.Keeps text) :
    readValue (limit + 1) depth (writeString charset text ++ rest) = .ok (string text, rest) := by
  obtain ⟨behind, shape, reads⟩ := readString_writeString kept rest
  rw [shape, readValue, readLiteral?_of_mark (.inl rfl)]
  simp only [reads]
  rfl

theorem readValue_emptyArray :
    readValue (limit + 1) (depth + 1) (.scalar '[' :: .scalar ']' :: rest) = .ok (array [], rest) := by
  rw [readValue, readLiteral?_of_mark (.inr (.inl rfl))]
  rfl

theorem readValue_array {first : CodePoint} {text behind : Text} {items : List Json}
    (shape : skipSpace text = first :: behind) (other : first ≠ ']')
    (more : readItems limit depth (first :: behind) = .ok (items, rest)) :
    readValue (limit + 1) (depth + 1) (.scalar '[' :: text) = .ok (array items, rest) := by
  rw [readValue, readLiteral?_of_mark (.inr (.inl rfl))]
  simp only [shape]
  split
  · next same => exact absurd (List.cons.inj same).1 other
  · rw [more]
    rfl

theorem readValue_emptyObject :
    readValue (limit + 1) (depth + 1) (.scalar '\x7b' :: .scalar '\x7d' :: rest) =
      .ok (object [], rest) := by
  rw [readValue, readLiteral?_of_mark (.inr (.inr rfl))]
  rfl

theorem readValue_object {text : Text} {members : List (Text × Json)}
    (more : readMembers limit depth [] (.scalar '"' :: text) = .ok (members, rest)) :
    readValue (limit + 1) (depth + 1) (.scalar '\x7b' :: .scalar '"' :: text) =
      .ok (object members, rest) := by
  rw [readValue, readLiteral?_of_mark (.inr (.inr rfl))]
  change (readMembers limit depth [] (.scalar '"' :: text)).bind _ = _
  rw [more]
  rfl

namespace ReadBack

theorem word {value : Json} {first : CodePoint} {behind : Text}
    (shape : write charset value = first :: behind) (space : isSpace first = false)
    (other : first ≠ ']')
    (reads : ∀ rest : Text, readLiteral? (first :: behind ++ rest) = some (value, rest)) :
    ReadBack charset depth value := by
  refine .intro ⟨first, behind, shape, space, other⟩ ?_
  intro limit rest _ _
  rw [shape]
  exact readValue_of_word (reads rest)

theorem int {value : Int} (writable : isUnwritable value = false) :
    ReadBack charset depth (int value) := by
  refine .intro ?_ ?_
  · cases value with
    | ofNat number =>
        obtain ⟨first, behind, shape, digit⟩ := Text.exists_ofNat_eq_cons number
        refine ⟨first, behind, shape, ?_, (ne_of_isDigit digit rfl).1⟩
        simp [isSpace, ne_of_isDigit digit]
    | negSucc number => exact ⟨'-', _, rfl, rfl, by decide⟩
  · intro limit rest _ ends
    exact readValue_ofInt_append ends writable

theorem string {text : Text} (kept : charset.Keeps text) :
    ReadBack charset depth (string text) := by
  refine .intro ⟨'"', _, rfl, rfl, by decide⟩ ?_
  intro limit rest _ _
  exact readValue_string kept

theorem array {items : List Json} (back : ∀ item ∈ items, ReadBack charset depth item) :
    ReadBack charset (depth + 1) (array items) := by
  cases items with
  | nil =>
      refine .intro ⟨'[', _, rfl, rfl, by decide⟩ ?_
      intro limit rest _ _
      exact readValue_emptyArray
  | cons item items =>
      refine .intro ⟨'[', write charset item ++ writeItems charset items, ?_, rfl, by decide⟩ ?_
      · rw [write, List.cons_append]
      · intro limit rest enough _
        rw [write, List.cons_append] at enough ⊢
        rw [List.length_cons, List.length_append] at enough
        have here := back item List.mem_cons_self
        have more : readItems limit depth
            (write charset item ++ (writeItems charset items ++ rest)) =
              .ok (item :: items, rest) :=
          readItems_write back (Nat.le_of_succ_le_succ enough)
        have start := here.skipSpace_write (writeItems charset items ++ rest)
        obtain ⟨first, behind, shape, -, other⟩ := here.starts
        rw [shape, List.cons_append] at more start
        rw [List.cons_append, List.append_assoc, shape, List.cons_append]
        exact readValue_array start other more

theorem object {members : List (Text × Json)} (names : ∀ member ∈ members, charset.Keeps member.1)
    (distinct : (members.map Prod.fst).Nodup)
    (back : ∀ member ∈ members, ReadBack charset depth member.2) :
    ReadBack charset (depth + 1) (object members) := by
  cases members with
  | nil =>
      refine .intro ⟨'\x7b', _, rfl, rfl, by decide⟩ ?_
      intro limit rest _ _
      exact readValue_emptyObject
  | cons member members =>
      obtain ⟨name, value⟩ := member
      have shape (rest : Text) : write charset (.object ((name, value) :: members)) ++ rest =
          .scalar '\x7b' :: (writeString charset name ++
            .scalar ':' :: .scalar ' ' ::
              (write charset value ++ (writeMembers charset members ++ rest))) := by
        simp [write]
      have whole := shape []
      rw [List.append_nil] at whole
      refine .intro ⟨'\x7b', _, whole, rfl, by decide⟩ ?_
      intro limit rest enough _
      have fits : (write charset value).length + (writeMembers charset members).length ≤ limit := by
        simp [whole] at enough
        omega
      rw [shape]
      exact readValue_object (readMembers_write names back distinct fits)

end ReadBack

/-- The values that are read as they were written in a character set, with collections nested at
most `depth` levels deep. -/
inductive IsReadable (charset : Charset) : Nat → Json → Prop where
  | null {depth : Nat} : IsReadable charset depth null
  | bool {depth : Nat} {value : Bool} : IsReadable charset depth (bool value)
  | int {depth : Nat} {value : Int} (writable : isUnwritable value = false) :
      IsReadable charset depth (int value)
  | string {depth : Nat} {text : Text} (kept : charset.Keeps text) :
      IsReadable charset depth (string text)
  | array {depth : Nat} {items : List Json}
      (parts : ∀ item ∈ items, IsReadable charset depth item) :
      IsReadable charset (depth + 1) (array items)
  | object {depth : Nat} {members : List (Text × Json)}
      (names : ∀ member ∈ members, charset.Keeps member.1)
      (distinct : (members.map Prod.fst).Nodup)
      (parts : ∀ member ∈ members, IsReadable charset depth member.2) :
      IsReadable charset (depth + 1) (object members)

theorem IsReadable.readBack {value : Json} (readable : IsReadable charset depth value) :
    ReadBack charset depth value := by
  induction readable with
  | null => exact .word rfl rfl (by decide) fun _ => rfl
  | @bool _ value =>
      cases value with
      | false => exact .word rfl rfl (by decide) fun _ => rfl
      | true => exact .word rfl rfl (by decide) fun _ => rfl
  | int writable => exact .int writable
  | string kept => exact .string kept
  | array _ ih => exact .array ih
  | object names distinct _ ih => exact .object names distinct ih

theorem read_write {value : Json} (readable : IsReadable charset depth value) :
    read depth (write charset value) = .ok value := by
  have back : ReadBack charset depth value := readable.readBack
  have start := back.skipSpace_write []
  have enough : (write charset value).length ≤ 2 * (write charset value).length + 2 := by omega
  have reads := back.reads enough endsValue_nil
  rw [List.append_nil] at start reads
  rw [read, start, reads]
  rfl

theorem write_inj {left right : Json} (leftReadable : IsReadable charset depth left)
    (rightReadable : IsReadable charset depth right)
    (same : write charset left = write charset right) : left = right := by
  have reads : read depth (write charset left) = .ok left := read_write leftReadable
  rw [same, read_write rightReadable] at reads
  exact (Except.ok.inj reads).symm

section Printable

theorem isPrintable_writeItems {items : List Json}
    (parts : ∀ item ∈ items, IsPrintable (write charset item)) :
    IsPrintable (writeItems charset items) := by
  induction items with
  | nil => exact (by decide : IsPrintable [']'])
  | cons item items ih =>
      obtain ⟨here, further⟩ := List.forall_mem_cons.mp parts
      have comma : IsPrintable ", ".toText := by decide
      exact isPrintable_append (isPrintable_append comma here) (ih further)

theorem isPrintable_member (name : Text) {value : Json} (part : IsPrintable (write charset value)) :
    IsPrintable (writeString charset name ++ ": ".toText ++ write charset value) := by
  have colon : IsPrintable ": ".toText := by decide
  exact isPrintable_append (isPrintable_append (isPrintable_writeString charset name) colon) part

theorem isPrintable_writeMembers {members : List (Text × Json)}
    (parts : ∀ member ∈ members, IsPrintable (write charset member.2)) :
    IsPrintable (writeMembers charset members) := by
  induction members with
  | nil => exact (by decide : IsPrintable ['\x7d'])
  | cons member members ih =>
      obtain ⟨here, further⟩ := List.forall_mem_cons.mp parts
      have comma : IsPrintable ", ".toText := by decide
      have whole := isPrintable_append
        (isPrintable_append comma (isPrintable_member member.1 here)) (ih further)
      simpa only [writeMembers, List.append_assoc] using whole

/-- The text of a readable value holds no control character. -/
theorem IsReadable.isPrintable {value : Json} (readable : IsReadable charset depth value) :
    IsPrintable (write charset value) := by
  induction readable with
  | null => exact (by decide : IsPrintable "null".toText)
  | @bool _ value =>
      cases value with
      | false => exact (by decide : IsPrintable "false".toText)
      | true => exact (by decide : IsPrintable "true".toText)
  | @int _ value _ => exact isPrintable_ofInt value
  | @string _ text _ => exact isPrintable_writeString charset text
  | @array _ items _ ih =>
      cases items with
      | nil => exact (by decide : IsPrintable ['[', ']'])
      | cons item items =>
          obtain ⟨here, further⟩ := List.forall_mem_cons.mp ih
          have bracket : IsPrintable ['['] := by decide
          exact isPrintable_append (isPrintable_append bracket here)
            (isPrintable_writeItems further)
  | @object _ members _ _ _ ih =>
      cases members with
      | nil => exact (by decide : IsPrintable ['\x7b', '\x7d'])
      | cons member members =>
          obtain ⟨here, further⟩ := List.forall_mem_cons.mp ih
          have brace : IsPrintable ['\x7b'] := by decide
          have whole := isPrintable_append brace (isPrintable_append
            (isPrintable_member member.1 here) (isPrintable_writeMembers further))
          simpa [write] using whole

end Printable

end CodeProse.Json
