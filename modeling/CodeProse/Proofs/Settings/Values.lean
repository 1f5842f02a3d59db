import CodeProse.Proofs.Files.Tree
import CodeProse.Proofs.Numeric.Limit
import CodeProse.Proofs.Sequence
import CodeProse.Settings.Reading

/-!
# What the values of a settings file stand for

A value is of use as a text, as a number or as a truth value, and often in more than one way: a text
of digits stands for a whole number as well. A truth value is no number. Reading fails for whole
numbers beyond the binary64 format only.
-/

set_option autoImplicit false

namespace CodeProse

namespace Yaml.Value

/-- A value stands for a text: a text, or a number as it is written. -/
inductive IsText : Value → Text → Prop where
  | text (text : Text) : IsText (.text text) text
  | int (number : Int) : IsText (.int number) (Text.ofInt number)
  | real (number : Binary64) : IsText (.real number) number.shortest

/-- A value stands for a whole number. -/
inductive IsWhole : Value → Int → Prop where
  | int (number : Int) : IsWhole (.int number) number
  | text {text : Text} {number : Int} (read : readInt? text = some number) :
      IsWhole (.text text) number

/-- A value stands for a number of the binary64 format. -/
inductive IsReal : Value → Binary64 → Prop where
  | real (number : Binary64) : IsReal (.real number) number
  | int {whole : Int} {number : Binary64} (nearest : Binary64.ofInt? whole = some number) :
      IsReal (.int whole) number
  | text {text : Text} {number : Binary64} (read : readBinary64? text = some number) :
      IsReal (.text text) number

/-- A value stands for a truth value. -/
inductive IsFlag : Value → Bool → Prop where
  | bool (flag : Bool) : IsFlag (.bool flag) flag
  | yes {text : Text} (word : Text.asciiLower (Text.trim text) ∈ ["true".toText, "yes", "1"]) :
      IsFlag (.text text) true
  | no {text : Text} (word : Text.asciiLower (Text.trim text) ∈ ["false".toText, "no", "0"]) :
      IsFlag (.text text) false

/-- An item of a list stands for a text; a truth value does so by its name. -/
inductive IsItem : Value → Text → Prop where
  | ofText {value : Value} {text : Text} (stands : value.IsText text) : IsItem value text
  | true : IsItem (.bool true) "True"
  | false : IsItem (.bool false) "False"

/-- A value stands for a list of texts: a text for itself, a list for those of its items that stand
for a text, bytes for their numbers, and every other value for none. -/
inductive IsTexts : Value → List Text → Prop where
  | text (text : Text) : IsTexts (.text text) [text]
  | bytes (data : List UInt8) :
      IsTexts (.bytes data) (data.map fun byte => Text.ofNat byte.toNat)
  | list {items : List Value} {texts : List Text} (picks : Picks IsItem items texts) :
      IsTexts (.list items) texts
  | other {value : Value} (noText : ∀ text, value ≠ .text text)
      (noBytes : ∀ data, value ≠ .bytes data) (noList : ∀ items, value ≠ .list items) :
      IsTexts value []

section Uniqueness

variable {value : Value}

theorem IsText.unique {text other : Text} (first : value.IsText text)
    (second : value.IsText other) : text = other := by
  cases first <;> cases second <;> rfl

theorem IsReal.unique {number other : Binary64} (first : value.IsReal number)
    (second : value.IsReal other) : number = other := by
  cases first with
  | real => cases second; rfl
  | int nearest =>
      cases second with
      | int also => exact Option.some.inj (nearest.symm.trans also)
  | text read =>
      cases second with
      | text also => exact Option.some.inj (read.symm.trans also)

theorem IsItem.unique {text other : Text} (first : value.IsItem text)
    (second : value.IsItem other) : text = other := by
  cases first with
  | ofText stands =>
      cases second with
      | ofText also => exact stands.unique also
      | true => cases stands
      | false => cases stands
  | true =>
      cases second with
      | ofText stands => cases stands
      | true => rfl
  | false =>
      cases second with
      | ofText stands => cases stands
      | false => rfl

theorem IsTexts.unique {texts others : List Text} (first : value.IsTexts texts)
    (second : value.IsTexts others) : texts = others := by
  cases first with
  | text text =>
      cases second with
      | text => rfl
      | other noText => exact absurd rfl (noText text)
  | bytes data =>
      cases second with
      | bytes => rfl
      | other _ noBytes => exact absurd rfl (noBytes data)
  | list picks =>
      cases second with
      | list also => exact picks.unique (fun _ _ _ stands also => stands.unique also) also
      | other _ _ noList => exact absurd rfl (noList _)
  | other noText noBytes noList =>
      cases second with
      | text text => exact absurd rfl (noText text)
      | bytes data => exact absurd rfl (noBytes data)
      | list => exact absurd rfl (noList _)
      | other => rfl

end Uniqueness

section Reading

variable {value : Value}

theorem text?_eq_some_iff {text? : Option Text} (read : value.text? = .ok text?) (text : Text) :
    text? = some text ↔ value.IsText text := by
  revert read
  fun_cases Value.text? value with
  | case1 own =>
      rintro ⟨⟩
      exact ⟨fun same => Option.some.inj same ▸ .text own, fun stands => by cases stands; rfl⟩
  | case2 number =>
      rw [integerText]
      split
      · exact fun failed => nomatch failed
      · rintro ⟨⟩
        exact ⟨fun same => Option.some.inj same ▸ .int number, fun stands => by cases stands; rfl⟩
  | case3 number =>
      rintro ⟨⟩
      exact ⟨fun same => Option.some.inj same ▸ .real number, fun stands => by cases stands; rfl⟩
  | case4 _ noText noInt noReal =>
      rintro ⟨⟩
      refine ⟨fun same => (nomatch same), fun stands => ?_⟩
      cases stands with
      | text text => exact absurd rfl (noText text)
      | int number => exact absurd rfl (noInt number)
      | real number => exact absurd rfl (noReal number)

theorem int?_eq_some_iff (number : Int) : value.int? = some number ↔ value.IsWhole number := by
  fun_cases Value.int? value with
  | case1 own =>
      exact ⟨fun same => Option.some.inj same ▸ .int own, fun stands => by cases stands; rfl⟩
  | case2 text => exact ⟨.text, fun stands => by cases stands with | text read => exact read⟩
  | case3 _ noInt noText =>
      refine ⟨fun same => (nomatch same), fun stands => ?_⟩
      cases stands with
      | int => exact absurd rfl (noInt number)
      | @text text => exact absurd rfl (noText text)

theorem IsWhole.unique {number other : Int} (first : value.IsWhole number)
    (second : value.IsWhole other) : number = other :=
  Option.some.inj (((int?_eq_some_iff number).mpr first).symm.trans
    ((int?_eq_some_iff other).mpr second))

theorem real?_eq_some_iff {real? : Option Binary64} (read : value.real? = .ok real?)
    (number : Binary64) : real? = some number ↔ value.IsReal number := by
  revert read
  fun_cases Value.real? value with
  | case1 whole own nearest =>
      rintro ⟨⟩
      refine ⟨fun same => Option.some.inj same ▸ .int nearest, fun stands => ?_⟩
      cases stands with
      | int also => exact nearest.symm.trans also
  | case2 => exact fun failed => nomatch failed
  | case3 own =>
      rintro ⟨⟩
      exact ⟨fun same => Option.some.inj same ▸ .real own, fun stands => by cases stands; rfl⟩
  | case4 text =>
      rintro ⟨⟩
      exact ⟨.text, fun stands => by cases stands with | text read => exact read⟩
  | case5 _ noInt noReal noText =>
      rintro ⟨⟩
      refine ⟨fun same => (nomatch same), fun stands => ?_⟩
      cases stands with
      | real => exact absurd rfl (noReal number)
      | @int whole => exact absurd rfl (noInt whole)
      | @text text => exact absurd rfl (noText text)

theorem bool?_eq_some_iff (flag : Bool) : value.bool? = some flag ↔ value.IsFlag flag := by
  have apart : ∀ word ∈ ["true".toText, "yes", "1"], word ∉ ["false".toText, "no", "0"] := by
    decide
  fun_cases Value.bool? value with
  | case1 own =>
      exact ⟨fun same => Option.some.inj same ▸ .bool own, fun stands => by cases stands; rfl⟩
  | case2 text word yes =>
      refine ⟨fun same => Option.some.inj same ▸ .yes (List.contains_iff_mem.mp yes),
        fun stands => ?_⟩
      cases stands with
      | yes => rfl
      | no also => exact absurd also (apart _ (List.contains_iff_mem.mp yes))
  | case3 text word noYes no =>
      refine ⟨fun same => Option.some.inj same ▸ .no (List.contains_iff_mem.mp no),
        fun stands => ?_⟩
      cases stands with
      | yes also => exact absurd (List.contains_iff_mem.mpr also) noYes
      | no => rfl
  | case4 text word noYes noNo =>
      refine ⟨fun same => (nomatch same), fun stands => ?_⟩
      cases stands with
      | yes yes => exact absurd (List.contains_iff_mem.mpr yes) noYes
      | no no => exact absurd (List.contains_iff_mem.mpr no) noNo
  | case5 _ noBool noText =>
      refine ⟨fun same => (nomatch same), fun stands => ?_⟩
      cases stands with
      | bool => exact absurd rfl (noBool flag)
      | @yes text => exact absurd rfl (noText text)
      | @no text => exact absurd rfl (noText text)

theorem IsFlag.unique {flag other : Bool} (first : value.IsFlag flag)
    (second : value.IsFlag other) : flag = other :=
  Option.some.inj (((bool?_eq_some_iff flag).mpr first).symm.trans
    ((bool?_eq_some_iff other).mpr second))

theorem itemText?_eq_some_iff {text? : Option Text} (read : value.itemText? = .ok text?)
    (text : Text) : text? = some text ↔ value.IsItem text := by
  revert read
  fun_cases Value.itemText? value with
  | case1 =>
      rintro ⟨⟩
      refine ⟨fun same => Option.some.inj same ▸ .true, fun stands => ?_⟩
      cases stands with
      | ofText stands => cases stands
      | true => rfl
  | case2 =>
      rintro ⟨⟩
      refine ⟨fun same => Option.some.inj same ▸ .false, fun stands => ?_⟩
      cases stands with
      | ofText stands => cases stands
      | false => rfl
  | case3 _ noTrue noFalse =>
      intro read
      refine (text?_eq_some_iff read text).trans ⟨.ofText, fun stands => ?_⟩
      cases stands with
      | ofText stands => exact stands
      | true => exact absurd rfl noTrue
      | false => exact absurd rfl noFalse

theorem picks_of_mapM_itemText? {items : List Value} {texts? : List (Option Text)}
    (read : items.mapM itemText? = .ok texts?) : Picks IsItem items (texts?.filterMap id) := by
  induction items generalizing texts? with
  | nil =>
      cases read
      exact .nil
  | cons item rest ih =>
      rw [List.mapM_cons] at read
      obtain ⟨text?, here, read⟩ := bind_eq_ok_iff.mp read
      obtain ⟨others, later, read⟩ := bind_eq_ok_iff.mp read
      obtain rfl := Except.ok.inj read
      have stands := itemText?_eq_some_iff here
      have further := ih later
      cases text? with
      | none => exact .skip (fun text stood => nomatch (stands text).mpr stood) further
      | some text => exact .keep ((stands text).mp rfl) further

theorem isTexts_of_texts {texts : List Text} (read : value.texts = .ok texts) :
    value.IsTexts texts := by
  revert read
  fun_cases Value.texts value with
  | case1 text =>
      rintro ⟨⟩
      exact .text text
  | case2 data =>
      rintro ⟨⟩
      exact .bytes data
  | case3 items =>
      intro read
      cases listed : items.mapM itemText? with
      | error fault =>
          rw [listed] at read
          cases read
      | ok texts? =>
          rw [listed] at read
          cases read
          exact .list (picks_of_mapM_itemText? listed)
  | case4 _ noText noBytes noList =>
      rintro ⟨⟩
      exact .other noText noBytes noList

end Reading

/-- A whole number stands in a value, at any depth. -/
inductive HasInt (number : Int) : Value → Prop where
  | here : HasInt number (.int number)
  | item {items : List Value} {item : Value} (member : item ∈ items)
      (inside : HasInt number item) : HasInt number (.list items)
  | entry {entries : List (Text × Value)} {entry : Text × Value} (member : entry ∈ entries)
      (inside : HasInt number entry.2) : HasInt number (.mapping entries)

/-- Every whole number in a value lies within the binary64 format. -/
def IsConvertible (value : Value) : Prop :=
  ∀ number, HasInt number value → number.natAbs < Binary64.limit

section Convertible

variable {value : Value}

@[simp] theorem isConvertible_null : IsConvertible .null :=
  fun _ inside => nomatch inside

@[simp] theorem isConvertible_bool (flag : Bool) : IsConvertible (.bool flag) :=
  fun _ inside => nomatch inside

@[simp] theorem isConvertible_text (text : Text) : IsConvertible (.text text) :=
  fun _ inside => nomatch inside

@[simp] theorem isConvertible_int_iff {number : Int} :
    IsConvertible (.int number) ↔ number.natAbs < Binary64.limit := by
  refine ⟨fun convertible => convertible number .here, fun within other inside => ?_⟩
  cases inside
  exact within

@[simp] theorem isConvertible_list_iff {items : List Value} :
    IsConvertible (.list items) ↔ ∀ item ∈ items, item.IsConvertible := by
  refine ⟨fun convertible item member number inside => convertible number (.item member inside),
    fun all number inside => ?_⟩
  cases inside with
  | item member inside => exact all _ member number inside

@[simp] theorem isConvertible_mapping_iff {entries : List (Text × Value)} :
    IsConvertible (.mapping entries) ↔ ∀ entry ∈ entries, entry.2.IsConvertible := by
  refine ⟨fun convertible entry member number inside => convertible number (.entry member inside),
    fun all number inside => ?_⟩
  cases inside with
  | entry member inside => exact all _ member number inside

/-- The entries of a convertible value are convertible, and so is what is taken for a missing one. -/
theorem IsConvertible.entryOf (convertible : value.IsConvertible) (name : Text) :
    (CodeProse.entryOf value.entries name).IsConvertible := by
  cases value with
  | mapping entries =>
      rw [CodeProse.entryOf, Value.entries, entry?]
      cases found : entries.reverse.lookup name with
      | none => exact isConvertible_null
      | some value =>
          obtain ⟨front, back, same, -⟩ := List.lookup_eq_some_iff.mp found
          have member : (name, value) ∈ entries := by
            rw [← List.mem_reverse, same]
            exact List.mem_append_right front List.mem_cons_self
          exact isConvertible_mapping_iff.mp convertible (name, value) member
  | _ => exact isConvertible_null

theorem limit_lt : Binary64.limit < Nat.pow 10 integerDigitLimit := by
  decide +kernel

theorem IsConvertible.exists_text? (convertible : value.IsConvertible) :
    ∃ text?, value.text? = .ok text? := by
  cases value with
  | int number =>
      have within : ¬ Nat.pow 10 integerDigitLimit ≤ number.natAbs :=
        Nat.not_le.mpr ((isConvertible_int_iff.mp convertible).trans limit_lt)
      have writable : isUnwritable number = false := decide_eq_false within
      exact ⟨some (Text.ofInt number), by rw [text?, integerText, writable]; rfl⟩
  | _ => exact ⟨_, rfl⟩

theorem IsConvertible.exists_real? (convertible : value.IsConvertible) :
    ∃ real?, value.real? = .ok real? := by
  fun_cases Value.real? value with
  | case2 whole beyond =>
      exact absurd (isConvertible_int_iff.mp convertible)
        (Nat.not_lt.mpr ((Binary64.ofInt?_eq_none_iff whole).mp beyond))
  | _ => exact ⟨_, rfl⟩

theorem IsConvertible.exists_itemText? (convertible : value.IsConvertible) :
    ∃ text?, value.itemText? = .ok text? := by
  fun_cases Value.itemText? value with
  | case3 => exact convertible.exists_text?
  | _ => exact ⟨_, rfl⟩

theorem exists_mapM_itemText? {items : List Value}
    (convertible : ∀ item ∈ items, item.IsConvertible) :
    ∃ texts?, items.mapM itemText? = .ok texts? := by
  induction items with
  | nil => exact ⟨[], rfl⟩
  | cons item rest ih =>
      rw [List.forall_mem_cons] at convertible
      obtain ⟨text?, here⟩ := convertible.1.exists_itemText?
      obtain ⟨texts?, later⟩ := ih convertible.2
      refine ⟨text? :: texts?, ?_⟩
      rw [List.mapM_cons, here, later]
      rfl

theorem IsConvertible.exists_texts (convertible : value.IsConvertible) :
    ∃ texts, value.texts = .ok texts := by
  cases value with
  | list items =>
      obtain ⟨texts?, listed⟩ := exists_mapM_itemText? (isConvertible_list_iff.mp convertible)
      refine ⟨texts?.filterMap id, ?_⟩
      rw [texts, listed]
      rfl
  | _ => exact ⟨_, rfl⟩

end Convertible

end Yaml.Value

end CodeProse
