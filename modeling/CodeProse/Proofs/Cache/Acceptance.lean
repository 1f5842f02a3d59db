import CodeProse.Proofs.Cache.Failures
import CodeProse.Proofs.Json.Faults
import CodeProse.Proofs.Json.Values
import Mathlib.Data.List.Induction

/-!
# What is accepted as a cache

The JSON texts from which a cache takes entries and counts are those of one form, told member by
member. Of entries under one digest the last one counts, in the place of the first. Any other text
leaves the cache as it is.
-/

set_option autoImplicit false

namespace CodeProse.Cache

/-- An item lists the entry of a digest: with a text, and with three integers, which are no truth
values. -/
inductive ListsEntry : Json → Text × CacheEntry → Prop where
  | intro {digest : Text} {members : List (Text × Json)} {entry : CacheEntry}
      (value : Json.member? "value" members = some (.string entry.value))
      (timestamp : Json.member? "timestamp" members = some (.int entry.timestamp))
      (hits : Json.member? "hits" members = some (.int entry.hits))
      (size : Json.member? "size" members = some (.int entry.size)) :
      ListsEntry (.array [.string digest, .object members]) (digest, entry)

/-- An object lists a count under a name. A missing one is zero, and a truth value is one. -/
inductive ListsCount (name : Text) (members : List (Text × Json)) : Counter → Prop where
  | missing (none : Json.member? name members = none) : ListsCount name members (.number 0)
  | number {value : Int} (given : Json.member? name members = some (.int value)) :
      ListsCount name members (.number value)
  | flag {value : Bool} (given : Json.member? name members = some (.bool value)) :
      ListsCount name members (.flag value)

/-- A JSON value lists the entries and the counts of a cache. -/
inductive ListsCache : Json → List (Text × CacheEntry) → Counter → Counter → Prop where
  | intro {members counts : List (Text × Json)} {items : List Json}
      {listed : List (Text × CacheEntry)} {hits misses : Counter}
      (cache : Json.member? "cache" members = some (.array items))
      (stats : Json.member? "stats" members = some (.object counts))
      (entries : List.Forall₂ ListsEntry items listed)
      (found : ListsCount "hits" counts hits) (missed : ListsCount "misses" counts misses) :
      ListsCache (.object members) listed hits misses

/-- Some entries are the listed ones, each digest in the place where it is listed first, and with
the entry that is listed last. -/
structure Gathers (listed entries : List (Text × CacheEntry)) : Prop where
  places : entries.map Prod.fst = (listed.map Prod.fst).eraseDups
  latest : ∀ digest, entries.lookup digest = listed.reverse.lookup digest

/-- A text is one of a cache, for a reader that takes collections so deep. -/
def IsCacheText (depth : Nat) (text : Text) : Prop :=
  ∃ value listed hits misses, Json.read depth text = .ok value ∧
    ListsCache value listed hits misses

/-- What a cache becomes by a text: it takes the entries and the counts, and keeps its limits. -/
inductive Takes (depth : Nat) (cache : Cache) (text : Text) : Cache → Prop where
  | intro {value : Json} {listed entries : List (Text × CacheEntry)} {hits misses : Counter}
      (read : Json.read depth text = .ok value) (lists : ListsCache value listed hits misses)
      (gathers : Gathers listed entries) :
      Takes depth cache text { cache with entries, hits, misses }

section Gathering

variable {listed entries other : List (Text × CacheEntry)}

def gathered (listed : List (Text × CacheEntry)) : List (Text × CacheEntry) :=
  listed.foldl (fun entries entry => setEntry entry.1 entry.2 entries) []

theorem lookup_setEntry_self (digest : Text) (entry : CacheEntry)
    (entries : List (Text × CacheEntry)) :
    (setEntry digest entry entries).lookup digest = some entry := by
  induction entries with
  | nil => exact List.lookup_cons_self
  | cons first rest ih =>
      rw [setEntry]
      split
      · exact List.lookup_cons_self
      · next other => rw [lookup_cons_of_ne (Ne.symm other), ih]

theorem lookup_setEntry_of_ne {digest own : Text} (different : own ≠ digest) (entry : CacheEntry)
    (entries : List (Text × CacheEntry)) :
    (setEntry digest entry entries).lookup own = entries.lookup own := by
  induction entries with
  | nil => exact lookup_cons_of_ne different
  | cons first rest ih =>
      rw [setEntry]
      split
      · next same =>
          rw [lookup_cons_of_ne different, lookup_cons_of_ne (same ▸ different)]
      · rw [List.lookup_cons, List.lookup_cons, ih]

theorem nodup_gathered (listed : List (Text × CacheEntry)) :
    ((gathered listed).map Prod.fst).Nodup := by
  induction listed using List.reverseRecOn with
  | nil => exact List.nodup_nil
  | append_singleton front entry ih =>
      rw [gathered, List.foldl_concat]
      exact nodup_setEntry ih

theorem gathers_gathered (listed : List (Text × CacheEntry)) :
    Gathers listed (gathered listed) := by
  induction listed using List.reverseRecOn with
  | nil => exact ⟨rfl, fun _ => rfl⟩
  | append_singleton front entry ih =>
      have step : gathered (front ++ [entry]) = setEntry entry.1 entry.2 (gathered front) :=
        List.foldl_concat ..
      obtain ⟨places, latest⟩ := ih
      rw [step]
      constructor
      case places =>
        rw [List.map_append, List.map_singleton]
        by_cases known : entry.1 ∈ front.map Prod.fst
        · have placed : entry.1 ∈ (gathered front).map Prod.fst := by
            rwa [places, List.mem_eraseDups]
          rw [map_fst_setEntry_of_mem placed, eraseDups_concat_of_mem known, places]
        · have fresh : entry.1 ∉ (gathered front).map Prod.fst := by
            rwa [places, List.mem_eraseDups]
          rw [setEntry_of_not_mem fresh, eraseDups_concat_of_not_mem known, List.map_append, places]
          rfl
      case latest =>
        intro digest
        rw [List.reverse_append, List.reverse_singleton, List.singleton_append]
        by_cases own : digest = entry.1
        · rw [own, lookup_setEntry_self, List.lookup_cons_self]
        · rw [lookup_setEntry_of_ne own, lookup_cons_of_ne own, latest]

theorem gathers_iff : Gathers listed entries ↔ entries = gathered listed := by
  have own := gathers_gathered listed
  constructor
  · intro gathers
    refine (eq_of_lookup_eq (nodup_gathered listed) ?_ fun digest => ?_).symm
    · rw [own.places, gathers.places]
    · rw [own.latest, gathers.latest]
  · rintro rfl
    exact own

end Gathering

section Reading

variable {members : List (Text × Json)} {entries next : List (Text × CacheEntry)}

theorem member?_of_field {name : Text} {value : Json}
    (field : (Json.object members).field name = value) (given : value ≠ .null) :
    Json.member? name members = some value := by
  rw [Json.field] at field
  cases found : Json.member? name members with
  | none =>
      rw [found] at field
      exact absurd field.symm given
  | some other =>
      rw [found] at field
      exact congrArg _ field

theorem field_of_member? {name : Text} {value : Json}
    (member : Json.member? name members = some value) :
    (Json.object members).field name = value := by
  rw [Json.field, member, Option.getD_some]

theorem listsEntry_iff {digest : Text} {entry : CacheEntry} :
    ListsEntry (.array [.string digest, .object members]) (digest, entry) ↔
      CacheEntry.ofJson? (.object members) = some entry := by
  constructor
  · intro lists
    cases lists with
    | intro value timestamp hits size =>
        simp only [CacheEntry.ofJson?, field_of_member? value, field_of_member? timestamp,
          field_of_member? hits, field_of_member? size]
  · intro read
    unfold CacheEntry.ofJson? at read
    split at read
    · next value timestamp hits size =>
        cases read
        exact .intro (member?_of_field value nofun) (member?_of_field timestamp nofun)
          (member?_of_field hits nofun) (member?_of_field size nofun)
    · cases read

theorem listsCount_iff {name : Text} {count : Counter} :
    ListsCount name members count ↔ Counter.ofMember? name members = some count := by
  constructor
  · intro lists
    cases lists with
    | missing none => rw [Counter.ofMember?, none]
    | number given => rw [Counter.ofMember?, given]
    | flag given => rw [Counter.ofMember?, given]
  · intro read
    unfold Counter.ofMember? at read
    split at read
    · next none =>
        cases read
        exact .missing none
    · next given =>
        cases read
        exact .number given
    · next given =>
        cases read
        exact .flag given
    · cases read

theorem addItem_eq_some_iff {item : Json} :
    entriesOfJson?.addItem entries item = some next ↔
      ∃ listed, ListsEntry item listed ∧ setEntry listed.1 listed.2 entries = next := by
  constructor
  · intro added
    unfold entriesOfJson?.addItem at added
    split at added
    · next digest members =>
        obtain ⟨entry, read, made⟩ := Option.map_eq_some_iff.mp added
        exact ⟨(digest, entry), listsEntry_iff.mpr read, made⟩
    · cases added
  · rintro ⟨⟨digest, entry⟩, lists, made⟩
    have shape := lists
    cases shape with
    | intro value timestamp hits size =>
        rw [entriesOfJson?.addItem, listsEntry_iff.mp lists, Option.map_some, made]

theorem foldlM_addItem_eq_some_iff {items : List Json} :
    items.foldlM entriesOfJson?.addItem entries = some next ↔
      ∃ listed, List.Forall₂ ListsEntry items listed ∧
        listed.foldl (fun entries entry => setEntry entry.1 entry.2 entries) entries = next := by
  induction items generalizing entries with
  | nil =>
      constructor
      · intro done
        exact ⟨[], .nil, Option.some.inj done⟩
      · rintro ⟨listed, lists, rfl⟩
        cases lists
        rfl
  | cons item items ih =>
      rw [List.foldlM_cons, Option.bind_eq_bind, Option.bind_eq_some_iff]
      constructor
      · rintro ⟨added, first, further⟩
        obtain ⟨entry, lists, rfl⟩ := addItem_eq_some_iff.mp first
        obtain ⟨listed, others, made⟩ := ih.mp further
        exact ⟨entry :: listed, .cons lists others, made⟩
      · rintro ⟨listed, lists, made⟩
        cases lists with
        | @cons _ entry _ listed here others =>
            exact ⟨_, addItem_eq_some_iff.mpr ⟨entry, here, rfl⟩, ih.mpr ⟨listed, others, made⟩⟩

theorem entriesOfJson?_eq_some_iff {items : List Json} :
    entriesOfJson? items = some next ↔
      ∃ listed, List.Forall₂ ListsEntry items listed ∧ Gathers listed next := by
  rw [entriesOfJson?, foldlM_addItem_eq_some_iff]
  refine exists_congr fun listed => and_congr_right fun _ => ?_
  rw [gathers_iff]
  exact eq_comm

end Reading

section Accepting

variable {depth : Nat} {cache next : Cache} {text : Text}

theorem ofJson?_eq_some_iff {value : Json} :
    cache.ofJson? value = some next ↔
      ∃ listed entries hits misses, ListsCache value listed hits misses ∧ Gathers listed entries ∧
        { cache with entries, hits, misses } = next := by
  constructor
  · intro done
    unfold ofJson? at done
    split at done
    · split at done
      · next members items counts cacheMember statsMember =>
          obtain ⟨entries, read, rest⟩ := Option.bind_eq_some_iff.mp done
          obtain ⟨hits, found, rest⟩ := Option.bind_eq_some_iff.mp rest
          obtain ⟨misses, missed, rest⟩ := Option.bind_eq_some_iff.mp rest
          obtain ⟨listed, lists, gathers⟩ := entriesOfJson?_eq_some_iff.mp read
          refine ⟨listed, entries, hits, misses, ?_, gathers, Option.some.inj rest⟩
          exact .intro cacheMember statsMember lists (listsCount_iff.mpr found)
            (listsCount_iff.mpr missed)
      · cases done
    · cases done
  · rintro ⟨listed, entries, hits, misses, lists, gathers, rfl⟩
    cases lists with
    | intro cacheMember statsMember lists found missed =>
        have read := entriesOfJson?_eq_some_iff.mpr ⟨listed, lists, gathers⟩
        simp only [ofJson?, cacheMember, statsMember, read, listsCount_iff.mp found,
          listsCount_iff.mp missed]
        rfl

theorem import?_eq_some_iff :
    cache.import? depth text = .ok (some next) ↔ Takes depth cache text next := by
  constructor
  · intro taken
    unfold import? at taken
    split at taken
    · next value read =>
        obtain ⟨listed, entries, hits, misses, lists, gathers, rfl⟩ :=
          ofJson?_eq_some_iff.mp (Except.ok.inj taken)
        exact .intro read lists gathers
    · cases taken
    · cases taken
  · intro takes
    cases takes with
    | intro read lists gathers =>
        rw [import?, read]
        exact congrArg Except.ok
          (ofJson?_eq_some_iff.mpr ⟨_, _, _, _, lists, gathers, rfl⟩)

theorem exists_takes_iff : (∃ next, Takes depth cache text next) ↔ IsCacheText depth text := by
  constructor
  · rintro ⟨next, takes⟩
    cases takes with
    | intro read lists gathers => exact ⟨_, _, _, _, read, lists⟩
  · rintro ⟨value, listed, hits, misses, read, lists⟩
    exact ⟨_, .intro read lists (gathers_gathered listed)⟩

theorem carryOut_of_not_taken (refused : ∀ next, cache.import? depth text ≠ .ok (some next)) :
    cache.carryOut (.importing depth text) = cache := by
  rw [carryOut]
  split
  · next next taken => exact absurd taken (refused next)
  · rfl

theorem import?_eq_none (refused : ∀ next, cache.import? depth text ≠ .ok (some next))
    (readable : ∀ fault, Json.read depth text = .error fault → fault = .malformed) :
    cache.import? depth text = .ok none := by
  cases outcome : cache.import? depth text with
  | ok result =>
      cases result with
      | none => rfl
      | some next => exact absurd outcome (refused next)
  | error fault =>
      obtain ⟨gaveUp, wellFormed⟩ := import?_eq_error_iff.mp outcome
      exact absurd (readable fault gaveUp) wellFormed

end Accepting

/-- A cache accepts exactly the texts of one form, and then takes the entries and the counts that
they list, under its own limits. What is not accepted changes nothing: it is refused, unless the
reader gives up on it, for an integer or a nesting that the text holds. The form is there to be
written: every value of it that can be read is accepted in either way of writing it. -/
theorem import?_accepts (depth : Nat) (cache : Cache) (text : Text) :
    ((∃ next, cache.import? depth text = .ok (some next)) ↔ IsCacheText depth text) ∧
    (∀ next, cache.import? depth text = .ok (some next) ↔ Takes depth cache text next) ∧
    (¬ IsCacheText depth text → cache.carryOut (.importing depth text) = cache ∧
      ((∀ fault, Json.read depth text = .error fault → fault = .malformed) →
        cache.import? depth text = .ok none) ∧
      ∀ fault, cache.import? depth text = .error fault →
        fault ≠ .malformed ∧ Json.Explains depth text fault) ∧
    ∀ value listed hits misses charset, ListsCache value listed hits misses →
      Json.IsReadable charset depth value → text = value.write charset →
        IsCacheText depth text := by
  have accepts : (∃ next, cache.import? depth text = .ok (some next)) ↔ IsCacheText depth text := by
    rw [← exists_takes_iff]
    exact exists_congr fun next => import?_eq_some_iff
  refine ⟨accepts, fun next => import?_eq_some_iff, fun other => ?_, ?_⟩
  · have refused : ∀ next, cache.import? depth text ≠ .ok (some next) :=
      fun next taken => other (accepts.mp ⟨next, taken⟩)
    refine ⟨carryOut_of_not_taken refused, import?_eq_none refused, fun fault gaveUp => ?_⟩
    obtain ⟨read, wellFormed⟩ := import?_eq_error_iff.mp gaveUp
    exact ⟨wellFormed, Json.explains_of_read read⟩
  · rintro value listed hits misses charset lists readable rfl
    exact ⟨value, listed, hits, misses, Json.read_write readable, lists⟩

def listing (items : List Json) (counts : List (Text × Json)) : Text :=
  (Json.object [("cache", .array items), ("stats", .object counts)]).write .ascii

/-- A text with two entries of one digest, which is another half of a surrogate pair than that of the
third, without one count and with a truth value for the other. -/
def repeatedDigest : Text :=
  listing
    [.array [.string [CodePoint.ofNat 0xD800], CacheEntry.toJson ⟨"a", 1, 0, 1⟩],
      .array [.string [CodePoint.ofNat 0xD801], CacheEntry.toJson ⟨"b", 2, 5, 1⟩],
      .array [.string [CodePoint.ofNat 0xD800], CacheEntry.toJson ⟨"c", -3, -4, 0⟩]]
    [("misses", .bool true)]

/-- A text whose last entry has a truth value for a size. -/
def flaggedSize : Text :=
  listing
    [.array [.string "good", CacheEntry.toJson ⟨"a", 1, 0, 1⟩],
      .array [.string "bad", .object [("value", .string "b"), ("timestamp", .int 0),
        ("hits", .int 0), ("size", .bool true)]]]
    []

theorem import?_accepts_repeatedDigest :
    let cache : Cache := { limits := ⟨7, -1⟩, entries := [("own", ⟨"d", 3, 1, 1⟩)] }
    IsCacheText 4 repeatedDigest ∧ ¬ IsCacheText 4 flaggedSize ∧
      (∀ fault, Json.read 4 flaggedSize = .error fault → fault = .malformed) ∧
      cache.carryOut (.importing 4 flaggedSize) = cache ∧
      cache.import? 4 flaggedSize = .ok none := by
  intro cache
  have taken : cache.import? 4 repeatedDigest =
      .ok (some
        { limits := ⟨7, -1⟩
          entries :=
            [([CodePoint.ofNat 0xD800], ⟨"c", -3, -4, 0⟩), ([CodePoint.ofNat 0xD801], ⟨"b", 2, 5, 1⟩)]
          misses := .flag true }) := by
    decide +kernel
  have refused : cache.import? 4 flaggedSize = .ok none := by decide +kernel
  have readable : ∀ fault, Json.read 4 flaggedSize = .error fault → fault = .malformed := by
    intro fault gaveUp
    by_contra wellFormed
    rw [import?_eq_error_iff.mpr ⟨gaveUp, wellFormed⟩] at refused
    cases refused
  have other : ¬ IsCacheText 4 flaggedSize := by
    intro accepted
    obtain ⟨next, accepts⟩ := (import?_accepts 4 cache flaggedSize).1.mpr accepted
    rw [refused] at accepts
    cases accepts
  obtain ⟨unchanged, none, -⟩ := (import?_accepts 4 cache flaggedSize).2.2.1 other
  exact ⟨(import?_accepts 4 cache repeatedDigest).1.mp ⟨_, taken⟩, other, readable, unchanged,
    none readable⟩

end CodeProse.Cache
