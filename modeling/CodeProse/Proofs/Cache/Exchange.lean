import CodeProse.Proofs.Cache.Calls
import CodeProse.Proofs.Json.Values

/-!
# Reading a written cache

A cache that takes in the text of another one holds the same entries in the same order and the
same counts, under its own limits.
-/

set_option autoImplicit false

namespace CodeProse

theorem Json.keeps_names {names : List Text} (unpaired : ∀ name ∈ names, Text.IsUnpaired name)
    {members : List (Text × Json)} (named : members.map Prod.fst = names) :
    ∀ member ∈ members, Charset.ascii.Keeps member.1 :=
  fun _ listed _ => unpaired _ (named ▸ List.mem_map_of_mem listed)

namespace CacheEntry

theorem isReadable_toJson {entry : CacheEntry} {depth : Nat}
    (unpaired : entry.value.IsUnpaired)
    (writable : ∀ value ∈ [entry.timestamp, entry.hits, entry.size], isUnwritable value = false) :
    Json.IsReadable .ascii (depth + 1) entry.toJson := by
  have kept : ∀ name ∈ ["value".toText, "timestamp", "hits", "size"], Text.IsUnpaired name := by
    decide
  have names : ["value".toText, "timestamp", "hits", "size"].Nodup := by decide
  refine .object (Json.keeps_names kept rfl) names ?_
  simp only [List.forall_mem_cons] at writable ⊢
  exact ⟨.string fun _ => unpaired, .int writable.1, .int writable.2.1, .int writable.2.2.1,
    List.forall_mem_nil _⟩

end CacheEntry

namespace Counter

variable {counter : Counter}

theorem ofMember?_of_member {name : Text} {members : List (Text × Json)}
    (member : Json.member? name members = some counter.toJson) :
    ofMember? name members = some counter := by
  cases counter with
  | number value =>
      rw [ofMember?, member]
      rfl
  | flag value =>
      rw [ofMember?, member]
      rfl

theorem isReadable_toJson {depth : Nat} (writable : isUnwritable counter.value = false) :
    Json.IsReadable .ascii depth counter.toJson := by
  cases counter with
  | number value => exact .int writable
  | flag value => exact .bool

end Counter

namespace Cache

variable {cache next source : Cache} {now : Int}

/-- The digests and the texts of a cache are free of pairs of halves. -/
def IsUnpaired (cache : Cache) : Prop :=
  ∀ entry ∈ cache.entries, entry.1.IsUnpaired ∧ entry.2.value.IsUnpaired

section Calls

theorem isWhole_digest {key digest : Text} (known : digestOf key = .ok digest) :
    digest.IsWhole := by
  rw [digestOf, Sha256.ofText?] at known
  cases encoded : key.toUtf8? with
  | none =>
      rw [encoded] at known
      cases known
  | some bytes =>
      rw [encoded] at known
      obtain rfl := Except.ok.inj known
      intro char member
      obtain ⟨word, -, digit⟩ := List.mem_flatMap.mp member
      exact Text.isWhole_hexDigits _ _ char digit

theorem IsUnpaired.of_thins (unpaired : cache.IsUnpaired) (thins : Thins cache next) :
    next.IsUnpaired := by
  intro entry member
  obtain ⟨old, known, digest, value, -⟩ := thins.exists_mem member
  rw [← digest, ← value]
  exact unpaired old known

theorem IsUnpaired.store (unpaired : cache.IsUnpaired) (ranking stamp : Int) (key value : Text) :
    (cache.store ranking stamp key value).2.IsUnpaired := by
  intro entry member
  rcases mem_entries_store member with old | ⟨digest, size, known, measured, rfl⟩
  · exact unpaired entry old
  · exact ⟨(isWhole_digest known).isUnpaired, (isWhole_of_utf8Size? measured).isUnpaired⟩

theorem IsUnpaired.perform (unpaired : cache.IsUnpaired) (call : Call) :
    (cache.perform call).IsUnpaired := by
  cases call with
  | store ranking stamp key value => exact unpaired.store ranking stamp key value
  | preload time texts =>
      exact preload_keeps (fun _ ranking stamp key value kept => kept.store ranking stamp key value)
        texts unpaired
  | get now key => exact unpaired.of_thins (thins_perform rfl)
  | has now key => exact unpaired.of_thins (thins_perform rfl)
  | delete key => exact unpaired.of_thins (thins_perform rfl)
  | clear => exact unpaired.of_thins (thins_perform rfl)
  | cleanup now => exact unpaired.of_thins (thins_perform rfl)
  | optimize now maxEntries => exact unpaired.of_thins (thins_perform rfl)
  | configure maxSize maxAge => exact unpaired.of_thins (thins_perform rfl)

/-- Whatever keys and texts it is called with, a cache takes in no half of a surrogate pair. -/
theorem isUnpaired_afterCalls (limits : CacheLimits) (calls : List Call) :
    (afterCalls limits calls).IsUnpaired := by
  have empty : ({ limits } : Cache).IsUnpaired := by
    intro entry member
    cases member
  rw [afterCalls]
  generalize ({ limits } : Cache) = cache at empty
  induction calls generalizing cache with
  | nil => exact empty
  | cons call rest ih => exact ih (cache.perform call) (empty.perform call)

end Calls

section Writing

variable (writable : ∀ value ∈ cache.writtenIntegers now, isUnwritable value = false)
include writable

theorem isReadable_entry (unpaired : cache.IsUnpaired) {depth : Nat} {entry : Text × CacheEntry}
    (member : entry ∈ cache.entries) :
    Json.IsReadable .ascii (depth + 2) (.array [.string entry.1, entry.2.toJson]) := by
  obtain ⟨digest, text⟩ := unpaired entry member
  refine .array ?_
  simp only [List.forall_mem_cons]
  refine ⟨.string fun _ => digest, CacheEntry.isReadable_toJson text fun value known => ?_,
    List.forall_mem_nil _⟩
  refine writable value ?_
  simp only [writtenIntegers, List.mem_cons]
  exact .inr (.inr (.inr (List.mem_flatMap.mpr ⟨entry, member, known⟩)))

/-- The JSON value of a cache is nested four levels deep. -/
theorem isReadable_toJson (unpaired : cache.IsUnpaired) {depth : Nat} :
    Json.IsReadable .ascii (depth + 4) (cache.toJson now) := by
  have kept : ∀ name ∈ ["cache".toText, "stats", "timestamp"], Text.IsUnpaired name := by decide
  have countsKept : ∀ name ∈ ["hits".toText, "misses"], Text.IsUnpaired name := by decide
  have names : ["cache".toText, "stats", "timestamp"].Nodup := by decide
  have counts : ["hits".toText, "misses"].Nodup := by decide
  have hits : isUnwritable cache.hits.value = false := writable _ (by simp [writtenIntegers])
  have misses : isUnwritable cache.misses.value = false := writable _ (by simp [writtenIntegers])
  refine .object (Json.keeps_names kept rfl) names ?_
  simp only [List.forall_mem_cons]
  refine ⟨.array ?_, .object (Json.keeps_names countsKept rfl) counts ?_,
    .int (writable now List.mem_cons_self), List.forall_mem_nil _⟩
  · intro item member
    obtain ⟨entry, known, rfl⟩ := List.mem_map.mp member
    exact isReadable_entry writable unpaired known
  · simp only [List.forall_mem_cons]
    exact ⟨Counter.isReadable_toJson hits, Counter.isReadable_toJson misses, List.forall_mem_nil _⟩

theorem export?_eq_some : cache.export? now = some ((cache.toJson now).write .ascii) := by
  have none : ¬ (cache.writtenIntegers now).any isUnwritable = true := by
    rw [List.any_eq_true]
    rintro ⟨value, member, long⟩
    rw [writable value member] at long
    cases long
  rw [export?, if_neg none]

end Writing

theorem foldlM_addItem {entries found : List (Text × CacheEntry)}
    (distinct : ((found ++ entries).map Prod.fst).Nodup) :
    (entries.map fun entry => Json.array [.string entry.1, entry.2.toJson]).foldlM
      entriesOfJson?.addItem found = some (found ++ entries) := by
  induction entries generalizing found with
  | nil => simp
  | cons entry entries ih =>
      have added : entriesOfJson?.addItem found (.array [.string entry.1, entry.2.toJson]) =
          some (setEntry entry.1 entry.2 found) := rfl
      have longer : ((found ++ [entry] ++ entries).map Prod.fst).Nodup := by simpa using distinct
      rw [setEntry_of_not_mem (not_mem_names_of_nodup distinct)] at added
      rw [List.map_cons, List.foldlM_cons, added, Option.bind_eq_bind, Option.bind_some, ih longer,
        List.append_assoc, List.singleton_append]

theorem entriesOfJson?_map (distinct : source.HasDistinctDigests) :
    entriesOfJson? (source.entries.map fun entry => .array [.string entry.1, entry.2.toJson]) =
      some source.entries :=
  foldlM_addItem distinct

/-- The JSON value of a cache gives its entries and counts to any other cache. -/
theorem ofJson?_toJson (distinct : source.HasDistinctDigests) (now : Int) :
    cache.ofJson? (source.toJson now) = some { source with limits := cache.limits } := by
  have hits : Counter.ofMember? "hits" [("hits", source.hits.toJson),
      ("misses", source.misses.toJson)] = some source.hits := Counter.ofMember?_of_member rfl
  have misses : Counter.ofMember? "misses" [("hits", source.hits.toJson),
      ("misses", source.misses.toJson)] = some source.misses := Counter.ofMember?_of_member rfl
  change (entriesOfJson? (source.entries.map _)).bind _ = _
  rw [entriesOfJson?_map distinct, Option.bind_some]
  change (Counter.ofMember? _ _).bind _ = _
  rw [hits, Option.bind_some]
  change (Counter.ofMember? _ _).bind _ = _
  rw [misses, Option.bind_some]
  rfl

/-- The text of a cache gives its entries, in their order, and its counts to any other cache, which
keeps its own limits and is then written alike. The digests differ in every cache that comes about
(`Reachable.hasDistinctDigests`), whatever the entries hold, and no pair of halves stands in one that
calls have filled (`isUnpaired_afterCalls`). -/
theorem import?_export? (source target : Cache) (now : Int) {depth : Nat} (deep : 4 ≤ depth)
    (distinct : source.HasDistinctDigests) (unpaired : source.IsUnpaired)
    (short : ∀ value ∈ source.writtenIntegers now,
      (Text.ofNat value.natAbs).length ≤ integerDigitLimit) :
    ∃ text, source.export? now = some text ∧
      target.import? depth text = .ok (some { source with limits := target.limits }) ∧
      ({ source with limits := target.limits } : Cache).export? now = some text := by
  have writable : ∀ value ∈ source.writtenIntegers now, isUnwritable value = false :=
    fun value member => isUnwritable_eq_false_iff.mpr (short value member)
  have written : source.export? now = some ((source.toJson now).write .ascii) :=
    export?_eq_some writable
  obtain ⟨further, rfl⟩ := Nat.exists_eq_add_of_le' deep
  have reads : Json.read (further + 4) ((source.toJson now).write .ascii) =
      .ok (source.toJson now) :=
    Json.read_write (isReadable_toJson writable unpaired)
  refine ⟨(source.toJson now).write .ascii, written, ?_, written⟩
  rw [import?, reads]
  exact congrArg Except.ok (ofJson?_toJson distinct now)

/-- A cache with a text of characters that are written in different ways, a half of a surrogate pair
in a digest, and counts that only a cache that was read in can have. -/
def strangeCache : Cache where
  entries :=
    [(CodePoint.ofNat 0xDE00 :: CodePoint.ofNat 0xD83D :: "\"digest\"".toText,
        ⟨[CodePoint.ofNat 0, .scalar '\\', .scalar '\n', CodePoint.ofNat 12, CodePoint.ofNat 0x7F,
          CodePoint.ofNat 0xE9, CodePoint.ofNat 0xFFFF, CodePoint.ofNat 0x1F600], -20, 3,
          Nat.pow 10 40⟩),
      ("first digest", ⟨[], 10, -1, 0⟩)]
  hits := .flag true
  misses := .number (-7)

theorem import?_export?_strangeCache :
    let target : Cache :=
      { limits := ⟨5, -1⟩, entries := [("first digest", ⟨"other", 0, 0, 5⟩)], misses := .number 2 }
    ∃ text, strangeCache.export? (-1) = some text ∧
      target.import? 4 text = .ok (some { strangeCache with limits := target.limits }) ∧
      ({ strangeCache with limits := target.limits } : Cache).export? (-1) = some text := by
  intro target
  have distinct : strangeCache.HasDistinctDigests :=
    (by decide : (strangeCache.entries.map Prod.fst).Nodup)
  have unpaired : strangeCache.IsUnpaired :=
    (by decide : ∀ entry ∈ strangeCache.entries, entry.1.IsUnpaired ∧ entry.2.value.IsUnpaired)
  exact import?_export? strangeCache target (-1) (Nat.le_refl 4) distinct unpaired (by decide)

end Cache

end CodeProse
