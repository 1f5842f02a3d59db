import CodeProse.Proofs.Cache.Calls
import CodeProse.Proofs.Cache.Ranking
import CodeProse.Proofs.Numeric.Limit

/-!
# Operations on a cache that fail

A key or a text may have no form in UTF-8, a score or a share of hits may lie beyond the format, an
integer may be too long to be written, and a text may be beyond what the reader takes. Every
operation but storing computes before it changes anything, so that a failure leaves the cache as it
was. Storing has taken away the old text of its key by the time it scores the others.
-/

set_option autoImplicit false

namespace CodeProse.Cache

/-- A call, or a question that changes no text: what one may ask a cache for. -/
inductive Operation where
  | call (call : Call)
  | statistics (now : Int)
  | topEntries (limit : Int)
  | exporting (now : Int)
  | importing (depth : Nat) (text : Text)

def Operation.texts : Operation → List (Text × Text)
  | .call asked => asked.texts
  | _ => []

/-- The key of a call on one entry, apart from storing it. -/
def Call.key? : Call → Option Text
  | get _ key => some key
  | has _ key => some key
  | delete key => some key
  | _ => none

/-- Whether an operation comes to its end. -/
def completes (cache : Cache) : Operation → Bool
  | .call (.get now key) => (cache.get now key).1.isOk
  | .call (.has now key) => (cache.has now key).1.isOk
  | .call (.delete key) => (cache.delete key).1.isOk
  | .call (.store ranking stamp key value) => (cache.store ranking stamp key value).1.isOk
  | .call (.preload time texts) => (cache.preload time texts).1.isOk
  | .call (.optimize now maxEntries) => (cache.optimize? now maxEntries).isSome
  | .call _ => true
  | .statistics now => (cache.stats? now).isSome
  | .topEntries _ => true
  | .exporting now => (cache.export? now).isSome
  | .importing depth text => (cache.import? depth text).isOk

/-- The cache that an operation leaves, whether it comes to its end or not. -/
def carryOut (cache : Cache) : Operation → Cache
  | .call asked => cache.perform asked
  | .importing depth text =>
      match cache.import? depth text with
      | .ok (some read) => read
      | _ => cache
  | _ => cache

/-- The hits of an entry are too many for its age to have a score in the format. -/
def IsUnscored (now : Int) (entry : CacheEntry) : Prop :=
  Binary64.limit * max (now - entry.timestamp) 1 ≤ entry.hits.natAbs

/-- A text finds no room under its digest without an order of the other entries, one of which has no
score. -/
structure IsUnrankable (cache : Cache) (now : Int) (digest : Text) (size : Nat) : Prop where
  fits : (size : Int) ≤ cache.limits.maxSize
  tight : cache.limits.maxSize < sizes (dropDigest digest cache.entries) + size
  unscored : ∃ entry ∈ dropDigest digest cache.entries, IsUnscored now entry.2

/-- The ways in which storing a text fails, with the cache that it leaves. -/
inductive StoreFails (cache : Cache) (now : Int) (key value : Text) : CacheFault → Cache → Prop where
  | unencodable (foreign : ¬ Text.IsWhole key ∨ ¬ Text.IsWhole value) :
      StoreFails cache now key value .unencodable cache
  | unranked {digest : Text} {size : Nat} (known : digestOf key = .ok digest)
      (measured : value.utf8Size? = some size) (unrankable : cache.IsUnrankable now digest size) :
      StoreFails cache now key value .unranked (cache.forget digest)

/-- The ways in which an operation fails, with the cache that it leaves. -/
inductive Fails (cache : Cache) : Operation → Cache → Prop where
  | asking {asked : Call} {key : Text} (asks : asked.key? = some key)
      (foreign : ¬ Text.IsWhole key) : Fails cache (.call asked) cache
  | store {ranking stamp : Int} {key value : Text} {fault : CacheFault} {left : Cache}
      (fails : cache.StoreFails ranking key value fault left) :
      Fails cache (.call (.store ranking stamp key value)) left
  | preload {time : Nat → Int} {front back : List (Text × Text)} {key value : Text}
      {fault : CacheFault} {left : Cache} (done : (cache.preload time front).1.isOk = true)
      (fails : (cache.preload time front).2.StoreFails (time (2 * front.length)) key value fault
        left) :
      Fails cache (.call (.preload time (front ++ (key, value) :: back))) left
  | optimize {now maxEntries : Int} (many : maxEntries < cache.entries.length)
      (unscored : ∃ entry ∈ cache.entries, IsUnscored now entry.2) :
      Fails cache (.call (.optimize now maxEntries)) cache
  | statistics {now : Int} (asked : cache.hits.value + cache.misses.value ≠ 0)
      (beyond : Binary64.limit * (cache.hits.value + cache.misses.value).natAbs ≤
        cache.hits.value.natAbs) :
      Fails cache (.statistics now) cache
  | exporting {now value : Int} (listed : value ∈ cache.writtenIntegers now)
      (long : isUnwritable value = true) : Fails cache (.exporting now) cache
  | importing {depth : Nat} {text : Text} {fault : Json.ReadError}
      (read : Json.read depth text = .error fault) (wellFormed : fault ≠ .malformed) :
      Fails cache (.importing depth text) cache

section Scores

variable {now : Int} {entries : List (Text × CacheEntry)}

theorem score?_eq_none_iff (entry : CacheEntry) :
    score? now entry = none ↔ IsUnscored now entry := by
  have positive : 1 ≤ max (now - entry.timestamp) 1 := Int.le_max_right _ _
  rw [score?, IsUnscored, Binary64.ofRatio?_eq_none_iff _ (by omega)]
  generalize max (now - entry.timestamp) 1 = age at positive
  have whole : (age.natAbs : Int) = age := by omega
  rw [← Int.ofNat_le, Int.natCast_mul, whole]

theorem scored?_eq_none_iff :
    scored? now entries = none ↔ ∃ entry ∈ entries, IsUnscored now entry.2 := by
  constructor
  · intro unranked
    by_contra scores
    have ranks : (scored? now entries).isSome := scored?_isSome fun entry member => by
      rw [Option.isSome_iff_ne_none, ne_eq, score?_eq_none_iff]
      exact fun unscored => scores ⟨entry, member, unscored⟩
    rw [unranked] at ranks
    cases ranks
  · rintro ⟨entry, member, unscored⟩
    cases ranks : scored? now entries with
    | none => rfl
    | some scored =>
        rw [← map_snd_scored? ranks] at member
        obtain ⟨item, known, rfl⟩ := List.mem_map.mp member
        have score := score?_of_mem_scored? ranks known
        rw [(score?_eq_none_iff item.2.2).mpr unscored] at score
        cases score

end Scores

section Store

variable {cache left : Cache} {ranking stamp : Int} {key digest value : Text} {size : Nat}
  {fault : CacheFault}

/-- A text that cannot be ranked has taken the old one under its digest away, and nothing else. -/
theorem IsUnrankable.put_eq (unrankable : cache.IsUnrankable ranking digest size) :
    cache.put ranking stamp digest value size = (.error .unranked, cache.forget digest) := by
  obtain ⟨fits, tight, unscored⟩ := unrankable
  have excess : ¬ sizes (dropDigest digest cache.entries) + size - cache.limits.maxSize ≤ 0 := by
    omega
  simp only [put, totalSize_eq_sizes, forget, if_neg (Int.not_lt.mpr fits), if_neg excess,
    scored?_eq_none_iff.mpr unscored]

theorem isUnrankable_of_put (failed : (cache.put ranking stamp digest value size).1 = .error fault) :
    cache.IsUnrankable ranking digest size := by
  simp only [put, totalSize_eq_sizes, forget] at failed
  split at failed
  · cases failed
  · next small =>
      split at failed
      · cases failed
      · next tight =>
          split at failed
          · next none => exact ⟨Int.not_lt.mp small, by omega, scored?_eq_none_iff.mp none⟩
          · cases failed

theorem StoreFails.store_eq (fails : cache.StoreFails ranking key value fault left) :
    cache.store ranking stamp key value = (.error fault, left) := by
  cases fails with
  | unencodable foreign =>
      refine store_of_unencodable fun digest size known measured => ?_
      rcases foreign with foreign | foreign
      · rw [digestOf_eq_error_iff.mpr ⟨foreign, rfl⟩] at known
        cases known
      · rw [utf8Size?_eq_none_iff.mpr foreign] at measured
        cases measured
  | unranked known measured unrankable =>
      rw [store_of_ok known measured, unrankable.put_eq]

theorem storeFails_of_store (failed : (cache.store ranking stamp key value).1 = .error fault) :
    cache.StoreFails ranking key value fault (cache.store ranking stamp key value).2 := by
  have fails : ∀ {left}, cache.StoreFails ranking key value fault left →
      cache.StoreFails ranking key value fault (cache.store ranking stamp key value).2 :=
    fun fails => fails.store_eq ▸ fails
  cases known : digestOf key with
  | error other =>
      have foreign : cache.StoreFails ranking key value .unencodable cache :=
        .unencodable (.inl (digestOf_eq_error_iff.mp known).1)
      rw [foreign.store_eq] at failed
      cases failed
      exact fails foreign
  | ok digest =>
      cases measured : value.utf8Size? with
      | none =>
          have foreign : cache.StoreFails ranking key value .unencodable cache :=
            .unencodable (.inr (utf8Size?_eq_none_iff.mp measured))
          rw [foreign.store_eq] at failed
          cases failed
          exact fails foreign
      | some size =>
          rw [store_of_ok known measured] at failed
          have unrankable := isUnrankable_of_put failed
          rw [unrankable.put_eq] at failed
          cases failed
          exact fails (.unranked known measured unrankable)

end Store

section Preload

variable {cache : Cache} {time : Nat → Int}

theorem preload_cons (key value : Text) (rest : List (Text × Text)) :
    cache.preload time ((key, value) :: rest) =
      if (cache.store (time 0) (time 1) key value).1.isOk then
        (cache.store (time 0) (time 1) key value).2.preload (fun reading => time (reading + 2)) rest
      else
        ((cache.store (time 0) (time 1) key value).1.map fun _ => (),
          (cache.store (time 0) (time 1) key value).2) := by
  rw [preload]
  cases outcome : cache.store (time 0) (time 1) key value with
  | mk result next => cases result <;> rfl

theorem preload_append {front : List (Text × Text)}
    (done : (cache.preload time front).1.isOk = true) (back : List (Text × Text)) :
    cache.preload time (front ++ back) =
      (cache.preload time front).2.preload (fun reading => time (reading + 2 * front.length))
        back := by
  induction front generalizing cache time with
  | nil => rfl
  | cons text front ih =>
      obtain ⟨key, value⟩ := text
      rw [preload_cons] at done
      by_cases stored : (cache.store (time 0) (time 1) key value).1.isOk = true
      · rw [if_pos stored] at done
        rw [List.cons_append, preload_cons, preload_cons, if_pos stored, if_pos stored, ih done,
          List.length_cons]
        have later : ∀ reading, reading + 2 * front.length + 2 = reading + 2 * (front.length + 1) :=
          fun reading => by omega
        simp only [later]
      · rw [if_neg stored] at done
        cases result : (cache.store (time 0) (time 1) key value).1 with
        | ok outcome => simp [result] at stored
        | error fault => simp [result, Except.map] at done

/-- Storing several texts fails where one of them does, behind others that all came through. -/
theorem exists_of_preload {texts : List (Text × Text)} {fault : CacheFault}
    (failed : (cache.preload time texts).1 = .error fault) :
    ∃ front key value back left, texts = front ++ (key, value) :: back ∧
      (cache.preload time front).1.isOk = true ∧
      (cache.preload time front).2.StoreFails (time (2 * front.length)) key value fault left := by
  induction texts generalizing cache time with
  | nil => cases failed
  | cons text rest ih =>
      obtain ⟨key, value⟩ := text
      cases result : (cache.store (time 0) (time 1) key value).1 with
      | error other =>
          have here : ¬ (cache.store (time 0) (time 1) key value).1.isOk = true := by
            simp [result]
          rw [preload_cons, if_neg here, result] at failed
          cases failed
          exact ⟨[], key, value, rest, _, rfl, rfl, storeFails_of_store result⟩
      | ok outcome =>
          have there : (cache.store (time 0) (time 1) key value).1.isOk = true := by
            rw [result]
            rfl
          rw [preload_cons, if_pos there] at failed
          obtain ⟨front, other, text, back, left, rfl, done, fails⟩ := ih failed
          refine ⟨(key, value) :: front, other, text, back, left, rfl, ?_⟩
          rw [preload_cons, if_pos there]
          exact ⟨done, fails⟩

theorem StoreFails.preload_eq {front back : List (Text × Text)} {key value : Text}
    {fault : CacheFault} {left : Cache} (done : (cache.preload time front).1.isOk = true)
    (fails : (cache.preload time front).2.StoreFails (time (2 * front.length)) key value fault
      left) :
    cache.preload time (front ++ (key, value) :: back) = (.error fault, left) := by
  have first : time (0 + 2 * front.length) = time (2 * front.length) := by rw [Nat.zero_add]
  rw [preload_append done, preload_cons, first, fails.store_eq]
  rfl

end Preload

section Failing

variable {cache left : Cache} {operation : Operation}

theorem optimize?_eq_none_iff {now maxEntries : Int} :
    cache.optimize? now maxEntries = none ↔
      maxEntries < cache.entries.length ∧ ∃ entry ∈ cache.entries, IsUnscored now entry.2 := by
  rw [← scored?_eq_none_iff]
  simp only [optimize?]
  split
  case isTrue few => simp [Int.not_lt.mpr few]
  case isFalse many =>
    cases ranks : scored? now cache.entries with
    | none => simpa using many
    | some scored => simp

theorem stats?_eq_none_iff {now : Int} :
    cache.stats? now = none ↔ cache.hits.value + cache.misses.value ≠ 0 ∧
      Binary64.limit * (cache.hits.value + cache.misses.value).natAbs ≤
        cache.hits.value.natAbs := by
  have rate : cache.stats? now = none ↔ cache.hitRate? = none := by
    cases known : cache.hitRate? with
    | none => simp [stats?, known]
    | some rate => simp [stats?, known]
  rw [rate, hitRate?]
  split
  case isTrue unasked => simp [unasked]
  case isFalse asked =>
    rw [Binary64.ofRatio?_eq_none_iff _ asked]
    simp [asked]

theorem export?_eq_none_iff {now : Int} :
    cache.export? now = none ↔
      ∃ value ∈ cache.writtenIntegers now, isUnwritable value = true := by
  rw [export?, ← List.any_eq_true]
  split
  case isTrue long => exact ⟨fun _ => long, fun _ => rfl⟩
  case isFalse short => exact ⟨fun none => (nomatch none), fun long => absurd long short⟩

theorem import?_eq_error_iff {depth : Nat} {text : Text} {fault : Json.ReadError} :
    cache.import? depth text = .error fault ↔
      Json.read depth text = .error fault ∧ fault ≠ .malformed := by
  constructor
  · intro gaveUp
    unfold import? at gaveUp
    split at gaveUp
    · cases gaveUp
    · cases gaveUp
    · next other wellFormed read =>
        cases gaveUp
        exact ⟨read, wellFormed⟩
  · rintro ⟨read, wellFormed⟩
    cases fault with
    | malformed => exact absurd rfl wellFormed
    | integerTooLong digits => rw [import?, read]
    | nestedTooDeep collection => rw [import?, read]

theorem Fails.stops (fails : Fails cache operation left) :
    cache.completes operation = false ∧ cache.carryOut operation = left := by
  cases fails with
  | @asking asked key asks foreign =>
      cases asked <;> cases asks <;>
        simp [completes, carryOut, perform, get, has, delete, withDigest_of_not_isWhole foreign]
  | store fails => simp [completes, carryOut, perform, fails.store_eq]
  | preload done fails => simp [completes, carryOut, perform, fails.preload_eq done]
  | optimize many unscored =>
      have none := optimize?_eq_none_iff.mpr ⟨many, unscored⟩
      simp [completes, carryOut, perform, none]
  | @statistics now asked beyond =>
      have none : cache.stats? now = none := stats?_eq_none_iff.mpr ⟨asked, beyond⟩
      simp [completes, carryOut, none]
  | exporting listed long =>
      have none := export?_eq_none_iff.mpr ⟨_, listed, long⟩
      simp [completes, carryOut, none]
  | @importing depth text fault read wellFormed =>
      have failed : cache.import? depth text = .error fault := by
        rwa [import?_eq_error_iff, and_iff_left wellFormed]
      simp [completes, carryOut, failed]

theorem fails_of_completes_eq_false (stops : cache.completes operation = false) :
    Fails cache operation (cache.carryOut operation) := by
  have same : ∀ {left}, Fails cache operation left → Fails cache operation (cache.carryOut operation) :=
    fun fails => fails.stops.2 ▸ fails
  cases operation with
  | call asked =>
      cases asked with
      | store ranking stamp key value =>
          obtain ⟨fault, failed⟩ := Except.isOk_eq_false_iff.mp stops
          exact same (.store (storeFails_of_store failed))
      | preload time texts =>
          obtain ⟨fault, failed⟩ := Except.isOk_eq_false_iff.mp stops
          obtain ⟨front, key, value, back, left, rfl, done, fails⟩ := exists_of_preload failed
          exact same (.preload done fails)
      | optimize now maxEntries =>
          have none : cache.optimize? now maxEntries = none := by simpa [completes] using stops
          obtain ⟨many, unscored⟩ := optimize?_eq_none_iff.mp none
          exact same (.optimize many unscored)
      | get now key => exact same (.asking rfl (withDigest_isOk_eq_false_iff.mp stops))
      | has now key => exact same (.asking rfl (withDigest_isOk_eq_false_iff.mp stops))
      | delete key => exact same (.asking rfl (withDigest_isOk_eq_false_iff.mp stops))
      | clear => cases stops
      | cleanup now => cases stops
      | configure maxSize maxAge => cases stops
  | statistics now =>
      have none : cache.stats? now = none := by simpa [completes] using stops
      obtain ⟨asked, beyond⟩ := stats?_eq_none_iff.mp none
      exact same (.statistics asked beyond)
  | topEntries limit => cases stops
  | exporting now =>
      have none : cache.export? now = none := by simpa [completes] using stops
      obtain ⟨value, listed, long⟩ := export?_eq_none_iff.mp none
      exact same (.exporting listed long)
  | importing depth text =>
      obtain ⟨fault, failed⟩ := Except.isOk_eq_false_iff.mp stops
      obtain ⟨read, wellFormed⟩ := import?_eq_error_iff.mp failed
      exact same (.importing read wellFormed)

/-- The limits and the counts of one cache are those of another one. -/
def KeepsCounts (cache next : Cache) : Prop :=
  next.limits = cache.limits ∧ next.hits = cache.hits ∧ next.misses = cache.misses

theorem keepsCounts_store (cache : Cache) (ranking stamp : Int) (key value : Text) :
    KeepsCounts cache (cache.store ranking stamp key value).2 := by
  refine store_keeps (KeepsCounts cache) ⟨rfl, rfl, rfl⟩ fun digest size _ _ => ?_
  have stores := stores_put cache ranking stamp digest value size
  generalize (cache.put ranking stamp digest value size).2 = next at stores
  cases stores with
  | refused large => exact ⟨rfl, rfl, rfl⟩
  | dropped fits unranked => exact ⟨rfl, rfl, rfl⟩
  | placed fits fewer room => exact ⟨rfl, rfl, rfl⟩

theorem keepsCounts_preload (cache : Cache) (time : Nat → Int) (texts : List (Text × Text)) :
    KeepsCounts cache (cache.preload time texts).2 := by
  refine preload_keeps (fun other ranking stamp key value kept => ?_) texts ⟨rfl, rfl, rfl⟩
  obtain ⟨limits, hits, misses⟩ := keepsCounts_store other ranking stamp key value
  exact ⟨limits.trans kept.1, hits.trans kept.2.1, misses.trans kept.2.2⟩

theorem StoreFails.keepsCounts {now : Int} {key value : Text} {fault : CacheFault}
    (fails : cache.StoreFails now key value fault left) : KeepsCounts cache left := by
  cases fails <;> exact ⟨rfl, rfl, rfl⟩

theorem Fails.keepsCounts (fails : Fails cache operation left) : KeepsCounts cache left := by
  cases fails with
  | asking asks foreign => exact ⟨rfl, rfl, rfl⟩
  | store fails => exact fails.keepsCounts
  | preload done fails =>
      obtain ⟨limits, hits, misses⟩ := fails.keepsCounts
      obtain ⟨limitsFront, hitsFront, missesFront⟩ := keepsCounts_preload cache _ _
      exact ⟨limits.trans limitsFront, hits.trans hitsFront, misses.trans missesFront⟩
  | optimize many unscored => exact ⟨rfl, rfl, rfl⟩
  | statistics asked beyond => exact ⟨rfl, rfl, rfl⟩
  | exporting listed long => exact ⟨rfl, rfl, rfl⟩
  | importing read wellFormed => exact ⟨rfl, rfl, rfl⟩

theorem forget_eq_self_iff {digest : Text} :
    cache.forget digest = cache ↔ cache.entries.lookup digest = none := by
  have unchanged : cache.forget digest = cache ↔ dropDigest digest cache.entries = cache.entries :=
    ⟨congrArg entries, fun same => by rw [forget, same]⟩
  rw [unchanged, dropDigest_eq_self_iff]

/-- Nothing stands under the digest of a key with which a text can be stored. -/
def IsFreeFor (cache : Cache) (text : Text × Text) : Prop :=
  ∀ digest size, digestOf text.1 = .ok digest → text.2.utf8Size? = some size →
    cache.entries.lookup digest = none

theorem StoreFails.eq_self_iff {now : Int} {key value : Text} {fault : CacheFault}
    (fails : cache.StoreFails now key value fault left) :
    left = cache ↔ cache.IsFreeFor (key, value) := by
  cases fails with
  | unencodable foreign =>
      refine ⟨fun _ digest size known measured => ?_, fun _ => rfl⟩
      rcases foreign with foreign | foreign
      · rw [digestOf_eq_error_iff.mpr ⟨foreign, rfl⟩] at known
        cases known
      · rw [utf8Size?_eq_none_iff.mpr foreign] at measured
        cases measured
  | @unranked digest size known measured unrankable =>
      rw [forget_eq_self_iff]
      constructor
      · intro free other size knownOther _
        rw [known] at knownOther
        exact Except.ok.inj knownOther ▸ free
      · exact fun free => free digest size known measured

theorem Fails.eq_self_iff (fails : Fails cache operation left)
    (single : operation.texts.length ≤ 1) :
    left = cache ↔ ∀ text ∈ operation.texts, cache.IsFreeFor text := by
  cases fails with
  | @asking asked key asks foreign =>
      cases asked <;> cases asks <;> simp [Operation.texts, Call.texts]
  | store fails => simpa [Operation.texts, Call.texts] using fails.eq_self_iff
  | @preload now front back key value fault left done fails =>
      simp only [Operation.texts, Call.texts, List.length_append, List.length_cons] at single
      obtain rfl : front = [] := List.length_eq_zero_iff.mp (by omega)
      obtain rfl : back = [] := List.length_eq_zero_iff.mp (by omega)
      have first : cache.StoreFails (now 0) key value fault left := fails
      simpa [Operation.texts, Call.texts] using first.eq_self_iff
  | optimize many unscored => exact ⟨fun _ _ member => (nomatch member), fun _ => rfl⟩
  | statistics asked beyond => exact ⟨fun _ _ member => (nomatch member), fun _ => rfl⟩
  | exporting listed long => exact ⟨fun _ _ member => (nomatch member), fun _ => rfl⟩
  | importing read wellFormed => exact ⟨fun _ _ member => (nomatch member), fun _ => rfl⟩

end Failing

/-- When an operation fails and what it leaves, for all caches: counts and limits as they were, and,
where it stores no more than one text, all entries exactly if nothing was stored under its key. -/
theorem completes_or_fails (cache : Cache) (operation : Operation) :
    (∀ left, Fails cache operation left ↔
      cache.completes operation = false ∧ cache.carryOut operation = left) ∧
    (cache.completes operation = false →
      KeepsCounts cache (cache.carryOut operation) ∧
      (operation.texts.length ≤ 1 →
        (cache.carryOut operation = cache ↔ ∀ text ∈ operation.texts, cache.IsFreeFor text))) := by
  constructor
  · intro left
    constructor
    · exact Fails.stops
    · rintro ⟨stops, rfl⟩
      exact fails_of_completes_eq_false stops
  · intro stops
    have fails := fails_of_completes_eq_false stops
    exact ⟨fails.keepsCounts, fails.eq_self_iff⟩

/-- A cache with an entry that was found so often that it has no score. -/
def popularCache : Cache where
  limits := { maxSize := 5 }
  entries := [("popular", ⟨"xy", 0, 10 ^ 309, 2⟩)]

/-- The cache under a small limit that has read in the popular entry, with one more text. -/
def crowdedCache : Cache :=
  (popularCache.store 0 0 "key" "abc").2

theorem reachable_crowdedCache : Reachable crowdedCache := by
  have read : import? 4 { limits := { maxSize := 5 } } ((popularCache.toJson 0).write .ascii) =
      .ok (some popularCache) := by
    decide +kernel
  exact .step (.step .empty (.importing read)) (.store 0 0 "key" "abc")

theorem completes_or_fails_crowdedCache :
    let operation := Operation.call (.store 0 0 "key" "abcd")
    crowdedCache.completes operation = false ∧
      KeepsCounts crowdedCache (crowdedCache.carryOut operation) ∧
      (crowdedCache.carryOut operation = crowdedCache ↔
        ∀ text ∈ operation.texts, crowdedCache.IsFreeFor text) := by
  intro operation
  have stops : crowdedCache.completes operation = false := by decide +kernel
  obtain ⟨counts, entries⟩ := (completes_or_fails crowdedCache operation).2 stops
  exact ⟨stops, counts, entries (by decide)⟩

/-- A text that is to replace the one under its key can fail and take that one away. -/
theorem not_forall_carryOut_eq_self :
    ¬ ∀ cache, Reachable cache → ∀ operation, cache.completes operation = false →
      cache.carryOut operation = cache := by
  intro keeps
  have same := keeps crowdedCache reachable_crowdedCache (.call (.store 0 0 "key" "abcd"))
  revert same
  decide +kernel

end CodeProse.Cache
