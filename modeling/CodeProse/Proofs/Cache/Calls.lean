import CodeProse.Proofs.Cache.Eviction

/-!
# Calls on a cache

A run of calls from an empty cache, each with the times that it reads off the clock. Only storing
puts texts into a cache; every other call leaves them as they are, drops some or puts them in
another order. So the texts stay within the limit on every run that does not change it.
-/

set_option autoImplicit false

namespace CodeProse.Cache

/-- A call on a cache, with the times that it reads off the clock. -/
inductive Call where
  | get (now : Int) (key : Text)
  | has (now : Int) (key : Text)
  | store (ranking stamp : Int) (key value : Text)
  | delete (key : Text)
  | clear
  | cleanup (now : Int)
  | optimize (now maxEntries : Int)
  | preload (time : Nat → Int) (texts : List (Text × Text))
  | configure (maxSize maxAge : Option Int)

def Call.texts : Call → List (Text × Text)
  | store _ _ key value => [(key, value)]
  | preload _ texts => texts
  | _ => []

/-- Whether a call counts a question, or forgets what was counted. -/
def Call.counts : Call → Bool
  | get _ _ => true
  | clear => true
  | _ => false

/-- Whether a call leaves the limits alone. -/
def Call.keepsLimits : Call → Bool
  | configure _ _ => false
  | _ => true

/-- The cache after a call. One that cannot be ranked is not trimmed. -/
def perform (cache : Cache) : Call → Cache
  | .get now key => (cache.get now key).2
  | .has now key => (cache.has now key).2
  | .store ranking stamp key value => (cache.store ranking stamp key value).2
  | .delete key => (cache.delete key).2
  | .clear => cache.clear
  | .cleanup now => (cache.cleanup now).2
  | .optimize now maxEntries => ((cache.optimize? now maxEntries).map Prod.snd).getD cache
  | .preload time texts => (cache.preload time texts).2
  | .configure maxSize maxAge => cache.configure maxSize maxAge

/-- The cache after some calls on an empty one. -/
def afterCalls (limits : CacheLimits) (calls : List Call) : Cache :=
  calls.foldl perform { limits }

/-- What an entry holds: a text under a digest, and its size. -/
def content (entry : Text × CacheEntry) : Text × Text × Int :=
  (entry.1, entry.2.value, entry.2.size)

/-- What the entries of a cache hold is left of what those of another one held. -/
def Thins (cache next : Cache) : Prop :=
  (next.entries.map content).Subperm (cache.entries.map content)

/-- The entries of a cache are left of those of another one, and the counts are the same. -/
structure Sheds (cache next : Cache) : Prop where
  fewer : next.entries.Subperm cache.entries
  hits_eq : next.hits = cache.hits
  misses_eq : next.misses = cache.misses

section Perform

variable {cache next : Cache} {call : Call}

theorem hasDistinctDigests_perform (distinct : cache.HasDistinctDigests) (call : Call) :
    (cache.perform call).HasDistinctDigests := by
  cases call with
  | get now key => exact hasDistinctDigests_get distinct now key
  | has now key => exact hasDistinctDigests_has distinct now key
  | store ranking stamp key value =>
      exact hasDistinctDigests_store distinct ranking stamp key value
  | delete key => exact hasDistinctDigests_delete distinct key
  | clear => exact List.nodup_nil
  | cleanup now => exact nodup_of_sublist List.filter_sublist distinct
  | optimize now maxEntries =>
      simp only [perform]
      cases trimmed : cache.optimize? now maxEntries with
      | none => exact distinct
      | some kept => exact hasDistinctDigests_optimize? distinct trimmed
  | preload time texts => exact hasDistinctDigests_preload distinct time texts
  | configure maxSize maxAge => exact distinct

/-- What every storing keeps, storing several texts keeps. -/
theorem preload_keeps {holds : Cache → Prop} {time : Nat → Int}
    (step : ∀ cache ranking stamp key value, holds cache →
      holds (cache.store ranking stamp key value).2)
    (texts : List (Text × Text)) (start : holds cache) : holds (cache.preload time texts).2 := by
  induction texts generalizing cache time with
  | nil => exact start
  | cons text rest ih =>
      have first := step cache (time 0) (time 1) text.1 text.2 start
      rw [preload]
      split
      · next same =>
          rw [same] at first
          exact first
      · next same =>
          rw [same] at first
          exact ih first

theorem limits_perform (keeps : call.keepsLimits = true) :
    (cache.perform call).limits = cache.limits := by
  cases call with
  | get now key => exact limits_get
  | has now key =>
      refine withDigest_keeps (fun next => next.limits = cache.limits) rfl fun digest _ => ?_
      rcases cache.holds_eq_or_forgets now digest with same | same <;> rw [same]
      rfl
  | store ranking stamp key value => exact limits_store
  | delete key =>
      exact withDigest_keeps (fun next => next.limits = cache.limits) rfl fun _ _ => rfl
  | clear => rfl
  | cleanup now => rfl
  | optimize now maxEntries =>
      simp only [perform]
      cases trimmed : cache.optimize? now maxEntries with
      | none => rfl
      | some kept =>
          obtain ⟨left, -, same⟩ := exists_kept_of_optimize? trimmed
          show kept.2.limits = cache.limits
          rw [same]
  | preload time texts =>
      have step : ∀ (other : Cache) (ranking stamp : Int) (key value : Text),
          other.limits = cache.limits →
            (other.store ranking stamp key value).2.limits = cache.limits :=
        fun _ _ _ _ _ kept => limits_store.trans kept
      exact preload_keeps step texts rfl
  | configure maxSize maxAge => cases keeps

end Perform

section Shedding

variable {cache : Cache}

theorem Sheds.refl (cache : Cache) : Sheds cache cache :=
  ⟨List.Subperm.refl _, rfl, rfl⟩

theorem sheds_forget (cache : Cache) (digest : Text) : Sheds cache (cache.forget digest) :=
  ⟨List.filter_sublist.subperm, rfl, rfl⟩

theorem sheds_has (cache : Cache) (now : Int) (key : Text) :
    Sheds cache (cache.has now key).2 := by
  refine withDigest_keeps (Sheds cache) (.refl cache) fun digest _ => ?_
  rcases cache.holds_eq_or_forgets now digest with same | same <;> rw [same]
  · exact .refl cache
  · exact sheds_forget cache _

theorem sheds_delete (cache : Cache) (key : Text) : Sheds cache (cache.delete key).2 :=
  withDigest_keeps (Sheds cache) (.refl cache) fun digest _ => sheds_forget cache digest

/-- A call that neither stores nor counts anything only lets entries go. -/
theorem sheds_perform {call : Call} (idle : call.texts = []) (silent : call.counts = false) :
    Sheds cache (cache.perform call) := by
  cases call with
  | get now key => cases silent
  | clear => cases silent
  | store ranking stamp key value => cases idle
  | preload time texts =>
      obtain rfl : texts = [] := idle
      exact .refl cache
  | has now key => exact sheds_has cache now key
  | delete key => exact sheds_delete cache key
  | cleanup now => exact ⟨List.filter_sublist.subperm, rfl, rfl⟩
  | configure maxSize maxAge => exact ⟨List.Subperm.refl _, rfl, rfl⟩
  | optimize now maxEntries =>
      simp only [perform]
      cases done : cache.optimize? now maxEntries with
      | none => exact .refl cache
      | some result =>
          obtain ⟨kept, fewer, same⟩ := exists_kept_of_optimize? done
          rw [Option.map_some, Option.getD_some, same]
          exact ⟨fewer, rfl, rfl⟩

end Shedding

section Thinning

variable {cache next : Cache}

theorem Thins.refl (cache : Cache) : Thins cache cache :=
  List.Subperm.refl _

theorem Thins.of_sublist (fewer : next.entries.Sublist cache.entries) : Thins cache next :=
  (fewer.map content).subperm

theorem thins_get (cache : Cache) (now : Int) (key : Text) : Thins cache (cache.get now key).2 := by
  refine withDigest_keeps (Thins cache) (.refl cache) fun digest _ => ?_
  have answers := find_answers cache now digest
  generalize cache.find now digest = result at answers ⊢
  cases answers with
  | missing absent => exact .refl cache
  | expired stored old => exact .of_sublist List.filter_sublist
  | found stored fresh =>
      exact (List.Perm.of_eq (map_touch (fun _ _ _ => rfl) _ cache.entries)).subperm

theorem Sheds.thins (sheds : Sheds cache next) : Thins cache next := by
  obtain ⟨part, same, fewer⟩ := sheds.fewer
  exact ⟨part.map content, same.map content, fewer.map content⟩

theorem thins_perform {call : Call} (idle : call.texts = []) :
    Thins cache (cache.perform call) := by
  cases call with
  | get now key => exact thins_get cache now key
  | clear => exact .of_sublist (List.nil_sublist _)
  | store ranking stamp key value => cases idle
  | preload time texts => exact (sheds_perform idle rfl).thins
  | has now key => exact (sheds_perform idle rfl).thins
  | delete key => exact (sheds_perform idle rfl).thins
  | cleanup now => exact (sheds_perform idle rfl).thins
  | optimize now maxEntries => exact (sheds_perform idle rfl).thins
  | configure maxSize maxAge => exact (sheds_perform idle rfl).thins

theorem Thins.exists_mem (thins : Thins cache next) {entry : Text × CacheEntry}
    (member : entry ∈ next.entries) :
    ∃ old ∈ cache.entries, old.1 = entry.1 ∧ old.2.value = entry.2.value ∧
      old.2.size = entry.2.size := by
  obtain ⟨old, known, same⟩ := List.mem_map.mp (thins.subset (List.mem_map_of_mem member))
  obtain ⟨digest, value, size⟩ := by simpa [content] using same
  exact ⟨old, known, digest, value, size⟩

end Thinning

section Size

variable {cache next : Cache}

/-- An entry is as large as its text in UTF-8. -/
def IsSized (entry : CacheEntry) : Prop :=
  ∃ size : Nat, entry.value.utf8Size? = some size ∧ entry.size = size

/-- Every entry is as large as its text, and together they are within the limit. -/
structure IsMeasured (cache : Cache) : Prop where
  distinct : cache.HasDistinctDigests
  sized : ∀ entry ∈ cache.entries, IsSized entry.2
  within : cache.totalSize ≤ cache.limits.maxSize

theorem IsSized.nonneg {entry : CacheEntry} (sized : IsSized entry) : 0 ≤ entry.size := by
  obtain ⟨size, -, same⟩ := sized
  rw [same]
  exact Int.natCast_nonneg size

theorem sizes_le_of_subperm {entries kept : List (Text × CacheEntry)}
    (thins : (kept.map content).Subperm (entries.map content))
    (nonneg : ∀ entry ∈ entries, 0 ≤ entry.2.size) : sizes kept ≤ sizes entries := by
  obtain ⟨part, same, fewer⟩ := thins
  have measured : ∀ entries : List (Text × CacheEntry),
      sizes entries = ((entries.map content).map (·.2.2)).sum := by
    intro entries
    rw [List.map_map]
    rfl
  have permuted : (part.map (·.2.2)).sum = ((kept.map content).map (·.2.2)).sum :=
    (same.map _).sum_eq
  rw [measured, measured, ← permuted]
  refine (fewer.map _).sum_le_sum fun size member => ?_
  obtain ⟨held, known, rfl⟩ := List.mem_map.mp member
  obtain ⟨entry, listed, rfl⟩ := List.mem_map.mp known
  exact nonneg entry listed

theorem IsMeasured.of_thins (measured : cache.IsMeasured) (thins : Thins cache next)
    (distinct : next.HasDistinctDigests) (limits : next.limits = cache.limits) :
    next.IsMeasured := by
  refine ⟨distinct, fun entry member => ?_, ?_⟩
  · obtain ⟨old, known, -, value, size⟩ := thins.exists_mem member
    rw [IsSized, ← size, ← value]
    exact measured.sized old known
  · have less := sizes_le_of_subperm thins fun entry member => (measured.sized entry member).nonneg
    have within := measured.within
    rw [totalSize_eq_sizes] at within ⊢
    rw [limits]
    exact Int.le_trans less within

theorem IsMeasured.store (measured : cache.IsMeasured) (ranking stamp : Int) (key value : Text) :
    (cache.store ranking stamp key value).2.IsMeasured := by
  have distinct := hasDistinctDigests_store measured.distinct ranking stamp key value
  revert distinct
  refine store_keeps (fun next => next.HasDistinctDigests → next.IsMeasured)
    (fun _ => measured) fun digest size _ known distinct => ?_
  have stores := stores_put cache ranking stamp digest value size
  generalize (cache.put ranking stamp digest value size).2 = next at distinct stores
  cases stores with
  | refused large => exact measured
  | dropped fits unranked => exact measured.of_thins (.of_sublist List.filter_sublist) distinct rfl
  | placed fits fewer room =>
      refine ⟨distinct, fun entry member => ?_, ?_⟩
      · rcases List.mem_append.mp member with old | new
        · exact measured.sized entry (mem_of_mem_dropDigest (fewer.subset old))
        · rw [List.mem_singleton.mp new]
          exact ⟨size, known, rfl⟩
      · rw [totalSize_eq_sizes, append, sizes_append, sizes_cons, sizes_nil, Int.add_zero]
        exact room measured.distinct

theorem IsMeasured.perform (measured : cache.IsMeasured) (call : Call)
    (keeps : call.keepsLimits = true) : (cache.perform call).IsMeasured := by
  have distinct := hasDistinctDigests_perform measured.distinct call
  have limits : (cache.perform call).limits = cache.limits := limits_perform keeps
  cases call with
  | store ranking stamp key value => exact measured.store ranking stamp key value
  | preload time texts =>
      exact preload_keeps (fun _ ranking stamp key value kept => kept.store ranking stamp key value)
        texts measured
  | get now key => exact measured.of_thins (thins_perform rfl) distinct limits
  | has now key => exact measured.of_thins (thins_perform rfl) distinct limits
  | delete key => exact measured.of_thins (thins_perform rfl) distinct limits
  | clear => exact measured.of_thins (thins_perform rfl) distinct limits
  | cleanup now => exact measured.of_thins (thins_perform rfl) distinct limits
  | optimize now maxEntries => exact measured.of_thins (thins_perform rfl) distinct limits
  | configure maxSize maxAge => cases keeps

theorem IsMeasured.foldl_perform (measured : cache.IsMeasured) {calls : List Call}
    (keep : ∀ call ∈ calls, call.keepsLimits = true) :
    (calls.foldl Cache.perform cache).IsMeasured ∧
      (calls.foldl Cache.perform cache).limits = cache.limits := by
  induction calls generalizing cache with
  | nil => exact ⟨measured, rfl⟩
  | cons call rest ih =>
      have first := keep call List.mem_cons_self
      obtain ⟨later, limits⟩ := ih (measured.perform call first) fun next member =>
        keep next (List.mem_cons_of_mem call member)
      exact ⟨later, limits.trans (limits_perform first)⟩

theorem isMeasured_empty {limits : CacheLimits} (nonneg : 0 ≤ limits.maxSize) :
    IsMeasured { limits } :=
  ⟨List.nodup_nil, fun _ member => (nomatch member), nonneg⟩

/-- Storing a text that alone is within the limit leaves every cache within it, the new entry in
place, whatever sizes the entries claim to have, as long as they have scores; under a key without a
digest nothing is stored. From an empty cache on, every run that does not change the limits stays
within them, each entry as large as its text. -/
theorem totalSize_within :
    (∀ (cache : Cache) (ranking stamp : Int) (key value : Text) (size : Nat),
      cache.HasDistinctDigests → value.utf8Size? = some size →
      (size : Int) ≤ cache.limits.maxSize →
      (∀ entry ∈ cache.entries, (score? ranking entry.2).isSome) →
        let storing := cache.store ranking stamp key value
        (∀ digest, digestOf key = .ok digest →
          storing.1.isOk ∧ storing.2.limits = cache.limits ∧
            storing.2.totalSize ≤ cache.limits.maxSize ∧
            storing.2.entries.lookup digest = some ⟨value, stamp, 0, size⟩) ∧
        ∀ fault, digestOf key = .error fault → storing = (.error .unencodable, cache)) ∧
    ∀ (limits : CacheLimits) (calls : List Call), 0 ≤ limits.maxSize →
      (∀ call ∈ calls, call.keepsLimits = true) →
        (afterCalls limits calls).totalSize ≤ limits.maxSize ∧
          ∀ entry ∈ (afterCalls limits calls).entries, IsSized entry.2 := by
  constructor
  · intro cache ranking stamp key value size distinct measured fits scores storing
    constructor
    · intro digest known
      have limits : storing.2.limits = cache.limits := limits_store
      have distinctNext : storing.2.HasDistinctDigests :=
        hasDistinctDigests_store distinct ranking stamp key value
      have same : storing = cache.put ranking stamp digest value size := store_of_ok known measured
      have done : storing.1.isOk := same ▸ put_isOk scores
      have stores : Stores cache ranking stamp digest value size storing.2 :=
        same ▸ stores_put cache ranking stamp digest value size
      refine ⟨done, limits, ?_⟩
      generalize storing.2 = next at distinctNext stores ⊢
      cases stores with
      | refused large => exact absurd fits (Int.not_le.mpr large)
      | dropped _ unranked =>
          have ranked : (scored? ranking (dropDigest digest cache.entries)).isSome :=
            scored?_isSome fun entry member => scores entry (mem_of_mem_dropDigest member)
          rw [unranked] at ranked
          cases ranked
      | placed _ fewer room =>
          refine ⟨?_, lookup_eq_some_of_mem distinctNext (List.mem_append_right _ ?_)⟩
          · rw [totalSize_eq_sizes, append, sizes_append, sizes_cons, sizes_nil, Int.add_zero]
            exact room distinct
          · exact List.mem_singleton_self _
    · intro fault foreign
      refine store_of_unencodable fun digest _ known => ?_
      rw [foreign] at known
      cases known
  · intro limits calls nonneg keep
    obtain ⟨measured, same⟩ := (isMeasured_empty nonneg).foldl_perform keep
    have within := measured.within
    rw [same] at within
    exact ⟨within, measured.sized⟩

/-- A cache under a small limit that has read in an entry of a negative size. -/
def oddCache : Cache where
  limits := { maxSize := 4 }
  entries := [("one", ⟨"abc", 0, 3, 9⟩), ("two", ⟨"d", 2, 0, -5⟩)]

/-- Calls that fill a small cache, replace a text and let another one go, and two that fail. -/
def busyCalls : List Call :=
  [.preload (fun reading => reading) [("a", "xy"), ("b", "z")], .get 3 "a", .store 5 5 "b" "uv",
    .store 6 6 "c" "w", .store 7 7 "c" [CodePoint.ofNat 0xD83D], .delete [CodePoint.ofNat 0xDE00],
    .cleanup 9, .optimize 9 1]

theorem totalSize_within_oddCache :
    (oddCache.store 7 8 "key" "text").2.totalSize ≤ 4 ∧
      (afterCalls { maxSize := 4 } busyCalls).totalSize ≤ 4 := by
  have law := totalSize_within
  have distinct : oddCache.HasDistinctDigests :=
    (by decide : (oddCache.entries.map Prod.fst).Nodup)
  have known : digestOf "key" = .ok (entryFor "key" ⟨[], 0, 0, 0⟩).1 := by decide +kernel
  have stored := law.1 oddCache 7 8 "key" "text" 4 distinct (by decide) (by decide)
    (by decide +kernel)
  exact ⟨(stored.1 _ known).2.2.1, (law.2 { maxSize := 4 } busyCalls (by decide) (by decide)).1⟩

end Size

end CodeProse.Cache
