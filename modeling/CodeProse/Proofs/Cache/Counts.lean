import CodeProse.Proofs.Cache.Failures
import CodeProse.Proofs.Cache.Expiry

/-!
# What a cache counts

The counts of a cache that has read in no other one are those of the questions since it was cleared
last, and the hits of its entries together are no more than the questions that were answered with a
text. Entries take their hits with them when they go.
-/

set_option autoImplicit false

namespace CodeProse.Cache

/-- Whether an operation takes over what another cache has counted. -/
def Operation.takesOver : Operation → Bool
  | .importing _ _ => true
  | _ => false

/-- Whether an operation counts a question, or forgets what was counted. -/
def Operation.counts : Operation → Bool
  | .call asked => asked.counts
  | _ => false

/-- What the questions since the last clearing have found, with one more operation. A question that
fails has found neither a text nor nothing. -/
def heard (cache : Cache) (found : List (Option Text)) : Operation → List (Option Text)
  | .call (.get now key) => found ++ (cache.get now key).1.toOption.toList
  | .call .clear => []
  | _ => found

/-- What the questions since the last clearing have found, with some more operations. -/
def heardFrom : Cache → List (Option Text) → List Operation → List (Option Text)
  | _, found, [] => found
  | cache, found, operation :: rest =>
      heardFrom (cache.carryOut operation) (cache.heard found operation) rest

/-- What the questions of a run from an empty cache have found since its last clearing. -/
def foundIn (limits : CacheLimits) (operations : List Operation) : List (Option Text) :=
  heardFrom { limits } [] operations

/-- The hits of some entries together. -/
def hitsTogether (entries : List (Text × CacheEntry)) : Int :=
  (entries.map (·.2.hits)).sum

/-- A cache has counted what the questions have found. -/
structure HasCounted (cache : Cache) (found : List (Option Text)) : Prop where
  distinct : cache.HasDistinctDigests
  hits_eq : cache.hits = .number (found.countP Option.isSome)
  misses_eq : cache.misses = .number (found.countP Option.isNone)
  nonneg : ∀ entry ∈ cache.entries, 0 ≤ entry.2.hits
  within : hitsTogether cache.entries ≤ found.countP Option.isSome

section Hits

variable {digest : Text} {entries kept : List (Text × CacheEntry)}

@[simp] theorem hitsTogether_cons (entry : Text × CacheEntry)
    (entries : List (Text × CacheEntry)) :
    hitsTogether (entry :: entries) = entry.2.hits + hitsTogether entries := rfl

@[simp] theorem hitsTogether_append (front back : List (Text × CacheEntry)) :
    hitsTogether (front ++ back) = hitsTogether front + hitsTogether back := by
  simp [hitsTogether]

theorem touch_of_not_mem (missing : digest ∉ entries.map Prod.fst) :
    touch digest entries = entries := by
  refine (List.map_congr_left fun entry member => if_neg fun own => ?_).trans (List.map_id entries)
  exact missing (own ▸ List.mem_map_of_mem member)

/-- Counting a hit counts one, as no digest stands twice. -/
theorem hitsTogether_touch (distinct : (entries.map Prod.fst).Nodup)
    (known : digest ∈ entries.map Prod.fst) :
    hitsTogether (touch digest entries) = hitsTogether entries + 1 := by
  induction entries with
  | nil => cases known
  | cons entry rest ih =>
      obtain ⟨fresh, further⟩ := List.nodup_cons.mp distinct
      by_cases own : entry.1 = digest
      · have others : touch digest rest = rest := touch_of_not_mem (own ▸ fresh)
        have first : touch digest (entry :: rest) =
            (entry.1, { entry.2 with hits := entry.2.hits + 1 }) :: touch digest rest := by
          rw [touch, List.map_cons, if_pos own]
          rfl
        rw [first, others, hitsTogether_cons, hitsTogether_cons]
        exact Int.add_right_comm _ _ _
      · have later := ih further ((List.mem_cons.mp known).resolve_left (Ne.symm own))
        have first : touch digest (entry :: rest) = entry :: touch digest rest := by
          rw [touch, List.map_cons, if_neg own]
          rfl
        rw [first, hitsTogether_cons, hitsTogether_cons, later]
        omega

theorem hitsTogether_le_of_subperm (fewer : kept.Subperm entries)
    (nonneg : ∀ entry ∈ entries, 0 ≤ entry.2.hits) :
    hitsTogether kept ≤ hitsTogether entries := by
  obtain ⟨part, same, within⟩ := fewer
  have permuted : hitsTogether part = hitsTogether kept := (same.map _).sum_eq
  rw [← permuted]
  refine (within.map _).sum_le_sum fun hits member => ?_
  obtain ⟨entry, known, rfl⟩ := List.mem_map.mp member
  exact nonneg entry known

end Hits

section Silent

variable {cache : Cache}

theorem sheds_carryOut {operation : Operation} (idle : operation.texts = [])
    (own : operation.takesOver = false) (silent : operation.counts = false) :
    Sheds cache (cache.carryOut operation) := by
  cases operation with
  | call asked => exact sheds_perform idle silent
  | statistics now => exact .refl cache
  | topEntries limit => exact .refl cache
  | exporting now => exact .refl cache
  | importing depth text => cases own

/-- An operation that neither counts nor takes over what another cache has counted changes no
count. -/
theorem counts_carryOut {operation : Operation} (own : operation.takesOver = false)
    (silent : operation.counts = false) :
    (cache.carryOut operation).hits = cache.hits ∧
      (cache.carryOut operation).misses = cache.misses := by
  by_cases idle : operation.texts = []
  · have sheds : Sheds cache (cache.carryOut operation) := sheds_carryOut idle own silent
    exact ⟨sheds.hits_eq, sheds.misses_eq⟩
  · cases operation with
    | call asked =>
        cases asked with
        | store ranking stamp key value => exact (keepsCounts_store cache ranking stamp key value).2
        | preload time texts => exact (keepsCounts_preload cache time texts).2
        | get now key => cases silent
        | clear => cases silent
        | has now key => exact absurd rfl idle
        | delete key => exact absurd rfl idle
        | cleanup now => exact absurd rfl idle
        | optimize now maxEntries => exact absurd rfl idle
        | configure maxSize maxAge => exact absurd rfl idle
    | statistics now => exact absurd rfl idle
    | topEntries limit => exact absurd rfl idle
    | exporting now => exact absurd rfl idle
    | importing depth text => cases own

end Silent

section Counting

variable {cache next : Cache} {found : List (Option Text)}

theorem HasCounted.sheds (counted : cache.HasCounted found) (sheds : Sheds cache next)
    (distinct : next.HasDistinctDigests) : next.HasCounted found := by
  obtain ⟨fewer, hits, misses⟩ := sheds
  refine ⟨distinct, hits.trans counted.hits_eq, misses.trans counted.misses_eq, ?_, ?_⟩
  · exact fun entry member => counted.nonneg entry (fewer.subset member)
  · exact Int.le_trans (hitsTogether_le_of_subperm fewer counted.nonneg) counted.within

theorem HasCounted.store (counted : cache.HasCounted found) (ranking stamp : Int)
    (key value : Text) : (cache.store ranking stamp key value).2.HasCounted found := by
  have distinct := hasDistinctDigests_store counted.distinct ranking stamp key value
  revert distinct
  refine store_keeps (fun next => next.HasDistinctDigests → next.HasCounted found)
    (fun _ => counted) fun digest size _ _ distinct => ?_
  have stores := stores_put cache ranking stamp digest value size
  generalize (cache.put ranking stamp digest value size).2 = next at distinct stores
  cases stores with
  | refused large => exact counted
  | dropped fits unranked => exact counted.sheds (sheds_forget cache _) distinct
  | @placed kept fits fewer room =>
      have part : kept.Subperm cache.entries := (fewer.trans List.filter_sublist).subperm
      have less := hitsTogether_le_of_subperm part counted.nonneg
      refine ⟨distinct, counted.hits_eq, counted.misses_eq, fun entry member => ?_, ?_⟩
      · rcases List.mem_append.mp member with old | new
        · exact counted.nonneg entry (part.subset old)
        · rw [List.mem_singleton.mp new]
      · have unused : hitsTogether [(digest, ⟨value, stamp, 0, size⟩)] = 0 := rfl
        rw [append, hitsTogether_append, unused, Int.add_zero]
        exact Int.le_trans less counted.within

/-- A question counts as found or missed, and its hit goes to one entry. -/
theorem HasCounted.find (counted : cache.HasCounted found) (now : Int) (digest : Text)
    (distinct : (cache.find now digest).2.HasDistinctDigests) :
    (cache.find now digest).2.HasCounted (found ++ [(cache.find now digest).1]) := by
  rcases isSpent_or_exists_fresh cache now digest with spent | ⟨entry, stored, fresh⟩
  · have left := counted.sheds (sheds_forget cache digest)
      (hasDistinctDigests_forget counted.distinct _)
    rw [find_of_isSpent spent] at distinct ⊢
    refine ⟨distinct, ?_, ?_, left.nonneg, ?_⟩
    · simpa using left.hits_eq
    · simp [counted.misses_eq, Counter.next, Counter.value]
    · simpa using left.within
  · have one := hitsTogether_touch counted.distinct (List.mem_map_of_mem stored)
    have within := counted.within
    rw [find_of_fresh counted.distinct stored fresh] at distinct ⊢
    refine ⟨distinct, ?_, ?_, fun entry member => ?_, ?_⟩
    · simp [counted.hits_eq, Counter.next, Counter.value]
    · simpa using counted.misses_eq
    · obtain ⟨old, known, touched⟩ := List.mem_map.mp member
      have least := counted.nonneg old known
      split at touched
      · rw [← touched]
        exact Int.le_add_one least
      · exact touched ▸ least
    · rw [one]
      simpa using within

theorem HasCounted.get (counted : cache.HasCounted found) (now : Int) (key : Text) :
    (cache.get now key).2.HasCounted (found ++ (cache.get now key).1.toOption.toList) := by
  have distinct := hasDistinctDigests_get counted.distinct now key
  cases known : digestOf key with
  | ok digest =>
      rw [Cache.get, withDigest_of_ok known] at distinct ⊢
      exact counted.find now digest distinct
  | error fault =>
      rw [Cache.get, withDigest_of_error known]
      simpa [Except.toOption] using counted

theorem hasCounted_empty {limits : CacheLimits} : HasCounted { limits } [] :=
  ⟨List.nodup_nil, rfl, rfl, fun _ member => (nomatch member), Int.le_refl 0⟩

/-- Every operation keeps what a cache has counted in step with what the questions have found. -/
theorem HasCounted.carryOut (counted : cache.HasCounted found) {operation : Operation}
    (own : operation.takesOver = false) :
    (cache.carryOut operation).HasCounted (cache.heard found operation) := by
  have distinct : ∀ call, (cache.perform call).HasDistinctDigests :=
    hasDistinctDigests_perform counted.distinct
  cases operation with
  | call asked =>
      cases asked with
      | get now key => exact counted.get now key
      | clear => exact hasCounted_empty
      | store ranking stamp key value => exact counted.store ranking stamp key value
      | preload time texts =>
          have step : ∀ (other : Cache) (ranking stamp : Int) (key value : Text),
              other.HasCounted found → (other.store ranking stamp key value).2.HasCounted found :=
            fun _ ranking stamp key value kept => kept.store ranking stamp key value
          exact preload_keeps step texts counted
      | has now key => exact counted.sheds (sheds_carryOut rfl own rfl) (distinct _)
      | delete key => exact counted.sheds (sheds_carryOut rfl own rfl) (distinct _)
      | cleanup now => exact counted.sheds (sheds_carryOut rfl own rfl) (distinct _)
      | optimize now maxEntries => exact counted.sheds (sheds_carryOut rfl own rfl) (distinct _)
      | configure maxSize maxAge => exact counted.sheds (sheds_carryOut rfl own rfl) (distinct _)
  | statistics now => exact counted
  | topEntries limit => exact counted
  | exporting now => exact counted
  | importing depth text => cases own

theorem HasCounted.foldl_carryOut (counted : cache.HasCounted found)
    {operations : List Operation}
    (own : ∀ operation ∈ operations, operation.takesOver = false) :
    (operations.foldl Cache.carryOut cache).HasCounted (heardFrom cache found operations) := by
  induction operations generalizing cache found with
  | nil => exact counted
  | cons operation rest ih =>
      obtain ⟨first, further⟩ := List.forall_mem_cons.mp own
      exact ih (counted.carryOut first) further

end Counting

/-- On every run from an empty cache that reads in no other one, the cache has counted the questions
since the last clearing: those that found a text as hits, the others as misses. The hits of its
entries together are no more. Only questions and clearings change a count. -/
theorem counts_of_run (limits : CacheLimits) (operations : List Operation)
    (own : ∀ operation ∈ operations, operation.takesOver = false) :
    let cache := operations.foldl carryOut { limits }
    let found := foundIn limits operations
    cache.hits = .number (found.countP Option.isSome) ∧
      cache.misses = .number (found.countP Option.isNone) ∧
      hitsTogether cache.entries ≤ cache.hits.value ∧
      ∀ operation, operation.takesOver = false → operation.counts = false →
        (cache.carryOut operation).hits = cache.hits ∧
          (cache.carryOut operation).misses = cache.misses := by
  intro cache found
  have counted : cache.HasCounted found := hasCounted_empty.foldl_carryOut own
  refine ⟨counted.hits_eq, counted.misses_eq, ?_, fun operation => counts_carryOut⟩
  rw [counted.hits_eq]
  exact counted.within

/-- Operations on a small cache that count, lose what they have counted with an entry, clear the
cache and count again. -/
def countedOperations : List Operation :=
  [.call (.store 0 0 "a" "xy"), .call (.get 1 "a"), .call .clear, .call (.get 2 "a"),
    .call (.preload (fun _ => 3) [("a", "xy"), ("b", "z")]), .call (.get 4 "a"),
    .call (.get 4 "b"), .call (.get 4 [CodePoint.ofNat 0xDE00]), .call (.has 5 "b"),
    .call (.store 6 6 "c" "uvw"), .statistics 7, .call (.get 8 "c"),
    .call (.optimize 9 1)]

theorem counts_of_run_countedOperations :
    let cache := countedOperations.foldl carryOut { limits := { maxSize := 4 } }
    let found := foundIn { maxSize := 4 } countedOperations
    (∀ operation ∈ countedOperations, operation.takesOver = false) ∧
      cache.hits = .number (found.countP Option.isSome) ∧
      cache.misses = .number (found.countP Option.isNone) ∧
      hitsTogether cache.entries ≤ cache.hits.value := by
  intro cache found
  have own : ∀ operation ∈ countedOperations, operation.takesOver = false := by decide
  obtain ⟨hits, misses, within, -⟩ := counts_of_run { maxSize := 4 } countedOperations own
  exact ⟨own, hits, misses, within⟩

end CodeProse.Cache
