import CodeProse.Proofs.Cache.Ranking

/-!
# Trimming a cache

What stays of a cache that has too many entries are the highest by score, and of entries of one
score those that were stored first. The ones that stay are put in the order of their scores, but
none of them is changed.
-/

set_option autoImplicit false

namespace CodeProse

def Binary64.moreEq (left right : Binary64) : Bool :=
  lessEq right left

namespace Cache

section Trimming

variable {cache : Cache} {now : Int}

theorem optimize?_of_length_le {maxEntries : Nat} (few : cache.entries.length ≤ maxEntries) :
    cache.optimize? now maxEntries = some (0, cache) := by
  simp only [optimize?]
  exact if_pos (Int.ofNat_le.mpr few)

theorem optimize?_of_lt_length {maxEntries : Nat} (many : maxEntries < cache.entries.length)
    {scored : List (Binary64 × Text × CacheEntry)}
    (ranks : scored? now cache.entries = some scored) :
    let ranked :=
      (stableSort (fun left right => Binary64.moreEq left.1 right.1) scored).map Prod.snd
    cache.optimize? now maxEntries =
      some ((cache.entries.length : Int) - maxEntries,
        { cache with entries := ranked.take maxEntries }) := by
  have excess : ¬ (cache.entries.length : Int) ≤ maxEntries := by omega
  simp only [optimize?, if_neg excess, ranks, upTo_natCast]
  rfl

/-- Trimming a cache in which every entry has a score tells how many entries go. As many stay as may
stay, none of them changed, each with a higher score than any that goes, or with the same and stored
before it. Whatever the time, trimming once more changes nothing. -/
theorem optimize?_keeps_highest (cache : Cache) (now : Int) (maxEntries : Nat)
    (scores : ∀ entry ∈ cache.entries, (score? now entry.2).isSome) :
    ∃ kept dropped, (kept ++ dropped).Perm cache.entries ∧
      kept.length = min cache.entries.length maxEntries ∧
      (∀ best ∈ kept, ∀ other ∈ dropped,
        Precedes Binary64.moreEq now cache.entries best other) ∧
      cache.optimize? now maxEntries = some (dropped.length, { cache with entries := kept }) ∧
      ∀ later, ({ cache with entries := kept } : Cache).optimize? later maxEntries =
        some (0, { cache with entries := kept }) := by
  rcases Nat.lt_or_ge maxEntries cache.entries.length with many | few
  · obtain ⟨scored, ranks⟩ := Option.isSome_iff_exists.mp (scored?_isSome scores)
    have trims := optimize?_of_lt_length many ranks
    have precedes := pairwise_precedes Binary64.moreEq
      (fun left middle right first second => Binary64.lessEq_trans right middle left second first)
      (fun _ _ leftNumber rightNumber => Binary64.lessEq_total rightNumber leftNumber) ranks
    have order := map_snd_stableSort_perm ranks fun left right => Binary64.moreEq left.1 right.1
    generalize (stableSort (fun left right => Binary64.moreEq left.1 right.1) scored).map
      Prod.snd = ranked at trims precedes order
    have whole : ranked.length = cache.entries.length := order.length_eq
    have stay : (ranked.take maxEntries).length = maxEntries := by
      rw [List.length_take, whole]
      omega
    refine ⟨ranked.take maxEntries, ranked.drop maxEntries, ?_, ?_, ?_, ?_, fun later => ?_⟩
    · rwa [List.take_append_drop]
    · rw [stay]
      omega
    · rw [← List.take_append_drop maxEntries ranked] at precedes
      exact (List.pairwise_append.mp precedes).2.2
    · rw [trims, List.length_drop, whole, Int.ofNat_sub (Nat.le_of_lt many)]
    · exact optimize?_of_length_le (Nat.le_of_eq stay)
  · refine ⟨cache.entries, [], ?_, ?_, ?_, ?_, fun later => ?_⟩
    · rw [List.append_nil]
    · omega
    · exact fun _ _ _ member => nomatch member
    · exact optimize?_of_length_le few
    · exact optimize?_of_length_le few

/-- A cache with entries of one score, one of which was found less than never, and one whose time
lies ahead. -/
def levelCache : Cache where
  entries :=
    [("first", ⟨"a", 0, 1, 1⟩), ("owing", ⟨"b", 0, -3, 1⟩), ("ahead", ⟨"c", 99, 5, 1⟩),
      ("second", ⟨"d", 5, 1, 1⟩), ("third", ⟨"e", 0, 2, 1⟩)]
  hits := .flag true

theorem optimize?_keeps_highest_levelCache :
    (∀ entry ∈ levelCache.entries, (score? 10 entry.2).isSome) ∧
      ∃ kept dropped, (kept ++ dropped).Perm levelCache.entries ∧ kept.length = min 5 2 ∧
        (∀ best ∈ kept, ∀ other ∈ dropped,
          Precedes Binary64.moreEq 10 levelCache.entries best other) ∧
        levelCache.optimize? 10 (2 : Nat) =
          some (dropped.length, { levelCache with entries := kept }) := by
  have scores : ∀ entry ∈ levelCache.entries, (score? 10 entry.2).isSome := by decide +kernel
  obtain ⟨kept, dropped, same, length, precedes, trims, -⟩ :=
    optimize?_keeps_highest levelCache 10 2 scores
  exact ⟨scores, kept, dropped, same, length, precedes, trims⟩

example : (levelCache.optimize? 10 2).map (fun result => result.2.entries.map Prod.fst) =
    some ["ahead".toText, "second"] := by decide +kernel

end Trimming

end Cache

end CodeProse
