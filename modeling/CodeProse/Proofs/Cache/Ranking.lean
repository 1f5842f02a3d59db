import CodeProse.Proofs.Cache.Eviction
import CodeProse.Proofs.Numeric.Binary64

/-!
# Who makes room in a cache

The entries that make room for a text are the lowest by score, entries of one score in the order in
which they were stored, and no more of them than it takes. The others stay as they are, in their
order.
-/

set_option autoImplicit false

namespace CodeProse.Cache

/-- Whether the first of two entries has the lower score. -/
def scoresBelow (now : Int) (left right : CacheEntry) : Bool :=
  (score? now left).any fun leftScore => (score? now right).any leftScore.less

/-- Some entries by ascending score, those of one score in the order in which they are stored. -/
structure IsRanking (now : Int) (entries ranked : List (Text × CacheEntry)) : Prop where
  perm : ranked.Perm entries
  ascending : ranked.Pairwise fun left right => scoresBelow now right.2 left.2 = false
  ties : ranked.Pairwise fun left right =>
    scoresBelow now left.2 right.2 = false → [left, right].Sublist entries

section Ranking

variable {now : Int} {entries : List (Text × CacheEntry)}
  {scored : List (Binary64 × Text × CacheEntry)}

theorem score?_of_mem_scored? (ranks : scored? now entries = some scored)
    {item : Binary64 × Text × CacheEntry} (member : item ∈ scored) :
    score? now item.2.2 = some item.1 := by
  induction entries generalizing scored with
  | nil =>
      cases ranks
      cases member
  | cons entry rest ih =>
      rw [scored?, List.mapM_cons] at ranks
      obtain ⟨first, score, behind⟩ := Option.bind_eq_some_iff.mp ranks
      obtain ⟨further, scores, made⟩ := Option.bind_eq_some_iff.mp behind
      obtain ⟨value, known, rfl⟩ := Option.map_eq_some_iff.mp score
      cases made
      rcases List.mem_cons.mp member with rfl | later
      · exact known
      · exact ih scores later

theorem ne_nan_of_score? {entry : CacheEntry} {score : Binary64}
    (known : score? now entry = some score) : score ≠ .nan := by
  unfold score? at known
  exact Binary64.ne_nan_of_ofRatio? known

theorem scoresBelow_of_score? {left right : CacheEntry} {leftScore rightScore : Binary64}
    (leftKnown : score? now left = some leftScore)
    (rightKnown : score? now right = some rightScore) :
    scoresBelow now left right = leftScore.less rightScore := by
  rw [scoresBelow, leftKnown, rightKnown, Option.any_some, Option.any_some]

/-- The first of two entries may stand before the second by its score, and did so in the list if the
second might as well stand before it. -/
def Precedes (order : Binary64 → Binary64 → Bool) (now : Int) (entries : List (Text × CacheEntry))
    (left right : Text × CacheEntry) : Prop :=
  ∃ leftScore rightScore, score? now left.2 = some leftScore ∧
    score? now right.2 = some rightScore ∧ order leftScore rightScore = true ∧
    (order rightScore leftScore = true → [left, right].Sublist entries)

theorem pairwise_precedes (order : Binary64 → Binary64 → Bool)
    (trans : ∀ left middle right, order left middle = true → order middle right = true →
      order left right = true)
    (total : ∀ left right, left ≠ .nan → right ≠ .nan →
      order left right = true ∨ order right left = true)
    (ranks : scored? now entries = some scored) :
    ((stableSort (fun left right => order left.1 right.1) scored).map Prod.snd).Pairwise
      (Precedes order now entries) := by
  have number : ∀ item ∈ scored, item.1 ≠ .nan := fun item member =>
    ne_nan_of_score? (score?_of_mem_scored? ranks member)
  have ordered : (stableSort (fun left right => order left.1 right.1) scored).Pairwise
      fun left right => order left.1 right.1 = true :=
    pairwise_stableSort (fun left middle right => trans left.1 middle.1 right.1)
      fun left leftMember right rightMember =>
        total left.1 right.1 (number left leftMember) (number right rightMember)
  have kept := pairwise_sublist_stableSort (fun left right => order left.1 right.1) scored
  refine List.pairwise_map.mpr ((ordered.and kept).imp_of_mem ?_)
  intro left right leftMember rightMember ⟨before, inOrder⟩
  have leftScore := score?_of_mem_scored? ranks (mem_stableSort.mp leftMember)
  have rightScore := score?_of_mem_scored? ranks (mem_stableSort.mp rightMember)
  refine ⟨left.1, right.1, leftScore, rightScore, before, fun level => ?_⟩
  have listed := (inOrder level).map Prod.snd
  rwa [map_snd_scored? ranks] at listed

theorem isRanking_stableSort (ranks : scored? now entries = some scored) :
    IsRanking now entries
      ((stableSort (fun left right => Binary64.lessEq left.1 right.1) scored).map Prod.snd) := by
  have precedes := pairwise_precedes Binary64.lessEq Binary64.lessEq_trans
    (fun _ _ => Binary64.lessEq_total) ranks
  -- Scores that are known are no `nan`, so that one is not below another exactly if it is not
  -- less.
  have level : ∀ {left right : Text × CacheEntry} {leftScore rightScore : Binary64},
      score? now left.2 = some leftScore → score? now right.2 = some rightScore →
      (scoresBelow now left.2 right.2 = false ↔ Binary64.lessEq rightScore leftScore = true) := by
    intro left right leftScore rightScore leftKnown rightKnown
    rw [scoresBelow_of_score? leftKnown rightKnown]
    exact (Binary64.lessEq_iff (ne_nan_of_score? rightKnown) (ne_nan_of_score? leftKnown)).symm
  constructor
  case perm => exact map_snd_stableSort_perm ranks _
  case ascending =>
    refine precedes.imp ?_
    rintro left right ⟨leftScore, rightScore, leftKnown, rightKnown, before, -⟩
    exact (level rightKnown leftKnown).mpr before
  case ties =>
    refine precedes.imp ?_
    rintro left right ⟨leftScore, rightScore, leftKnown, rightKnown, -, inOrder⟩ equal
    exact inOrder ((level leftKnown rightKnown).mp equal)

end Ranking

section Evicting

variable {entries ranked : List (Text × CacheEntry)}

theorem filter_victims {gone : List (Text × CacheEntry)} (distinct : (entries.map Prod.fst).Nodup)
    (known : ∀ entry ∈ gone, entry ∈ entries) :
    entries.filter (fun entry => !(gone.map Prod.fst).contains entry.1) =
      entries.filter fun entry => entry ∉ gone := by
  refine List.filter_congr fun entry member => ?_
  have listed : entry.1 ∈ gone.map Prod.fst ↔ entry ∈ gone := by
    constructor
    · intro listed
      obtain ⟨other, chosen, same⟩ := List.mem_map.mp listed
      rwa [← List.inj_on_of_nodup_map distinct (known other chosen) member same]
    · exact List.mem_map_of_mem
  simp [listed]

/-- The victims are the shortest front of the ranked entries that leaves room for a size. -/
theorem exists_evicted {size : Nat} {limit : Int} (same : ranked.Perm entries)
    (fits : (size : Int) ≤ limit) :
    ∃ gone stay, ranked = gone ++ stay ∧
      victims (sizes entries + size - limit) ranked = gone.map Prod.fst ∧
      sizes stay + size ≤ limit ∧
      ∀ count < gone.length, limit < sizes (ranked.drop count) + size := by
  obtain ⟨count, within, chosen, freed, least⟩ :=
    exists_victims (sizes entries + size - limit) ranked
  have parts : ∀ place, sizes (ranked.take place) + sizes (ranked.drop place) = sizes entries := by
    intro place
    rw [← sizes_append, List.take_append_drop, sizes_perm same]
  refine ⟨ranked.take count, ranked.drop count, (List.take_append_drop count ranked).symm, chosen,
    ?_, ?_⟩
  · have whole := parts count
    rcases freed with enough | all
    · omega
    · rw [List.drop_eq_nil_of_le all, sizes_nil]
      omega
  · intro shorter below
    rw [List.length_take, Nat.min_eq_left within] at below
    have front := least shorter below
    have whole := parts shorter
    omega

end Evicting

/-- A text that is not larger than the limit takes the old one under its digest away and then, from
the other entries in the order of their scores, the shortest front without which it fits. -/
theorem put_evicts_shortest_front (cache : Cache) (ranking stamp : Int) (digest value : Text)
    {size : Nat} (distinct : cache.HasDistinctDigests) (fits : (size : Int) ≤ cache.limits.maxSize)
    (scores : ∀ entry ∈ cache.entries, (score? ranking entry.2).isSome) :
    let remaining := dropDigest digest cache.entries
    ∃ gone stay, IsRanking ranking remaining (gone ++ stay) ∧
      sizes stay + size ≤ cache.limits.maxSize ∧
      (∀ count < gone.length,
        cache.limits.maxSize < sizes ((gone ++ stay).drop count) + size) ∧
      cache.put ranking stamp digest value size =
        (.ok (if gone = [] then .stored else .storedAfterEviction gone.length size),
          { cache with
            entries := (remaining.filter fun entry => entry ∉ gone) ++
              [(digest, ⟨value, stamp, 0, size⟩)] }) := by
  intro remaining
  have shape : dropDigest digest cache.entries = remaining := rfl
  have distinctRemaining : (remaining.map Prod.fst).Nodup := hasDistinctDigests_forget distinct _
  obtain ⟨scored, ranks⟩ : ∃ scored, scored? ranking remaining = some scored :=
    Option.isSome_iff_exists.mp
      (scored?_isSome fun entry member => scores entry (mem_of_mem_dropDigest member))
  clear_value remaining
  have ranked := isRanking_stableSort ranks
  obtain ⟨gone, stay, parts, chosen, room, least⟩ := exists_evicted ranked.perm fits
  rw [parts] at ranked least
  have known : ∀ entry ∈ gone, entry ∈ remaining := fun entry member =>
    ranked.perm.subset (List.mem_append_left stay member)
  have whole : sizes gone + sizes stay = sizes remaining := by
    rw [← sizes_append, sizes_perm ranked.perm]
  refine ⟨gone, stay, ranked, room, least, ?_⟩
  simp only [put, if_neg (Int.not_lt.mpr fits), totalSize_eq_sizes, forget, shape]
  split
  case isTrue enough =>
    -- The empty front leaves room, so no other is the shortest.
    have none : gone = [] := by
      by_contra some
      have first := least 0 (List.length_pos_of_ne_nil some)
      rw [List.drop_zero, sizes_append, whole] at first
      omega
    simp only [none, append, List.not_mem_nil, not_false_eq_true, decide_true, List.filter_true]
    rfl
  case isFalse tight =>
    have some : gone ≠ [] := by
      rintro rfl
      rw [sizes_nil] at whole
      omega
    rw [ranks]
    simp only [chosen, append, if_neg some, List.length_map, filter_victims distinctRemaining known]

/-- Storing a text that is not larger than the limit takes the old one away and then, from the
other entries in the order of their scores, the shortest front without which it fits. All others
stay as they are, and the new one stands last. Under a key without a digest nothing is stored, and
nothing has to go. -/
theorem store_evicts_shortest_front (cache : Cache) (ranking stamp : Int) (key value : Text)
    {size : Nat} (distinct : cache.HasDistinctDigests) (measured : value.utf8Size? = some size)
    (fits : (size : Int) ≤ cache.limits.maxSize)
    (scores : ∀ entry ∈ cache.entries, (score? ranking entry.2).isSome) :
    (∀ digest, digestOf key = .ok digest →
      let remaining := dropDigest digest cache.entries
      ∃ gone stay, IsRanking ranking remaining (gone ++ stay) ∧
        sizes stay + size ≤ cache.limits.maxSize ∧
        (∀ count < gone.length,
          cache.limits.maxSize < sizes ((gone ++ stay).drop count) + size) ∧
        cache.store ranking stamp key value =
          (.ok (if gone = [] then .stored else .storedAfterEviction gone.length size),
            { cache with
              entries := (remaining.filter fun entry => entry ∉ gone) ++
                [(digest, ⟨value, stamp, 0, size⟩)] })) ∧
    ∀ fault, digestOf key = .error fault →
      cache.store ranking stamp key value = (.error .unencodable, cache) := by
  constructor
  · intro digest known
    rw [store_of_ok known measured]
    exact put_evicts_shortest_front cache ranking stamp digest value distinct fits scores
  · intro fault foreign
    refine store_of_unencodable fun digest _ known => ?_
    rw [foreign] at known
    cases known

/-- A small cache whose lowest entries have one score, one of them without size, and which holds a
text under the key `"key"` already. -/
def tiedCache : Cache where
  limits := { maxSize := 6 }
  entries :=
    [("used", ⟨"de", 0, 9, 2⟩), ("empty", ⟨"", 1, 0, 0⟩), entryFor "key" ⟨"old", 2, 0, 3⟩,
      ("idle", ⟨"abc", 3, 0, 3⟩)]

theorem store_evicts_shortest_front_tiedCache :
    ∃ digest gone stay, digestOf "key" = .ok digest ∧
      IsRanking 9 (dropDigest digest tiedCache.entries) (gone ++ stay) ∧ sizes stay + 4 ≤ 6 ∧
      tiedCache.store 9 10 "key" "wxyz" =
        (.ok (if gone = [] then .stored else .storedAfterEviction gone.length 4),
          { tiedCache with
            entries := ((dropDigest digest tiedCache.entries).filter
              fun entry => entry ∉ gone) ++ [(digest, ⟨"wxyz", 10, 0, 4⟩)] }) := by
  have distinct : (tiedCache.entries.map Prod.fst).Nodup := by decide +kernel
  have known : digestOf "key" = .ok (entryFor "key" ⟨"old", 2, 0, 3⟩).1 := by decide +kernel
  have law := store_evicts_shortest_front tiedCache 9 10 "key" "wxyz" distinct
    (by decide : Text.utf8Size? "wxyz" = some 4) (by decide) (by decide +kernel)
  obtain ⟨gone, stay, ranked, room, -, same⟩ := law.1 _ known
  exact ⟨_, gone, stay, known, ranked, room, same⟩

example : ((tiedCache.store 9 10 "key" "wxyz").2.entries.map fun entry => entry.2.value) =
    ["de", "wxyz"] := by decide +kernel

end CodeProse.Cache
