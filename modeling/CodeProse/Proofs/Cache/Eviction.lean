import CodeProse.Proofs.Cache.Digests
import Mathlib.Algebra.Order.BigOperators.Group.List
import Mathlib.Algebra.Ring.Int.Defs

/-!
# Making room in a cache

What has to go is a front of the entries by score, just long enough. So a text that is not larger
than the limit always finds room, whatever sizes the entries claim to have.
-/

set_option autoImplicit false

namespace CodeProse.Cache

def sizes (entries : List (Text × CacheEntry)) : Int :=
  (entries.map (·.2.size)).sum

/-- What storing a text of some size under a digest can come to. -/
inductive Stores (cache : Cache) (ranking stamp : Int) (digest value : Text) (size : Nat) :
    Cache → Prop where
  | refused (large : cache.limits.maxSize < size) :
      Stores cache ranking stamp digest value size cache
  | dropped (fits : (size : Int) ≤ cache.limits.maxSize)
      (unranked : scored? ranking (dropDigest digest cache.entries) = none) :
      Stores cache ranking stamp digest value size (cache.forget digest)
  | placed {kept : List (Text × CacheEntry)} (fits : (size : Int) ≤ cache.limits.maxSize)
      (fewer : kept.Sublist (dropDigest digest cache.entries))
      (room : cache.HasDistinctDigests → sizes kept + size ≤ cache.limits.maxSize) :
      Stores cache ranking stamp digest value size
        ({ cache with entries := kept }.append stamp digest value size)

section Sizes

variable {entries kept ranked : List (Text × CacheEntry)}

@[simp] theorem sizes_nil : sizes [] = 0 := rfl

@[simp] theorem sizes_cons (entry : Text × CacheEntry) (entries : List (Text × CacheEntry)) :
    sizes (entry :: entries) = entry.2.size + sizes entries := rfl

@[simp] theorem sizes_append (front back : List (Text × CacheEntry)) :
    sizes (front ++ back) = sizes front + sizes back := by
  simp [sizes]

theorem sizes_perm (same : kept.Perm entries) : sizes kept = sizes entries :=
  (same.map _).sum_eq

theorem totalSize_eq_sizes (cache : Cache) : cache.totalSize = sizes cache.entries := by
  have folded : ∀ entries : List (Text × CacheEntry),
      entries.foldr (fun entry size => entry.2.size + size) 0 = sizes entries := by
    intro entries
    induction entries with
    | nil => rfl
    | cons entry rest ih => rw [List.foldr_cons, ih, sizes_cons]
  exact folded cache.entries

/-- The victims are a front of the entries; they free what is needed, or all have to go. No shorter
front frees as much. -/
theorem exists_victims (excess : Int) (entries : List (Text × CacheEntry)) :
    ∃ count, count ≤ entries.length ∧ victims excess entries = (entries.take count).map Prod.fst ∧
      (excess ≤ sizes (entries.take count) ∨ entries.length ≤ count) ∧
      ∀ shorter < count, sizes (entries.take shorter) < excess := by
  induction entries generalizing excess with
  | nil => exact ⟨0, Nat.le_refl 0, rfl, .inr (Nat.le_refl 0), fun _ below => nomatch below⟩
  | cons entry rest ih =>
      by_cases enough : excess ≤ 0
      · refine ⟨0, Nat.zero_le _, by simp [victims, enough], .inl enough, ?_⟩
        exact fun _ below => absurd below (Nat.not_lt_zero _)
      · obtain ⟨count, within, shape, freed, least⟩ := ih (excess - entry.2.size)
        refine ⟨count + 1, Nat.succ_le_succ within, by simp [victims, enough, shape], ?_, ?_⟩
        · rw [List.take_succ_cons, sizes_cons, List.length_cons]
          omega
        · intro shorter below
          cases shorter with
          | zero => exact Int.not_le.mp enough
          | succ shorter =>
              have front := least shorter (Nat.lt_of_succ_lt_succ below)
              rw [List.take_succ_cons, sizes_cons]
              omega

theorem filter_not_contains_take (distinct : (ranked.map Prod.fst).Nodup) (count : Nat) :
    ranked.filter (fun entry => !((ranked.take count).map Prod.fst).contains entry.1) =
      ranked.drop count := by
  have gone : (ranked.take count).filter
      (fun entry => !((ranked.take count).map Prod.fst).contains entry.1) = [] := by
    refine List.filter_eq_nil_iff.mpr fun entry member => ?_
    have listed : entry.1 ∈ (ranked.take count).map Prod.fst := List.mem_map_of_mem member
    simpa using listed
  have stays : (ranked.drop count).filter
      (fun entry => !((ranked.take count).map Prod.fst).contains entry.1) = ranked.drop count := by
    refine List.filter_eq_self.mpr fun entry member => ?_
    rw [← List.take_append_drop count ranked, List.map_append] at distinct
    have apart := (List.nodup_append.mp distinct).2.2
    have missing : entry.1 ∉ (ranked.take count).map Prod.fst := fun listed =>
      apart _ listed _ (List.mem_map_of_mem member) rfl
    simpa using missing
  have split := List.filter_append
    (p := fun entry => !((ranked.take count).map Prod.fst).contains entry.1)
    (ranked.take count) (ranked.drop count)
  rw [List.take_append_drop, gone, stays, List.nil_append] at split
  exact split

/-- Without the victims, in whatever order they were chosen, the entries and a text that alone
fits are within the limit. -/
theorem sizes_filter_victims {size : Nat} {limit : Int} (same : ranked.Perm entries)
    (distinct : (entries.map Prod.fst).Nodup) (fits : (size : Int) ≤ limit) :
    sizes (entries.filter fun entry =>
      !(victims (sizes entries + size - limit) ranked).contains entry.1) + size ≤ limit := by
  obtain ⟨count, -, chosen, freed, -⟩ := exists_victims (sizes entries + size - limit) ranked
  have distinctRanked := (same.map Prod.fst).nodup_iff.mpr distinct
  have kept : sizes (entries.filter fun entry =>
      !(victims (sizes entries + size - limit) ranked).contains entry.1) =
        sizes (ranked.drop count) := by
    rw [← sizes_perm (same.filter _), chosen, filter_not_contains_take distinctRanked]
  have whole : sizes (ranked.take count) + sizes (ranked.drop count) = sizes entries := by
    rw [← sizes_append, List.take_append_drop, sizes_perm same]
  rw [kept]
  rcases freed with enough | all
  · omega
  · rw [List.drop_eq_nil_of_le all, sizes_nil]
    omega

end Sizes

/-- Storing refuses a text that is too large, drops the old one when the entries cannot be ranked,
and otherwise places the new one behind entries that leave room for it. -/
theorem stores_put (cache : Cache) (ranking stamp : Int) (digest value : Text) (size : Nat) :
    Stores cache ranking stamp digest value size
      (cache.put ranking stamp digest value size).2 := by
  simp only [put, totalSize_eq_sizes, forget]
  split
  · next large => exact .refused large
  · next small =>
      have fits := Int.not_lt.mp small
      split
      · next enough => exact .placed fits (List.Sublist.refl _) fun _ => by omega
      · split
        · next unranked => exact .dropped fits unranked
        · next scored ranks =>
            refine .placed fits List.filter_sublist fun distinct => ?_
            exact sizes_filter_victims (map_snd_stableSort_perm ranks _)
              (hasDistinctDigests_forget distinct _) fits

end CodeProse.Cache
