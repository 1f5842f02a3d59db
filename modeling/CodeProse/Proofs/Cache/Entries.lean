import CodeProse.Cache.Basic
import CodeProse.Proofs.Text.Surrogates

/-!
# Laws of cache entries

What asking for a text and storing one do to the single entries: asking counts a hit or forgets,
storing adds one entry, and both leave every other entry as it is or drop it.
-/

set_option autoImplicit false

namespace Except

variable {ε α : Type}

@[simp] theorem isOk_ok (value : α) : (ok value : Except ε α).isOk = true := rfl

@[simp] theorem isOk_error (error : ε) : (Except.error error : Except ε α).isOk = false := rfl

theorem isOk_eq_false_iff {result : Except ε α} :
    result.isOk = false ↔ ∃ error, result = .error error := by
  cases result <;> simp

end Except

namespace CodeProse

/-- The entry with some more hits. -/
def CacheEntry.found (entry : CacheEntry) (extra : Nat) : CacheEntry :=
  { entry with hits := entry.hits + extra }

namespace Cache

variable {cache : Cache}

theorem mem_of_mem_dropDigest {digest : Text} {entries : List (Text × CacheEntry)}
    {entry : Text × CacheEntry} (member : entry ∈ dropDigest digest entries) : entry ∈ entries :=
  (List.mem_filter.mp member).1

theorem dropDigest_eq_self_iff {digest : Text} {entries : List (Text × CacheEntry)} :
    dropDigest digest entries = entries ↔ entries.lookup digest = none := by
  rw [dropDigest, List.filter_eq_self, List.lookup_eq_none_iff]
  refine forall_congr' fun entry => forall_congr' fun _ => ?_
  rw [decide_eq_true_eq, bne_iff_ne]
  exact ne_comm

/-- Nothing is seen of a counted hit where hits are not looked at. -/
theorem map_touch {β : Type} {view : Text × CacheEntry → β}
    (blind : ∀ digest entry hits, view (digest, { entry with hits }) = view (digest, entry))
    (digest : Text) (entries : List (Text × CacheEntry)) :
    (touch digest entries).map view = entries.map view := by
  rw [touch, List.map_map]
  refine List.map_congr_left fun entry _ => ?_
  by_cases own : entry.1 = digest
  · simp [own, blind]
  · simp [own]

theorem mem_of_lookup {digest : Text} {entry : CacheEntry}
    (found : cache.entries.lookup digest = some entry) : (digest, entry) ∈ cache.entries := by
  obtain ⟨front, back, shape, -⟩ := List.lookup_eq_some_iff.mp found
  rw [shape]
  exact List.mem_append_right front List.mem_cons_self

section Digests

variable {key digest : Text} {fault : CacheFault}

theorem withDigest_of_ok {α : Type} (known : digestOf key = .ok digest) (cache : Cache)
    (operation : Text → α × Cache) :
    cache.withDigest key operation = (.ok (operation digest).1, (operation digest).2) := by
  rw [withDigest, known]
  rfl

theorem withDigest_of_error {α : Type} (foreign : digestOf key = .error fault) (cache : Cache)
    (operation : Text → α × Cache) : cache.withDigest key operation = (.error fault, cache) := by
  rw [withDigest, foreign]

/-- What the cache has, and every operation on a digest gives it, an operation on a key gives it. -/
theorem withDigest_keeps {α : Type} (holds : Cache → Prop) {operation : Text → α × Cache}
    (start : holds cache) (step : ∀ digest, digestOf key = .ok digest → holds (operation digest).2) :
    holds (cache.withDigest key operation).2 := by
  cases known : digestOf key with
  | ok digest =>
      rw [withDigest_of_ok known]
      exact step digest known
  | error fault => rwa [withDigest_of_error known]

theorem digestOf_eq_error_iff {fault : CacheFault} :
    digestOf key = .error fault ↔ ¬ Text.IsWhole key ∧ fault = .unencodable := by
  rw [digestOf, Sha256.ofText?, Text.toUtf8?, ← Text.chars?_eq_none_iff]
  cases Text.chars? key with
  | none => simp [eq_comm]
  | some chars => simp

/-- A key has a digest exactly if no half of a surrogate pair stands in it. -/
theorem isWhole_of_digestOf (known : digestOf key = .ok digest) : Text.IsWhole key :=
  Decidable.byContradiction fun foreign => by
    rw [digestOf_eq_error_iff.mpr ⟨foreign, rfl⟩] at known
    cases known

theorem exists_digestOf (whole : Text.IsWhole key) : ∃ digest, digestOf key = .ok digest := by
  cases known : digestOf key with
  | ok digest => exact ⟨digest, rfl⟩
  | error fault => exact absurd whole (digestOf_eq_error_iff.mp known).1

theorem utf8Size?_eq_none_iff {text : Text} :
    text.utf8Size? = none ↔ ¬ Text.IsWhole text :=
  Option.map_eq_none_iff.trans Text.chars?_eq_none_iff

theorem isWhole_of_utf8Size? {text : Text} {size : Nat} (measured : text.utf8Size? = some size) :
    Text.IsWhole text :=
  Decidable.byContradiction fun foreign => by
    rw [utf8Size?_eq_none_iff.mpr foreign] at measured
    cases measured

/-- Asking for a key fails exactly if it has no form in UTF-8, and changes nothing. -/
theorem withDigest_isOk_eq_false_iff {α : Type} {cache : Cache} {operation : Text → α × Cache} :
    (cache.withDigest key operation).1.isOk = false ↔ ¬ Text.IsWhole key := by
  cases known : digestOf key with
  | ok digest =>
      simp [withDigest_of_ok known, isWhole_of_digestOf known]
  | error fault =>
      simp [withDigest_of_error known, (digestOf_eq_error_iff.mp known).1]

theorem withDigest_of_not_isWhole {α : Type} (foreign : ¬ Text.IsWhole key) (cache : Cache)
    (operation : Text → α × Cache) :
    cache.withDigest key operation = (.error .unencodable, cache) :=
  withDigest_of_error (digestOf_eq_error_iff.mpr ⟨foreign, rfl⟩) cache operation

end Digests

section Get

variable {now : Int} {key digest : Text}

/-- What a question for the text under a digest comes to. -/
inductive Answers (cache : Cache) (now : Int) (digest : Text) : Option Text × Cache → Prop where
  | missing (absent : cache.entries.lookup digest = none) :
      Answers cache now digest (none, { cache with misses := cache.misses.next })
  | expired {entry : CacheEntry} (stored : cache.entries.lookup digest = some entry)
      (old : cache.isExpired now entry = true) :
      Answers cache now digest (none, { cache.forget digest with misses := cache.misses.next })
  | found {entry : CacheEntry} (stored : cache.entries.lookup digest = some entry)
      (fresh : cache.isExpired now entry = false) :
      Answers cache now digest
        (some entry.value,
          { cache with entries := touch digest cache.entries, hits := cache.hits.next })

theorem find_answers (cache : Cache) (now : Int) (digest : Text) :
    Answers cache now digest (cache.find now digest) := by
  simp only [find]
  split
  · next absent => exact .missing absent
  · next entry stored =>
      split
      · next old => exact .expired stored old
      · next fresh => exact .found stored (eq_false_of_ne_true fresh)

theorem limits_find : (cache.find now digest).2.limits = cache.limits := by
  have answers := find_answers cache now digest
  generalize cache.find now digest = result at answers ⊢
  cases answers <;> rfl

theorem limits_get : (cache.get now key).2.limits = cache.limits :=
  withDigest_keeps (fun next => next.limits = cache.limits) rfl fun _ _ => limits_find

/-- Behind a question every entry is one from before, with at most one hit more. -/
theorem exists_of_mem_entries_get {entry : Text × CacheEntry}
    (member : entry ∈ (cache.get now key).2.entries) :
    ∃ old ∈ cache.entries, ∃ extra ≤ 1, entry = (old.1, old.2.found extra) := by
  have same : ∀ old : Text × CacheEntry, old = (old.1, old.2.found 0) := fun old => by
    simp [CacheEntry.found]
  revert member
  refine withDigest_keeps (fun next => entry ∈ next.entries →
    ∃ old ∈ cache.entries, ∃ extra ≤ 1, entry = (old.1, old.2.found extra)) ?_ ?_
  · exact fun member => ⟨entry, member, 0, Nat.zero_le 1, same entry⟩
  · intro digest _ member
    have answers := find_answers cache now digest
    generalize cache.find now digest = result at answers member
    cases answers with
    | missing absent => exact ⟨entry, member, 0, Nat.zero_le 1, same entry⟩
    | expired stored old =>
        exact ⟨entry, mem_of_mem_dropDigest member, 0, Nat.zero_le 1, same entry⟩
    | found stored fresh =>
        obtain ⟨old, known, touched⟩ := List.mem_map.mp member
        refine ⟨old, known, ?_⟩
        split at touched
        · exact ⟨1, Nat.le_refl 1, touched.symm⟩
        · exact ⟨0, Nat.zero_le 1, touched ▸ same old⟩

/-- A question that finds nothing adds no entry and changes none. -/
theorem mem_entries_of_get_eq_none (missing : (cache.get now key).1 = .ok none)
    {entry : Text × CacheEntry} (member : entry ∈ (cache.get now key).2.entries) :
    entry ∈ cache.entries := by
  cases known : digestOf key with
  | error fault =>
      rw [get, withDigest_of_error known] at missing
      cases missing
  | ok digest =>
      rw [get, withDigest_of_ok known] at missing member
      have answers := find_answers cache now digest
      generalize cache.find now digest = result at answers missing member
      cases answers with
      | missing absent => exact member
      | expired stored old => exact mem_of_mem_dropDigest member
      | found stored fresh => cases missing

/-- A text that is found stands in an entry under the digest of its key that has not expired. -/
theorem exists_of_get_eq_some {text : Text} (found : (cache.get now key).1 = .ok (some text)) :
    ∃ entry ∈ cache.entries, digestOf key = .ok entry.1 ∧
      cache.isExpired now entry.2 = false ∧ entry.2.value = text := by
  cases known : digestOf key with
  | error fault =>
      rw [get, withDigest_of_error known] at found
      cases found
  | ok digest =>
      rw [get, withDigest_of_ok known] at found
      have answers := find_answers cache now digest
      generalize cache.find now digest = result at answers found
      cases answers with
      | missing absent => cases found
      | expired stored old => cases found
      | found stored fresh =>
          cases found
          exact ⟨_, mem_of_lookup stored, rfl, fresh, rfl⟩

theorem get_eq_error_iff {fault : CacheFault} :
    (cache.get now key).1 = .error fault ↔ ¬ Text.IsWhole key ∧ fault = .unencodable := by
  rw [← digestOf_eq_error_iff]
  cases known : digestOf key with
  | ok digest => simp [get, withDigest_of_ok known]
  | error fault => simp [get, withDigest_of_error known]

/-- Asking whether there is a text forgets an entry, or does nothing. -/
theorem holds_eq_or_forgets (cache : Cache) (now : Int) (digest : Text) :
    (cache.holds now digest).2 = cache ∨
      (cache.holds now digest).2 = cache.forget digest := by
  simp only [Cache.holds]
  split
  · exact .inl rfl
  · split
    · exact .inr rfl
    · exact .inl rfl

end Get

section Store

variable {ranking stamp : Int} {key digest value : Text} {size : Nat}

theorem store_of_ok (known : digestOf key = .ok digest) (measured : value.utf8Size? = some size) :
    cache.store ranking stamp key value = cache.put ranking stamp digest value size := by
  rw [store, known, measured]

/-- Neither a key without a digest nor a text without a size is stored. -/
theorem store_of_unencodable
    (foreign : ∀ digest size, digestOf key = .ok digest → value.utf8Size? ≠ some size) :
    cache.store ranking stamp key value = (.error .unencodable, cache) := by
  rw [store]
  split
  · next digest size known measured => exact absurd measured (foreign digest size known)
  · rfl

theorem store_keeps (holds : Cache → Prop) (start : holds cache)
    (step : ∀ digest size, digestOf key = .ok digest → value.utf8Size? = some size →
      holds (cache.put ranking stamp digest value size).2) :
    holds (cache.store ranking stamp key value).2 := by
  rw [store]
  split
  · next digest size known measured => exact step digest size known measured
  · exact start

/-- Storing a text under a digest leaves the cache as it is, drops the old one, or places the new one
behind some of the other entries. -/
theorem put_cases (cache : Cache) (ranking stamp : Int) (digest value : Text) (size : Nat) :
    (cache.put ranking stamp digest value size).2 = cache ∨
      (cache.put ranking stamp digest value size).2 = cache.forget digest ∨
      ∃ kept, kept.Sublist (dropDigest digest cache.entries) ∧
        (cache.put ranking stamp digest value size).2 =
          { cache with entries := kept ++ [(digest, ⟨value, stamp, 0, size⟩)] } := by
  simp only [put]
  split
  · exact .inl rfl
  · split
    · exact .inr (.inr ⟨_, .refl _, rfl⟩)
    · split
      · exact .inr (.inl rfl)
      · exact .inr (.inr ⟨_, List.filter_sublist, rfl⟩)

theorem limits_store : (cache.store ranking stamp key value).2.limits = cache.limits := by
  refine store_keeps (fun next => next.limits = cache.limits) rfl fun digest size _ _ => ?_
  rcases put_cases cache ranking stamp digest value size with same | same | ⟨kept, -, same⟩ <;>
    rw [same]
  rfl

/-- Behind a storing every entry is one from before or the new one, without hits. -/
theorem mem_entries_store {entry : Text × CacheEntry}
    (member : entry ∈ (cache.store ranking stamp key value).2.entries) :
    entry ∈ cache.entries ∨ ∃ digest size, digestOf key = .ok digest ∧
      value.utf8Size? = some size ∧ entry = (digest, ⟨value, stamp, 0, size⟩) := by
  revert member
  refine store_keeps (fun next => entry ∈ next.entries → entry ∈ cache.entries ∨
    ∃ digest size, digestOf key = .ok digest ∧ value.utf8Size? = some size ∧
      entry = (digest, ⟨value, stamp, 0, size⟩)) .inl ?_
  intro digest size known measured member
  rcases put_cases cache ranking stamp digest value size with same | same | ⟨kept, fewer, same⟩
  · exact .inl (same ▸ member)
  · rw [same] at member
    exact .inl (mem_of_mem_dropDigest member)
  · rw [same] at member
    rcases List.mem_append.mp member with old | new
    · exact .inl (mem_of_mem_dropDigest (fewer.subset old))
    · exact .inr ⟨digest, size, known, measured, List.mem_singleton.mp new⟩

theorem scored?_isSome {entries : List (Text × CacheEntry)}
    (scores : ∀ entry ∈ entries, (score? ranking entry.2).isSome) :
    (scored? ranking entries).isSome := by
  induction entries with
  | nil => rfl
  | cons entry rest ih =>
      obtain ⟨first, further⟩ := List.forall_mem_cons.mp scores
      obtain ⟨score, known⟩ := Option.isSome_iff_exists.mp first
      obtain ⟨ranked, later⟩ := Option.isSome_iff_exists.mp (ih further)
      rw [scored?] at later ⊢
      simp [List.mapM_cons, known, later]

theorem put_isOk (scores : ∀ entry ∈ cache.entries, (score? ranking entry.2).isSome) :
    (cache.put ranking stamp digest value size).1.isOk = true := by
  have ranks : (scored? ranking (cache.forget digest).entries).isSome :=
    scored?_isSome fun entry member => scores entry (mem_of_mem_dropDigest member)
  simp only [put]
  split
  · rfl
  · split
    · rfl
    · split
      · next unranked =>
          rw [unranked] at ranks
          cases ranks
      · rfl

theorem put_eq_error {fault : CacheFault}
    (failed : (cache.put ranking stamp digest value size).1 = .error fault) : fault = .unranked := by
  simp only [put] at failed
  split at failed
  · cases failed
  · split at failed
    · cases failed
    · split at failed
      · cases failed
        rfl
      · cases failed

theorem isWhole_of_store {outcome : StoreOutcome}
    (stored : (cache.store ranking stamp key value).1 = .ok outcome) :
    Text.IsWhole key ∧ Text.IsWhole value := by
  rw [store] at stored
  split at stored
  · next digest size known measured => exact ⟨isWhole_of_digestOf known, isWhole_of_utf8Size? measured⟩
  · cases stored

/-- Storing fails only where the key or the text has no form in UTF-8, or some entry has no score. -/
theorem store_eq_error {fault : CacheFault}
    (failed : (cache.store ranking stamp key value).1 = .error fault) :
    fault = .unencodable ∧ ¬ (Text.IsWhole key ∧ Text.IsWhole value) ∨
      fault = .unranked ∧ ∃ entry ∈ cache.entries, (score? ranking entry.2).isSome = false := by
  rw [store] at failed
  split at failed
  · next digest size known measured =>
      refine .inr ⟨put_eq_error failed, ?_⟩
      refine Decidable.byContradiction fun scored => ?_
      have fine : (cache.put ranking stamp digest value size).1.isOk = true :=
        put_isOk fun entry member => eq_true_of_ne_false fun none => scored ⟨entry, member, none⟩
      rw [failed] at fine
      cases fine
  · next foreign =>
      cases failed
      refine .inl ⟨rfl, fun whole => ?_⟩
      obtain ⟨digest, known⟩ := exists_digestOf whole.1
      cases measured : value.utf8Size? with
      | none => exact utf8Size?_eq_none_iff.mp measured whole.2
      | some size => exact foreign digest size known measured

end Store

end Cache

end CodeProse
