import CodeProse.Cache.Exchange
import CodeProse.Proofs.Cache.Entries
import CodeProse.Proofs.Sequence

/-!
# Digests of a cache

No digest stands twice in a cache: every operation keeps it so, whatever it is asked to store or
to read in.
-/

set_option autoImplicit false

namespace CodeProse.Cache

/-- The entries of a cache lie under different digests. -/
def HasDistinctDigests (cache : Cache) : Prop :=
  (cache.entries.map Prod.fst).Nodup

/-- An entry under the digest of a key, or under no digest where the key has none. -/
def entryFor (key : Text) (entry : CacheEntry) : Text × CacheEntry :=
  ((Sha256.ofText? key).getD [], entry)

section Entries

variable {digest : Text} {entry : CacheEntry} {entries kept : List (Text × CacheEntry)}

theorem nodup_of_sublist (fewer : kept.Sublist entries) (distinct : (entries.map Prod.fst).Nodup) :
    (kept.map Prod.fst).Nodup :=
  (fewer.map Prod.fst).nodup distinct

theorem nodup_concat (fresh : digest ∉ entries.map Prod.fst)
    (distinct : (entries.map Prod.fst).Nodup) :
    ((entries ++ [(digest, entry)]).map Prod.fst).Nodup := by
  rw [List.map_append]
  refine List.nodup_append.mpr ⟨distinct, List.nodup_singleton digest, ?_⟩
  intro other known last same equal
  rw [equal, List.mem_singleton.mp same] at known
  exact fresh known

theorem nodup_concat_of_sublist_dropDigest (fewer : kept.Sublist (dropDigest digest entries))
    (distinct : (entries.map Prod.fst).Nodup) :
    ((kept ++ [(digest, entry)]).map Prod.fst).Nodup := by
  refine nodup_concat ?_ (nodup_of_sublist (fewer.trans List.filter_sublist) distinct)
  intro member
  obtain ⟨entry, known, same⟩ := List.mem_map.mp member
  exact of_decide_eq_true (List.mem_filter.mp (fewer.subset known)).2 same

theorem map_fst_setEntry_of_mem (known : digest ∈ entries.map Prod.fst) :
    (setEntry digest entry entries).map Prod.fst = entries.map Prod.fst := by
  induction entries with
  | nil => cases known
  | cons first rest ih =>
      rw [setEntry]
      split
      · next same => rw [List.map_cons, List.map_cons, same]
      · next other =>
          rw [List.map_cons, List.mem_cons] at known
          rw [List.map_cons, List.map_cons, ih (known.resolve_left (Ne.symm other))]

theorem setEntry_of_not_mem (fresh : digest ∉ entries.map Prod.fst) :
    setEntry digest entry entries = entries ++ [(digest, entry)] := by
  induction entries with
  | nil => rfl
  | cons first rest ih =>
      rw [List.map_cons, List.mem_cons, not_or] at fresh
      rw [setEntry, if_neg (Ne.symm fresh.1), ih fresh.2, List.cons_append]

theorem nodup_setEntry (distinct : (entries.map Prod.fst).Nodup) :
    ((setEntry digest entry entries).map Prod.fst).Nodup := by
  by_cases known : digest ∈ entries.map Prod.fst
  · rwa [map_fst_setEntry_of_mem known]
  · rw [setEntry_of_not_mem known]
    exact nodup_concat known distinct

theorem nodup_addItem {item : Json} (read : entriesOfJson?.addItem entries item = some kept)
    (distinct : (entries.map Prod.fst).Nodup) : (kept.map Prod.fst).Nodup := by
  unfold entriesOfJson?.addItem at read
  split at read
  · obtain ⟨entry, -, rfl⟩ := Option.map_eq_some_iff.mp read
    exact nodup_setEntry distinct
  · cases read

theorem nodup_foldlM_addItem {items : List Json}
    (read : items.foldlM entriesOfJson?.addItem entries = some kept)
    (distinct : (entries.map Prod.fst).Nodup) : (kept.map Prod.fst).Nodup := by
  induction items generalizing entries with
  | nil =>
      cases read
      exact distinct
  | cons item items ih =>
      rw [List.foldlM_cons] at read
      obtain ⟨added, first, further⟩ := Option.bind_eq_some_iff.mp read
      exact ih further (nodup_addItem first distinct)

end Entries

theorem map_snd_scored? {now : Int} {entries : List (Text × CacheEntry)}
    {scored : List (Binary64 × Text × CacheEntry)} (ranked : scored? now entries = some scored) :
    scored.map Prod.snd = entries := by
  induction entries generalizing scored with
  | nil =>
      cases ranked
      rfl
  | cons entry rest ih =>
      rw [scored?, List.mapM_cons] at ranked
      obtain ⟨first, score, behind⟩ := Option.bind_eq_some_iff.mp ranked
      obtain ⟨further, scores, made⟩ := Option.bind_eq_some_iff.mp behind
      obtain ⟨value, -, rfl⟩ := Option.map_eq_some_iff.mp score
      cases made
      rw [List.map_cons, ih scores]

theorem map_snd_stableSort_perm {now : Int} {entries : List (Text × CacheEntry)}
    {scored : List (Binary64 × Text × CacheEntry)} (ranked : scored? now entries = some scored)
    (before : Binary64 × Text × CacheEntry → Binary64 × Text × CacheEntry → Bool) :
    ((stableSort before scored).map Prod.snd).Perm entries := by
  rw [← map_snd_scored? ranked]
  exact (stableSort_perm before scored).map Prod.snd

section Operations

variable {cache next : Cache}

/-- What can be done to a cache. -/
inductive Step : Cache → Cache → Prop where
  | get {cache : Cache} (now : Int) (key : Text) : Step cache (cache.get now key).2
  | has {cache : Cache} (now : Int) (key : Text) : Step cache (cache.has now key).2
  | delete {cache : Cache} (key : Text) : Step cache (cache.delete key).2
  | store {cache : Cache} (ranking stamp : Int) (key value : Text) :
      Step cache (cache.store ranking stamp key value).2
  | preload {cache : Cache} (time : Nat → Int) (texts : List (Text × Text)) :
      Step cache (cache.preload time texts).2
  | clear {cache : Cache} : Step cache cache.clear
  | cleanup {cache : Cache} (now : Int) : Step cache (cache.cleanup now).2
  | optimize {cache kept : Cache} {now maxEntries removed : Int}
      (done : cache.optimize? now maxEntries = some (removed, kept)) : Step cache kept
  | configure {cache : Cache} (maxSize maxAge : Option Int) :
      Step cache (cache.configure maxSize maxAge)
  | importing {cache read : Cache} {depth : Nat} {text : Text}
      (done : cache.import? depth text = .ok (some read)) : Step cache read

/-- What is left of a cache that was trimmed are some of its entries, in another order. -/
theorem exists_kept_of_optimize? {now maxEntries removed : Int}
    (done : cache.optimize? now maxEntries = some (removed, next)) :
    ∃ kept, kept.Subperm cache.entries ∧ next = { cache with entries := kept } := by
  simp only [optimize?] at done
  split at done
  · cases done
    exact ⟨cache.entries, List.Subperm.refl _, rfl⟩
  · obtain ⟨scored, ranked, made⟩ := Option.bind_eq_some_iff.mp done
    cases made
    refine ⟨_, (List.take_sublist _ _).subperm.trans ?_, rfl⟩
    exact (map_snd_stableSort_perm ranked _).subperm

theorem hasDistinctDigests_ofJson? {value : Json} (done : cache.ofJson? value = some next) :
    next.HasDistinctDigests := by
  unfold ofJson? at done
  split at done
  · split at done
    · obtain ⟨entries, read, rest⟩ := Option.bind_eq_some_iff.mp done
      obtain ⟨hits, -, rest⟩ := Option.bind_eq_some_iff.mp rest
      obtain ⟨misses, -, rest⟩ := Option.bind_eq_some_iff.mp rest
      cases rest
      exact nodup_foldlM_addItem read List.nodup_nil
    · cases done
  · cases done

theorem hasDistinctDigests_import? {depth : Nat} {text : Text}
    (done : cache.import? depth text = .ok (some next)) : next.HasDistinctDigests := by
  unfold import? at done
  split at done
  · exact hasDistinctDigests_ofJson? (Except.ok.inj done)
  · cases done
  · cases done

variable (distinct : cache.HasDistinctDigests)
include distinct

theorem hasDistinctDigests_forget (digest : Text) : (cache.forget digest).HasDistinctDigests :=
  nodup_of_sublist List.filter_sublist distinct

theorem hasDistinctDigests_get (now : Int) (key : Text) :
    (cache.get now key).2.HasDistinctDigests := by
  refine withDigest_keeps HasDistinctDigests distinct fun digest _ => ?_
  have answers := find_answers cache now digest
  generalize cache.find now digest = result at answers ⊢
  cases answers with
  | missing absent => exact distinct
  | expired stored old => exact hasDistinctDigests_forget distinct _
  | found stored fresh =>
      exact (congrArg List.Nodup (map_touch (fun _ _ _ => rfl) _ _)).mpr distinct

theorem hasDistinctDigests_has (now : Int) (key : Text) :
    (cache.has now key).2.HasDistinctDigests := by
  refine withDigest_keeps HasDistinctDigests distinct fun digest _ => ?_
  rcases cache.holds_eq_or_forgets now digest with same | same <;> rw [same]
  · exact distinct
  · exact hasDistinctDigests_forget distinct _

theorem hasDistinctDigests_delete (key : Text) : (cache.delete key).2.HasDistinctDigests :=
  withDigest_keeps HasDistinctDigests distinct fun _ _ => hasDistinctDigests_forget distinct _

theorem hasDistinctDigests_store (ranking stamp : Int) (key value : Text) :
    (cache.store ranking stamp key value).2.HasDistinctDigests := by
  refine store_keeps HasDistinctDigests distinct fun digest size _ _ => ?_
  rcases put_cases cache ranking stamp digest value size with same | same | ⟨kept, fewer, same⟩ <;>
    rw [same]
  · exact distinct
  · exact hasDistinctDigests_forget distinct _
  · exact nodup_concat_of_sublist_dropDigest fewer distinct

theorem hasDistinctDigests_preload (time : Nat → Int) (texts : List (Text × Text)) :
    (cache.preload time texts).2.HasDistinctDigests := by
  induction texts generalizing cache time with
  | nil => exact distinct
  | cons text rest ih =>
      have stored := hasDistinctDigests_store distinct (time 0) (time 1) text.1 text.2
      rw [preload]
      split
      · next same =>
          rw [same] at stored
          exact stored
      · next same =>
          rw [same] at stored
          exact ih stored _

theorem hasDistinctDigests_optimize? {now maxEntries removed : Int}
    (done : cache.optimize? now maxEntries = some (removed, next)) : next.HasDistinctDigests := by
  obtain ⟨kept, ⟨part, same, fewer⟩, rfl⟩ := exists_kept_of_optimize? done
  exact (same.map Prod.fst).nodup_iff.mp (nodup_of_sublist fewer distinct)

theorem Step.hasDistinctDigests (step : Step cache next) : next.HasDistinctDigests := by
  cases step with
  | get now key => exact hasDistinctDigests_get distinct now key
  | has now key => exact hasDistinctDigests_has distinct now key
  | delete key => exact hasDistinctDigests_delete distinct key
  | store ranking stamp key value =>
      exact hasDistinctDigests_store distinct ranking stamp key value
  | preload time texts => exact hasDistinctDigests_preload distinct time texts
  | clear => exact List.nodup_nil
  | cleanup now => exact nodup_of_sublist List.filter_sublist distinct
  | optimize done => exact hasDistinctDigests_optimize? distinct done
  | configure maxSize maxAge => exact distinct
  | importing done => exact hasDistinctDigests_import? done

end Operations

/-- The caches that come about from an empty one. -/
inductive Reachable : Cache → Prop where
  | empty {limits : CacheLimits} : Reachable { limits }
  | step {cache next : Cache} : Reachable cache → Step cache next → Reachable next

theorem Reachable.hasDistinctDigests {cache : Cache} (reachable : Reachable cache) :
    cache.HasDistinctDigests := by
  induction reachable with
  | empty => exact List.nodup_nil
  | step _ step ih => exact step.hasDistinctDigests ih

end CodeProse.Cache
