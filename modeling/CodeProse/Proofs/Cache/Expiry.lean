import CodeProse.Proofs.Cache.Digests

/-!
# Expiry

An expired entry is forgotten when it is asked for, and all of them at once when the cache is
cleaned up. Nobody who asks later can tell whether it was cleaned up before.
-/

set_option autoImplicit false

namespace CodeProse.Cache

/-- A question for the text under a key, or for whether there is one. -/
inductive Question where
  | get (now : Int) (key : Text)
  | has (now : Int) (key : Text)

def Question.time : Question → Int
  | get now _ => now
  | has now _ => now

inductive Reply where
  | text (found : Except CacheFault (Option Text))
  | known (found : Except CacheFault Bool)

def reply (cache : Cache) : Question → Reply × Cache
  | .get now key => (.text (cache.get now key).1, (cache.get now key).2)
  | .has now key => (.known (cache.has now key).1, (cache.has now key).2)

/-- The replies to questions that are asked one after the other, and the cache behind them. -/
def replies (cache : Cache) : List Question → List Reply × Cache
  | [] => ([], cache)
  | question :: rest =>
      let later := (cache.reply question).2.replies rest
      ((cache.reply question).1 :: later.1, later.2)

/-- No entry under a digest is young enough. -/
def IsSpent (cache : Cache) (now : Int) (digest : Text) : Prop :=
  ∀ entry ∈ cache.entries, entry.1 = digest → cache.isExpired now entry.2 = true

/-- An entry but for its hits. -/
def stamped (entry : Text × CacheEntry) : Text × Text × Int × Int :=
  (entry.1, entry.2.value, entry.2.timestamp, entry.2.size)

section Asking

variable {cache : Cache} {now : Int} {digest : Text}

theorem find_of_isSpent (spent : cache.IsSpent now digest) :
    cache.find now digest =
      (none, { cache.forget digest with misses := cache.misses.next }) := by
  cases known : cache.entries.lookup digest with
  | none => simp only [find, known, forget, dropDigest_eq_self_iff.mpr known]
  | some entry =>
      have expired := spent _ (mem_of_lookup known) rfl
      simp only [find, known, expired, if_true]
      rfl

theorem holds_of_isSpent (spent : cache.IsSpent now digest) :
    cache.holds now digest = (false, cache.forget digest) := by
  cases known : cache.entries.lookup digest with
  | none => simp only [Cache.holds, known, forget, dropDigest_eq_self_iff.mpr known]
  | some entry =>
      have expired := spent _ (mem_of_lookup known) rfl
      simp only [Cache.holds, known, expired, if_true]

theorem find_of_fresh (distinct : cache.HasDistinctDigests) {entry : CacheEntry}
    (stored : (digest, entry) ∈ cache.entries) (fresh : cache.isExpired now entry = false) :
    cache.find now digest =
      (some entry.value,
        { cache with entries := touch digest cache.entries, hits := cache.hits.next }) := by
  have known := lookup_eq_some_of_mem distinct stored
  simp only [find, known, fresh, Bool.false_eq_true, if_false]

theorem holds_of_fresh (distinct : cache.HasDistinctDigests) {entry : CacheEntry}
    (stored : (digest, entry) ∈ cache.entries) (fresh : cache.isExpired now entry = false) :
    cache.holds now digest = (true, cache) := by
  have known := lookup_eq_some_of_mem distinct stored
  simp only [Cache.holds, known, fresh, Bool.false_eq_true, if_false]

theorem isSpent_or_exists_fresh (cache : Cache) (now : Int) (digest : Text) :
    cache.IsSpent now digest ∨ ∃ entry, (digest, entry) ∈ cache.entries ∧
      cache.isExpired now entry = false := by
  by_cases spent : cache.IsSpent now digest
  · exact .inl spent
  · simp only [IsSpent, not_forall, Bool.not_eq_true] at spent
    obtain ⟨⟨digest, entry⟩, member, rfl, fresh⟩ := spent
    exact .inr ⟨entry, member, fresh⟩

end Asking

section Cleaning

variable {cache : Cache} {now later : Int} {digest : Text}

theorem isExpired_mono (ordered : now ≤ later) {entry : CacheEntry}
    (expired : cache.isExpired now entry = true) : cache.isExpired later entry = true := by
  simp only [isExpired, decide_eq_true_eq] at expired ⊢
  omega

theorem mem_entries_cleanup {entry : Text × CacheEntry} :
    entry ∈ (cache.cleanup now).2.entries ↔
      entry ∈ cache.entries ∧ cache.isExpired now entry.2 = false := by
  simp [cleanup]

theorem hasDistinctDigests_cleanup (distinct : cache.HasDistinctDigests) (now : Int) :
    (cache.cleanup now).2.HasDistinctDigests :=
  nodup_of_sublist List.filter_sublist distinct

theorem IsSpent.cleanup (spent : cache.IsSpent later digest) (now : Int) :
    (cache.cleanup now).2.IsSpent later digest :=
  fun entry member => spent entry (mem_entries_cleanup.mp member).1

theorem cleanup_forget (digest : Text) :
    (cache.cleanup now).2.forget digest = ((cache.forget digest).cleanup now).2 := by
  have swapped :
      dropDigest digest (cache.entries.filter fun entry => !cache.isExpired now entry.2) =
        (dropDigest digest cache.entries).filter fun entry => !cache.isExpired now entry.2 :=
    List.filter_comm _ _ cache.entries
  exact congrArg (fun entries => { cache with entries }) swapped

theorem cleanup_touch (digest : Text) (hits : Counter) :
    ({ cache with entries := touch digest cache.entries, hits }.cleanup now).2 =
      { cache with entries := touch digest (cache.cleanup now).2.entries, hits } := by
  have touched : (touch digest cache.entries).filter
      (fun entry => !cache.isExpired now entry.2) =
        touch digest (cache.entries.filter fun entry => !cache.isExpired now entry.2) := by
    rw [touch, touch, List.filter_map]
    refine congrArg _ (List.filter_congr fun entry _ => ?_)
    by_cases own : entry.1 = digest <;> simp [own, isExpired]
  exact congrArg (fun entries => { cache with entries, hits }) touched

/-- What is the same behind a cleaning up for every digest is the same for every key. -/
theorem withDigest_cleanup {α : Type} (operation : Cache → Text → α × Cache) (key : Text)
    (same : ∀ digest, operation (cache.cleanup now).2 digest =
      ((operation cache digest).1, ((operation cache digest).2.cleanup now).2)) :
    (cache.cleanup now).2.withDigest key (operation (cache.cleanup now).2) =
      ((cache.withDigest key (operation cache)).1,
        ((cache.withDigest key (operation cache)).2.cleanup now).2) := by
  cases known : digestOf key with
  | ok digest => simp only [withDigest_of_ok known, same digest]
  | error fault => simp only [withDigest_of_error known]

section Later

variable (distinct : cache.HasDistinctDigests) (ordered : now ≤ later)
include ordered

theorem mem_cleanup_of_fresh {entry : Text × CacheEntry} (member : entry ∈ cache.entries)
    (fresh : cache.isExpired later entry.2 = false) : entry ∈ (cache.cleanup now).2.entries := by
  refine mem_entries_cleanup.mpr ⟨member, ?_⟩
  cases expired : cache.isExpired now entry.2 with
  | false => rfl
  | true => rw [isExpired_mono ordered expired] at fresh; cases fresh

include distinct

theorem find_cleanup (digest : Text) :
    (cache.cleanup now).2.find later digest =
      ((cache.find later digest).1, ((cache.find later digest).2.cleanup now).2) := by
  have kept := hasDistinctDigests_cleanup distinct now
  rcases isSpent_or_exists_fresh cache later digest with spent | ⟨entry, member, fresh⟩
  · rw [find_of_isSpent spent, find_of_isSpent (spent.cleanup now), cleanup_forget]
    rfl
  · have stays := mem_cleanup_of_fresh ordered member fresh
    rw [find_of_fresh distinct member fresh, find_of_fresh kept stays fresh, cleanup_touch]
    rfl

theorem holds_cleanup (digest : Text) :
    (cache.cleanup now).2.holds later digest =
      ((cache.holds later digest).1, ((cache.holds later digest).2.cleanup now).2) := by
  have kept := hasDistinctDigests_cleanup distinct now
  rcases isSpent_or_exists_fresh cache later digest with spent | ⟨entry, member, fresh⟩
  · rw [holds_of_isSpent spent, holds_of_isSpent (spent.cleanup now), cleanup_forget]
  · have stays := mem_cleanup_of_fresh ordered member fresh
    rw [holds_of_fresh distinct member fresh, holds_of_fresh kept stays fresh]

end Later

/-- One reply is the same behind a cleaning up that came no later than the question, and so is the
cache behind the reply once it is cleaned up. -/
theorem reply_cleanup (distinct : cache.HasDistinctDigests) {question : Question}
    (ordered : now ≤ question.time) :
    (cache.cleanup now).2.reply question =
      ((cache.reply question).1, ((cache.reply question).2.cleanup now).2) := by
  cases question with
  | get later key =>
      have same := withDigest_cleanup (fun cache => cache.find later) key
        (find_cleanup distinct ordered)
      simp only [reply, get, same]
  | has later key =>
      have same := withDigest_cleanup (fun cache => cache.holds later) key
        (holds_cleanup distinct ordered)
      simp only [reply, has, same]

theorem hasDistinctDigests_reply (distinct : cache.HasDistinctDigests) (question : Question) :
    (cache.reply question).2.HasDistinctDigests := by
  cases question with
  | get now key => exact hasDistinctDigests_get distinct now key
  | has now key => exact hasDistinctDigests_has distinct now key

/-- All replies are the same behind a cleaning up that came no later than the questions. -/
theorem replies_cleanup (distinct : cache.HasDistinctDigests) {questions : List Question}
    (ordered : ∀ question ∈ questions, now ≤ question.time) :
    (cache.cleanup now).2.replies questions =
      ((cache.replies questions).1, ((cache.replies questions).2.cleanup now).2) := by
  induction questions generalizing cache with
  | nil => rfl
  | cons question rest ih =>
      obtain ⟨first, further⟩ := List.forall_mem_cons.mp ordered
      have next := ih (hasDistinctDigests_reply distinct question) further
      simp only [replies, reply_cleanup distinct first, next]

end Cleaning

section Forgetting

variable {cache : Cache} {now : Int} {digest : Text}

theorem filter_of_isSpent (spent : cache.IsSpent now digest) :
    cache.entries.filter (fun entry => !(entry.1 = digest && cache.isExpired now entry.2)) =
      dropDigest digest cache.entries := by
  refine List.filter_congr fun entry member => ?_
  by_cases own : entry.1 = digest
  · simp [own, spent entry member own]
  · simp [own]

theorem filter_of_fresh (distinct : cache.HasDistinctDigests) {entry : CacheEntry}
    (stored : (digest, entry) ∈ cache.entries) (fresh : cache.isExpired now entry = false) :
    cache.entries.filter (fun entry => !(entry.1 = digest && cache.isExpired now entry.2)) =
      cache.entries := by
  refine List.filter_eq_self.mpr fun other member => ?_
  by_cases own : other.1 = digest
  · have same : other = (digest, entry) := List.inj_on_of_nodup_map distinct member stored own
    simp [same, fresh]
  · simp [own]

end Forgetting

/-- Asking for a text and asking whether there is one agree, and either forgets the entry under the
key exactly if it is older than the limit, leaving all others as they are but for hits; a key
without a digest fails both and changes nothing. Cleaning up forgets all that are older. Replies and
counts are the same whether or not the cache was cleaned up first, as long as no question is asked
before that time. -/
theorem expiry_agrees (cache : Cache) (now : Int) (distinct : cache.HasDistinctDigests) :
    (∀ key digest, digestOf key = .ok digest →
      let left := cache.entries.filter fun entry =>
        !(entry.1 = digest && cache.isExpired now entry.2)
      ((cache.has now key).1 = .ok true ↔ ∃ text, (cache.get now key).1 = .ok (some text)) ∧
      (cache.has now key).1.isOk ∧ (cache.get now key).1.isOk ∧
      (cache.has now key).2 = { cache with entries := left } ∧
      (cache.get now key).2.entries.map stamped = left.map stamped) ∧
    (∀ key fault, digestOf key = .error fault →
      cache.has now key = (.error fault, cache) ∧ cache.get now key = (.error fault, cache)) ∧
    ((cache.cleanup now).2.entries.Sublist cache.entries ∧
      (∀ entry, entry ∈ (cache.cleanup now).2.entries ↔
        entry ∈ cache.entries ∧ now - entry.2.timestamp ≤ cache.limits.maxAge) ∧
      (cache.cleanup now).1 + (cache.cleanup now).2.entries.length = cache.entries.length) ∧
    ∀ questions : List Question, (∀ question ∈ questions, now ≤ question.time) →
      let lazily := cache.replies questions
      let eagerly := (cache.cleanup now).2.replies questions
      eagerly.1 = lazily.1 ∧ eagerly.2.hits = lazily.2.hits ∧
        eagerly.2.misses = lazily.2.misses := by
  refine ⟨fun key digest known => ?_, fun key fault foreign => ?_,
    ⟨List.filter_sublist, fun entry => ?_, ?_⟩, fun questions ordered => ?_⟩
  · intro left
    rw [has, get, withDigest_of_ok known, withDigest_of_ok known]
    rcases isSpent_or_exists_fresh cache now digest with spent | ⟨entry, stored, fresh⟩
    · have forgotten : left = dropDigest digest cache.entries := filter_of_isSpent spent
      rw [find_of_isSpent spent, holds_of_isSpent spent, forgotten]
      exact ⟨by simp, rfl, rfl, rfl, rfl⟩
    · have kept : left = cache.entries := filter_of_fresh distinct stored fresh
      rw [find_of_fresh distinct stored fresh, holds_of_fresh distinct stored fresh, kept]
      exact ⟨⟨fun _ => ⟨entry.value, rfl⟩, fun _ => rfl⟩, rfl, rfl, rfl,
        map_touch (fun _ _ _ => rfl) _ _⟩
  · exact ⟨withDigest_of_error foreign _ _, withDigest_of_error foreign _ _⟩
  · rw [mem_entries_cleanup, isExpired, decide_eq_false_iff_not, Int.not_lt]
  · have fewer : (cache.cleanup now).2.entries.length ≤ cache.entries.length :=
      List.filter_sublist.length_le
    exact Nat.sub_add_cancel fewer
  · have same := replies_cleanup distinct ordered
    intro lazily eagerly
    have shape : eagerly = (lazily.1, (lazily.2.cleanup now).2) := same
    rw [shape]
    exact ⟨rfl, rfl, rfl⟩

/-- A cache with an entry that is older than the limit, one that is as old as the limit, and one
from the future. -/
def agedCache : Cache where
  limits := { maxAge := 10 }
  entries :=
    [entryFor "old" ⟨"a", 0, 2, 1⟩, entryFor "edge" ⟨"b", 1, 0, 1⟩,
      entryFor "ahead" ⟨"c", 30, 1, 1⟩]

theorem expiry_agrees_agedCache :
    let questions := [Question.has 11 "edge", .get 11 "old", .get 12 "edge", .get 40 "ahead"]
    ∃ digest, agedCache.HasDistinctDigests ∧ digestOf "old" = .ok digest ∧
      ((agedCache.has 11 "old").1 = .ok true ↔
        ∃ text, (agedCache.get 11 "old").1 = .ok (some text)) ∧
      ((agedCache.cleanup 11).2.replies questions).1 = (agedCache.replies questions).1 := by
  intro questions
  have distinct : agedCache.HasDistinctDigests :=
    (by decide +kernel : (agedCache.entries.map Prod.fst).Nodup)
  have law := expiry_agrees agedCache 11 distinct
  have known : digestOf "old" = .ok (entryFor "old" ⟨"a", 0, 2, 1⟩).1 := by decide +kernel
  exact ⟨_, distinct, known, (law.1 "old" _ known).1, (law.2.2.2 questions (by decide)).1⟩

end CodeProse.Cache
