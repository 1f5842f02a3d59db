import CodeProse.Proofs.Cache.Calls

/-!
# What a cache serves

A cache serves the text that was stored last under a key, or nothing. That need not be the text
that was set last: one that is larger than the limit is not stored, nor is one without a form in
UTF-8, and the one it should replace stays where it is.
-/

set_option autoImplicit false

namespace CodeProse.Cache

/-- What a run has done for one key: the text that was set last and the one that was stored last,
both forgotten with the key. -/
structure History where
  latest : Option Text := none
  stored : Option Text := none
deriving DecidableEq

/-- A text is within a limit, and has a form in UTF-8. -/
def Fits (limits : CacheLimits) (value : Text) : Prop :=
  ∃ size, value.utf8Size? = some size ∧ (size : Int) ≤ limits.maxSize

instance (limits : CacheLimits) (value : Text) : Decidable (Fits limits value) :=
  decidable_of_iff (value.utf8Size?.any fun (size : Nat) => (size : Int) ≤ limits.maxSize) (by
    simp [Fits, Option.any_eq_true])

/-- A text set under a key. One that does not fit is not stored. -/
def History.set (key : Text) (limits : CacheLimits) (history : History) (text : Text × Text) :
    History :=
  if text.1 = key then
    { latest := some text.2
      stored := if Fits limits text.2 then some text.2 else history.stored }
  else history

/-- Several texts up to the first that fails, that one included: the ones that are set when all are
asked for. -/
def preloaded (cache : Cache) (time : Nat → Int) : List (Text × Text) → List (Text × Text)
  | [] => []
  | (key, value) :: rest =>
      match cache.store (time 0) (time 1) key value with
      | (.error _, _) => [(key, value)]
      | (.ok _, next) => (key, value) :: next.preloaded (fun reading => time (reading + 2)) rest

/-- A call on a cache, as one key sees it. -/
def History.record (key : Text) (cache : Cache) (history : History) : Call → History
  | .store _ _ other value => history.set key cache.limits (other, value)
  | .preload time texts =>
      (cache.preloaded time texts).foldl (History.set key cache.limits) history
  | .delete other => if other = key then {} else history
  | .clear => {}
  | _ => history

def historyFrom (key : Text) : Cache → History → List Call → History
  | _, history, [] => history
  | cache, history, call :: rest =>
      historyFrom key (cache.perform call) (history.record key cache call) rest

/-- What a run from an empty cache has done for one key. -/
def historyOf (limits : CacheLimits) (calls : List Call) (key : Text) : History :=
  historyFrom key { limits } {} calls

/-- Every entry under the digest of a key holds the text stored last under that key. -/
def Serves (key : Text) (cache : Cache) (history : History) : Prop :=
  ∀ entry ∈ cache.entries, digestOf key = .ok entry.1 → history.stored = some entry.2.value

/-- No other key has the digest of a key. -/
def HasOwnDigest (key : Text) (texts : List (Text × Text)) : Prop :=
  ∀ text ∈ texts, ∀ digest, digestOf text.1 = .ok digest → digestOf key = .ok digest → text.1 = key

section Serving

variable {key : Text} {cache next : Cache} {history : History}

theorem Serves.thins (serves : Serves key cache history) (thins : Thins cache next) :
    Serves key next history := by
  intro entry member digest
  obtain ⟨old, known, same, value, -⟩ := thins.exists_mem member
  rw [← value]
  exact serves old known (same ▸ digest)

theorem not_fits_of_lt {limits : CacheLimits} {value : Text} {size : Nat}
    (measured : value.utf8Size? = some size) (large : limits.maxSize < size) :
    ¬ Fits limits value := by
  rintro ⟨other, known, fits⟩
  obtain rfl : size = other := Option.some.inj (measured.symm.trans known)
  omega

theorem Serves.store (serves : Serves key cache history) {ranking stamp : Int} {other value : Text}
    (own : HasOwnDigest key [(other, value)]) :
    Serves key (cache.store ranking stamp other value).2
      (history.set key cache.limits (other, value)) := by
  by_cases same : other = key
  · subst same
    intro entry member listed
    cases measured : value.utf8Size? with
    | none =>
        have refused : ¬ Fits cache.limits value := fun ⟨size, known, _⟩ => by
          rw [measured] at known
          cases known
        rw [store_of_unencodable fun _ size _ known => by rw [measured] at known; cases known]
          at member
        simpa [History.set, refused] using serves entry member listed
    | some size =>
        rw [store_of_ok listed measured] at member
        have stores := stores_put cache ranking stamp entry.1 value size
        generalize (cache.put ranking stamp entry.1 value size).2 = next at stores member
        cases stores with
        | refused large =>
            simpa [History.set, not_fits_of_lt measured large] using serves entry member listed
        | dropped fits unranked => simpa using (List.mem_filter.mp member).2
        | placed fits fewer room =>
            rcases List.mem_append.mp member with old | new
            · simpa using (List.mem_filter.mp (fewer.subset old)).2
            · have fit : Fits cache.limits value := ⟨size, measured, fits⟩
              rw [List.mem_singleton.mp new]
              simp [History.set, fit]
  · intro entry member digest
    rw [History.set, if_neg same]
    rcases mem_entries_store member with old | ⟨found, size, known, -, new⟩
    · exact serves entry old digest
    · rw [new] at digest
      exact absurd (own _ List.mem_cons_self found known digest) same

theorem Serves.preload (time : Nat → Int) {texts : List (Text × Text)}
    (serves : Serves key cache history) (own : HasOwnDigest key texts) :
    Serves key (cache.preload time texts).2
      ((cache.preloaded time texts).foldl (History.set key cache.limits) history) := by
  induction texts generalizing cache history time with
  | nil => exact serves
  | cons text rest ih =>
      obtain ⟨here, further⟩ := List.forall_mem_cons.mp own
      have limits : (cache.store (time 0) (time 1) text.1 text.2).2.limits = cache.limits :=
        limits_store
      have first : Serves key (cache.store (time 0) (time 1) text.1 text.2).2
          (history.set key cache.limits text) :=
        serves.store (List.forall_mem_singleton.mpr here)
      rw [Cache.preload, preloaded]
      cases outcome : cache.store (time 0) (time 1) text.1 text.2 with
      | mk result next =>
          rw [outcome] at limits first
          cases result with
          | error fault => exact first
          | ok done =>
              have later := ih (fun reading => time (reading + 2)) first further
              rw [limits] at later
              exact later

/-- Every call keeps what the entries of a key hold in step with what was stored under it. -/
theorem Serves.perform (serves : Serves key cache history) {call : Call}
    (own : HasOwnDigest key call.texts) :
    Serves key (cache.perform call) (history.record key cache call) := by
  cases call with
  | get now other => exact serves.thins (thins_perform rfl)
  | has now other => exact serves.thins (thins_perform rfl)
  | store ranking stamp other value => exact serves.store own
  | delete other =>
      by_cases same : other = key
      · intro entry member digest
        rw [Cache.perform, Cache.delete, same, withDigest_of_ok digest] at member
        simpa using (List.mem_filter.mp member).2
      · rw [History.record, if_neg same]
        exact serves.thins (thins_perform rfl)
  | clear =>
      intro entry member
      cases member
  | cleanup now => exact serves.thins (thins_perform rfl)
  | optimize now maxEntries => exact serves.thins (thins_perform rfl)
  | preload time texts => exact serves.preload time own
  | configure maxSize maxAge => exact serves

theorem Serves.foldl_perform {calls : List Call} (serves : Serves key cache history)
    (own : ∀ call ∈ calls, HasOwnDigest key call.texts) :
    Serves key (calls.foldl Cache.perform cache) (historyFrom key cache history calls) := by
  induction calls generalizing cache history with
  | nil => exact serves
  | cons call rest ih =>
      have first := serves.perform (own call List.mem_cons_self)
      exact ih first fun next member => own next (List.mem_cons_of_mem call member)

theorem Serves.get (serves : Serves key cache history) {now : Int} {text : Text}
    (found : (cache.get now key).1 = .ok (some text)) : history.stored = some text := by
  obtain ⟨entry, member, digest, -, value⟩ := exists_of_get_eq_some found
  exact (serves entry member digest).trans (congrArg some value)

end Serving

section Current

variable {key : Text} {cache : Cache} {history : History}

theorem mem_of_mem_preloaded {time : Nat → Int} {texts : List (Text × Text)} {text : Text × Text}
    (member : text ∈ cache.preloaded time texts) : text ∈ texts := by
  induction texts generalizing cache time with
  | nil => cases member
  | cons first rest ih =>
      rw [preloaded] at member
      split at member
      · rw [List.mem_singleton.mp member]
        exact List.mem_cons_self
      · rcases List.mem_cons.mp member with rfl | later
        · exact List.mem_cons_self
        · exact List.mem_cons_of_mem first (ih later)

theorem latest_eq_stored_set {limits : CacheLimits} {text : Text × Text}
    (current : history.latest = history.stored) (fits : text.1 = key → Fits limits text.2) :
    (history.set key limits text).latest = (history.set key limits text).stored := by
  by_cases own : text.1 = key
  · simp [History.set, own, fits own]
  · simpa [History.set, own] using current

theorem latest_eq_stored_foldl_set {limits : CacheLimits} {texts : List (Text × Text)}
    (current : history.latest = history.stored)
    (fit : ∀ text ∈ texts, text.1 = key → Fits limits text.2) :
    (texts.foldl (History.set key limits) history).latest =
      (texts.foldl (History.set key limits) history).stored := by
  induction texts generalizing history with
  | nil => exact current
  | cons text rest ih =>
      have first := latest_eq_stored_set current (fit text List.mem_cons_self)
      exact ih first fun next member => fit next (List.mem_cons_of_mem text member)

theorem latest_eq_stored_record {call : Call} (current : history.latest = history.stored)
    (fit : ∀ text ∈ call.texts, text.1 = key → Fits cache.limits text.2) :
    (history.record key cache call).latest = (history.record key cache call).stored := by
  cases call with
  | store ranking stamp other value =>
      exact latest_eq_stored_set current (fit (other, value) List.mem_cons_self)
  | preload time texts =>
      exact latest_eq_stored_foldl_set current fun text member =>
        fit text (mem_of_mem_preloaded member)
  | delete other =>
      by_cases own : other = key
      · simp [History.record, own]
      · simpa [History.record, own] using current
  | clear => rfl
  | get now other => exact current
  | has now other => exact current
  | cleanup now => exact current
  | optimize now maxEntries => exact current
  | configure maxSize maxAge => exact current

/-- Where every text set under a key fits under the limit of its time, the text that was set last
is the one that was stored last. -/
theorem latest_eq_stored {calls : List Call} (current : history.latest = history.stored)
    (fit : ∀ front call back, calls = front ++ call :: back → ∀ text ∈ call.texts,
      text.1 = key → Fits (front.foldl Cache.perform cache).limits text.2) :
    (historyFrom key cache history calls).latest =
      (historyFrom key cache history calls).stored := by
  induction calls generalizing cache history with
  | nil => exact current
  | cons call rest ih =>
      have first := latest_eq_stored_record current (fit [] call rest rfl)
      refine ih first fun front next back split => ?_
      exact fit (call :: front) next back (congrArg (call :: ·) split)

end Current

/-- On every run a cache serves the text that was stored last under a key, or nothing; a question
for a key without a digest fails. So the cache serves the text that was set last, or nothing, exactly
if the two are the same wherever it serves one; they are where every text set under the key fits
under the limit of its time. -/
theorem get_afterCalls (limits : CacheLimits) (calls : List Call) (key : Text)
    (own : ∀ call ∈ calls, HasOwnDigest key call.texts) (now : Int) :
    let served := ((afterCalls limits calls).get now key).1
    let history := historyOf limits calls key
    (served.isOk = false ↔ ¬ Text.IsWhole key) ∧
    (∀ text, served = .ok (some text) → history.stored = some text) ∧
    ((∀ text, served = .ok (some text) → history.latest = some text) ↔
      ((∀ text, served ≠ .ok (some text)) ∨ history.latest = history.stored)) ∧
    ((∀ front call back, calls = front ++ call :: back → ∀ text ∈ call.texts, text.1 = key →
        Fits (afterCalls limits front).limits text.2) →
      ∀ text, served = .ok (some text) → history.latest = some text) := by
  intro served history
  have empty : Serves key { limits } {} := fun _ member => (nomatch member)
  have stored : ∀ text, served = .ok (some text) → history.stored = some text :=
    fun text => (empty.foldl_perform own).get
  have latest_iff : (∀ text, served = .ok (some text) → history.latest = some text) ↔
      ((∀ text, served ≠ .ok (some text)) ∨ history.latest = history.stored) := by
    constructor
    · intro latest
      by_cases found : ∃ text, served = .ok (some text)
      · obtain ⟨text, found⟩ := found
        exact .inr ((latest text found).trans (stored text found).symm)
      · exact .inl (not_exists.mp found)
    · rintro (nothing | same) text found
      · exact absurd found (nothing text)
      · exact same.trans (stored text found)
  exact ⟨withDigest_isOk_eq_false_iff, stored, latest_iff, fun fit =>
    latest_iff.mpr (.inr (latest_eq_stored rfl fit))⟩

/-- Calls that store a text, replace it, fail to replace it and look at it. -/
def replacingCalls : List Call :=
  [.store 0 0 "k" "abc", .get 1 "k", .preload (fun _ => 2) [("k", "xy"), ("other", "z")],
    .store 2 2 [CodePoint.ofNat 0xD83D] "z", .cleanup 3]

theorem get_afterCalls_replacingCalls :
    ((afterCalls { maxSize := 3 } replacingCalls).get 4 "k").1 = .ok (some "xy".toText) ∧
      ∀ text, ((afterCalls { maxSize := 3 } replacingCalls).get 4 "k").1 = .ok (some text) →
        (historyOf { maxSize := 3 } replacingCalls "k").latest = some text := by
  have others : ∀ call ∈ replacingCalls, ∀ text ∈ call.texts, text.1 = "k".toText ∨
      digestOf text.1 ≠ digestOf "k" := by decide +kernel
  have own : ∀ call ∈ replacingCalls, HasOwnDigest "k" call.texts :=
    fun call member text listed digest known knownKey =>
      (others call member text listed).resolve_right fun apart =>
        apart (known.trans knownKey.symm)
  have law := get_afterCalls { maxSize := 3 } replacingCalls "k" own 4
  have same : (historyOf { maxSize := 3 } replacingCalls "k").latest =
      (historyOf { maxSize := 3 } replacingCalls "k").stored := by decide +kernel
  exact ⟨by decide +kernel, law.2.2.1.mpr (.inr same)⟩

/-- Calls that store a text and then set one that is larger than the limit. -/
def refusedCalls : List Call :=
  [.store 0 0 "k" "abc", .store 0 0 "k" "abcd"]

/-- The text that a larger one should have replaced is still served. -/
theorem not_forall_get_afterCalls :
    ¬ ∀ (limits : CacheLimits) (calls : List Call) (key : Text) (now : Int),
      (∀ call ∈ calls, HasOwnDigest key call.texts) →
      ∀ text, ((afterCalls limits calls).get now key).1 = .ok (some text) →
        (historyOf limits calls key).latest = some text := by
  intro law
  have own : ∀ call ∈ refusedCalls, HasOwnDigest "k" call.texts := by
    have same : ∀ call ∈ refusedCalls, ∀ text ∈ call.texts, text.1 = "k".toText := by decide
    exact fun call member text listed _ _ _ => same call member text listed
  have claimed := law { maxSize := 3 } refusedCalls "k" 0 own "abc" (by decide +kernel)
  revert claimed
  decide +kernel

end CodeProse.Cache
