import CodeProse.Proofs.Run.Limits
import CodeProse.Proofs.Run.Single
import CodeProse.Proofs.Text.Encoding
import CodeProse.Proofs.Text.Occurrence

/-!
# Configured limits

The workspace for the settings of a project is under the usual limits, whatever limits are
configured. The configured ones are enforced exactly where they are no narrower: a service that
answers with a text as large as the usual size fills the cache up to it, and the entry is served up
to the usual age.
-/

set_option autoImplicit false

namespace CodeProse

/-- The limits of a cache that nothing is said about. -/
def CacheLimits.usual : CacheLimits := {}

/-- A corrector for some settings has come to a workspace, whatever the service did and whenever
that was. -/
structure Settings.HasReached {σ : Type} (settings : Settings) (corrector : Corrector σ)
    (workspace : Workspace σ) : Prop where
  built : ∃ environment network service?,
    settings.corrector environment network service? = .ok corrector
  reached : ∃ session now, Workspace.Reaches corrector (settings.workspace session now) workspace

/-- A text of so many bytes that needs no unwrapping. -/
def plainText (size : Nat) : Text :=
  List.replicate size (.scalar 'a')

section PlainTexts

variable {size : Nat}

theorem chars?_plainText (size : Nat) :
    (plainText size).chars? = some (List.replicate size 'a') := by
  rw [plainText, ← List.map_replicate]
  exact Text.chars?_ofChars _

theorem utf8Size?_plainText (size : Nat) : (plainText size).utf8Size? = some size := by
  rw [Text.utf8Size?, chars?_plainText, Option.map_some, List.map_replicate]
  refine congrArg some ?_
  induction size with
  | zero => rfl
  | succ size ih =>
      rw [List.replicate_succ, total_cons, ih]
      exact Nat.add_comm 1 size

theorem isSolid_plainText (positive : 0 < size) : (plainText size).IsSolid := by
  have some : size ≠ 0 := Nat.pos_iff_ne_zero.mp positive
  constructor
  · simp [plainText, List.head?_replicate, some, isBlank]
  · simp [plainText, List.getLast?_replicate, some, isBlank]

theorem isBlank_plainText (positive : 0 < size) : (plainText size).isBlank = false := by
  have some : size ≠ 0 := Nat.pos_iff_ne_zero.mp positive
  simp [plainText, Text.isBlank, some, isBlank]

theorem unwrap_plainText (positive : 0 < size) (draft : Text) :
    unwrap (plainText size) draft = plainText size := by
  have some : size ≠ 0 := Nat.pos_iff_ne_zero.mp positive
  simp only [unwrap, (isSolid_plainText positive).trim_eq]
  simp [wrappingQuotes, isWrappedIn, plainText, List.head?_replicate, some]

end PlainTexts

theorem Cache.get_of_entries_eq_nil {cache : Cache} {now : Int} {key digest : Text}
    (known : digestOf key = .ok digest) (empty : cache.entries = []) :
    cache.get now key = (.ok none, { cache with misses := cache.misses.next }) := by
  rw [get, withDigest_of_ok known]
  simp [find, empty]

theorem Cache.store_of_entries_eq_nil {cache : Cache} {ranking stamp : Int}
    {key digest value : Text} {size : Nat} (known : digestOf key = .ok digest)
    (measured : value.utf8Size? = some size) (empty : cache.entries = [])
    (fits : (size : Int) ≤ cache.limits.maxSize) :
    cache.store ranking stamp key value =
      (.ok .stored, { cache with entries := [(digest, ⟨value, stamp, 0, size⟩)] }) := by
  have small : ¬ cache.limits.maxSize < size := Int.not_lt.mpr fits
  rw [store_of_ok known measured]
  simp [put, small, forget, dropDigest, totalSize, append, empty]

section Always

variable {text digest : Text} {size : Nat}

namespace Workspace

variable {corrector : Corrector Unit} {workspace : Workspace Unit}

theorem exists_takeUp_of_entries_eq_nil (workspace : Workspace Unit) (lookup : Lookup)
    (known : Cache.digestOf lookup.call.key = .ok digest)
    (measured : (unwrap text lookup.span.text).utf8Size? = some size)
    (empty : workspace.cache.entries = []) (fits : (size : Int) ≤ workspace.cache.limits.maxSize) :
    ∃ corrected stamp after, workspace.takeUp lookup (.ok text) = (.ok corrected, after) ∧
      after.cache.entries = [(digest, ⟨unwrap text lookup.span.text, stamp, 0, size⟩)] := by
  simp only [takeUp, Cache.store_of_entries_eq_nil known measured empty fits]
  exact ⟨_, _, _, rfl, rfl⟩

/-- A chunk of one span leaves the text of the service in a cache that was empty. -/
theorem correctChunk_always (service : corrector.client.service = .always text)
    (asked : 0 < corrector.client.policy.attempts) (written : text.isBlank = false)
    {options : CorrectionOptions} {span : Span} (idle : workspace.session.inFlight = [])
    (known : Cache.digestOf (span.call options).key = .ok digest)
    (measured : (unwrap text span.text).utf8Size? = some size)
    (empty : workspace.cache.entries = []) (fits : (size : Int) ≤ workspace.cache.limits.maxSize) :
    ∃ stamp, (correctChunk corrector options [span] workspace).2.cache.entries =
      [(digest, ⟨unwrap text span.text, stamp, 0, size⟩)] := by
  have asks : workspace.cache.get (workspace.time 0) (span.call options).key =
      (.ok none, { workspace.cache with misses := workspace.cache.misses.next }) :=
    Cache.get_of_entries_eq_nil known empty
  have decides : Decides (corrector.client.service.reply workspace.session.service
      (corrector.client.job (span.call options)).request).1 (.ok text) := by
    rw [service]
    exact .text written
  have settled := Client.settle_decided asked idle decides
  generalize ran : corrector.client.settle [span.call options] workspace.session = outcome
    at settled
  obtain ⟨_, session⟩ := outcome
  cases settled
  have nothing : (workspace.behindLookUp (span.call options).key session).cache.entries = [] := by
    rw [behindLookUp, asks]
    exact empty
  have room : (size : Int) ≤
      (workspace.behindLookUp (span.call options).key session).cache.limits.maxSize := by
    rw [behindLookUp, Cache.limits_get]
    exact fits
  obtain ⟨corrected, stamp, after, taken, entries⟩ :=
    exists_takeUp_of_entries_eq_nil _ ⟨span, span.call options, .ok none⟩ known measured nothing room
  refine ⟨stamp, ?_⟩
  rw [correctChunk_missing rfl (congrArg Prod.fst asks) ran taken]
  exact entries

end Workspace

end Always

namespace Settings

section Reached

variable {σ : Type} {settings : Settings} {corrector : Corrector σ} {workspace : Workspace σ}

theorem HasReached.keeps (reached : settings.HasReached corrector workspace) :
    workspace.Keeps .usual := by
  obtain ⟨session, now, reached⟩ := reached.reached
  exact reached.keeps ⟨rfl, Cache.isMeasured_empty (by decide)⟩

theorem HasReached.meanwhile {after : Workspace σ} (reached : settings.HasReached corrector workspace)
    (same : after.cache = workspace.cache) : settings.HasReached corrector after := by
  obtain ⟨built, session, now, reached⟩ := reached
  exact ⟨built, session, now, reached.meanwhile same⟩

theorem HasReached.perform (reached : settings.HasReached corrector workspace)
    (call : Workspace.WorkCall) :
    settings.HasReached corrector (call.perform corrector workspace) := by
  obtain ⟨built, session, now, reached⟩ := reached
  exact ⟨built, session, now, reached.perform call⟩

end Reached

/-- Under every settings the cache can come to hold one text of any size within the usual limit. -/
theorem exists_hasReached (settings : Settings) {options : CorrectionOptions} {span : Span}
    {digest : Text} {size : Nat} (known : Cache.digestOf (span.call options).key = .ok digest)
    (positive : 0 < size) (fits : (size : Int) ≤ CacheLimits.usual.maxSize) :
    ∃ (corrector : Corrector Unit) (workspace : Workspace Unit) (stamp : Int),
      settings.HasReached corrector workspace ∧
      workspace.cache.entries = [(digest, ⟨plainText size, stamp, 0, size⟩)] := by
  let endpoint := Endpoint.ofSettings [] settings.service.endpoint
  let corrector : Corrector Unit :=
    { client := endpoint.client (.always (plainText size)), settings := some settings }
  let network : Network Unit := ⟨fun state _ => (.unreachable [], state)⟩
  let start : Workspace Unit := settings.workspace { service := () } 0
  have measured : (unwrap (plainText size) span.text).utf8Size? = some size := by
    rw [unwrap_plainText positive, utf8Size?_plainText]
  have asked : 0 < corrector.client.policy.attempts := (by decide : (0 : Int) < 3)
  have service : corrector.client.service = .always (plainText size) := rfl
  have idle : start.session.inFlight = [] := rfl
  obtain ⟨stamp, entries⟩ := Workspace.correctChunk_always service asked (isBlank_plainText positive)
    idle known measured rfl fits
  rw [unwrap_plainText positive] at entries
  have built : ∃ environment network service?,
      settings.corrector environment network service? = .ok corrector :=
    ⟨[], network, some (.always (plainText size)), rfl⟩
  exact ⟨corrector, _, stamp, ⟨built, _, _, .chunk .start options [span]⟩, entries⟩

def noteSpan : Span where
  text := "Teh cat"
  kind := .comment
  range := ⟨⟨0, 2⟩, ⟨0, 9⟩⟩
  confidence := 1

/-- The usual limits are the ones that are enforced, whatever the settings say. So the limits of
the settings are enforced exactly where neither is narrower than the usual one. -/
theorem enforces_iff (settings : Settings) :
    (∀ (σ : Type) (corrector : Corrector σ) (workspace : Workspace σ),
      settings.HasReached corrector workspace →
        workspace.cache.limits = .usual ∧ workspace.Enforces .usual ∧
          ∀ call : Workspace.WorkCall,
            settings.HasReached corrector (call.perform corrector workspace)) ∧
    ((∀ (σ : Type) (corrector : Corrector σ) (workspace : Workspace σ),
        settings.HasReached corrector workspace → workspace.Enforces settings.cache.limits) ↔
      CacheLimits.usual.maxSize ≤ settings.cache.limits.maxSize ∧
        CacheLimits.usual.maxAge ≤ settings.cache.limits.maxAge) := by
  refine ⟨fun σ corrector workspace reached =>
    ⟨reached.keeps.limits, reached.keeps.enforces, reached.perform⟩, ?_, ?_⟩
  · -- A cache that one text fills up to the usual size bounds the size from below, and the same
    -- text, asked for when it is about to expire, bounds the age.
    intro enforced
    obtain ⟨size, whole⟩ : ∃ size : Nat, (size : Int) = CacheLimits.usual.maxSize :=
      ⟨CacheLimits.usual.maxSize.toNat, rfl⟩
    have positive : 0 < size := Int.natCast_pos.mp (whole ▸ (by decide))
    obtain ⟨digest, known⟩ : ∃ digest, Cache.digestOf (noteSpan.call {}).key = .ok digest :=
      Cache.exists_digestOf (by decide)
    obtain ⟨corrector, workspace, stamp, reached, entries⟩ :=
      settings.exists_hasReached known positive (Int.le_of_eq whole)
    constructor
    · have within := (enforced Unit corrector workspace reached).size
      rw [Cache.totalSize_eq_sizes, entries] at within
      simpa [whole] using within
    · let later : Workspace Unit :=
        { workspace with now := stamp + CacheLimits.usual.maxAge, drift := fun _ => 0 }
      have reachedLater : settings.HasReached corrector later := reached.meanwhile rfl
      have listed : (later.lookUp {} [noteSpan]).1[0]? =
          some ⟨noteSpan, noteSpan.call {}, .ok (some (plainText size))⟩ := by
        simp [Workspace.lookUp, Cache.get, Cache.withDigest_of_ok known, Cache.find,
          Cache.isExpired, later, entries, reached.keeps.limits, Workspace.time]
      obtain ⟨entry, member, -, -, young⟩ :=
        (enforced Unit corrector later reachedLater).age {} [noteSpan] 0 _ _ listed rfl
      have same : entry = _ := List.mem_singleton.mp (entries ▸ member)
      simpa [same, later, Workspace.time] using young
  · rintro ⟨size, age⟩ σ corrector workspace reached
    exact reached.keeps.enforces.mono size age

def smallSettings : Settings where
  cache := { maxSize := 5 }

def smallCorrector : Corrector Unit where
  client := (Endpoint.ofSettings [] smallSettings.service.endpoint).client (.always "The cat")
  settings := some smallSettings

def smallWorkspace : Workspace Unit :=
  (Workspace.correctSpans smallCorrector [noteSpan] none
    (smallSettings.workspace { service := () } 0)).2

theorem hasReached_smallWorkspace : smallSettings.HasReached smallCorrector smallWorkspace where
  built := ⟨[], ⟨fun state _ => (.unreachable [], state)⟩, some (.always "The cat"), rfl⟩
  reached := ⟨{ service := () }, 0, Workspace.Reaches.start.perform (.correctSpans [noteSpan] none)⟩

theorem enforces_iff_smallSettings :
    smallWorkspace.Enforces .usual ∧
      ¬ ∀ (σ : Type) (corrector : Corrector σ) (workspace : Workspace σ),
        smallSettings.HasReached corrector workspace →
          workspace.Enforces smallSettings.cache.limits := by
  obtain ⟨usual, configured⟩ := enforces_iff smallSettings
  refine ⟨(usual Unit smallCorrector smallWorkspace hasReached_smallWorkspace).2.1, ?_⟩
  rw [configured]
  decide

/-- The seven bytes are stored. -/
theorem not_forall_enforces :
    ¬ ∀ (settings : Settings) (σ : Type) (corrector : Corrector σ) (workspace : Workspace σ),
      settings.HasReached corrector workspace → workspace.Enforces settings.cache.limits := by
  intro law
  have stored : smallWorkspace.cache.totalSize = 7 := by decide +kernel
  have within := (law smallSettings Unit smallCorrector smallWorkspace hasReached_smallWorkspace).size
  rw [stored] at within
  revert within
  decide

end Settings

end CodeProse
