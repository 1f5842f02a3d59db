import CodeProse.Proofs.Cache.Calls
import CodeProse.Proofs.Run.Calls
import CodeProse.Proofs.Run.Expectation

/-!
# The limits of the cache in runs

The workspace for the settings of a project has an empty cache, and in place of that stands one
under the usual limits. So these are the limits that every run keeps, whatever the settings say,
and the limits of the settings are kept exactly where they are no narrower.
-/

set_option autoImplicit false

namespace CodeProse

variable {σ : Type}

namespace Workspace

/-- Limits are enforced in a workspace: the texts in its cache are within the size, and where the
cache answers for a span, looked up at its turn in a chunk, it does so from an entry that is no
older than the age. -/
structure Enforces (limits : CacheLimits) (workspace : Workspace σ) : Prop where
  size : workspace.cache.totalSize ≤ limits.maxSize
  age : ∀ (options : CorrectionOptions) (chunk : List Span) (index : Nat) (lookup : Lookup)
    (text : Text), (workspace.lookUp options chunk).1[index]? = some lookup →
      lookup.cached = .ok (some text) →
        ∃ entry ∈ workspace.cache.entries, Cache.digestOf lookup.call.key = .ok entry.1 ∧
          entry.2.value = text ∧ workspace.time index - entry.2.timestamp ≤ limits.maxAge

theorem Enforces.mono {narrow wide : CacheLimits} {workspace : Workspace σ}
    (enforces : workspace.Enforces narrow) (size : narrow.maxSize ≤ wide.maxSize)
    (age : narrow.maxAge ≤ wide.maxAge) : workspace.Enforces wide where
  size := Int.le_trans enforces.size size
  age options chunk index lookup text listed found := by
    obtain ⟨entry, member, digest, value, young⟩ :=
      enforces.age options chunk index lookup text listed found
    exact ⟨entry, member, digest, value, Int.le_trans young age⟩

/-- The workspaces that the work of a corrector passes through, chunk by chunk. Between the chunks
everything but the cache may change: the session, the clock, the state, what can be undone. -/
inductive Reaches (corrector : Corrector σ) (start : Workspace σ) : Workspace σ → Prop where
  | start : Reaches corrector start start
  | meanwhile {before after : Workspace σ} (reached : Reaches corrector start before)
      (same : after.cache = before.cache) : Reaches corrector start after
  | chunk {before : Workspace σ} (reached : Reaches corrector start before)
      (options : CorrectionOptions) (chunk : List Span) :
      Reaches corrector start (correctChunk corrector options chunk before).2
  | clear {before : Workspace σ} (reached : Reaches corrector start before) :
      Reaches corrector start { before with cache := before.cache.clear }

section LookUp

variable {options : CorrectionOptions}

/-- What the cache answers in a chunk stands in an entry from before the chunk that has not
expired when its turn comes. -/
theorem exists_entry_of_lookUp {workspace : Workspace σ} {chunk : List Span} {index : Nat}
    {lookup : Lookup} {text : Text}
    (listed : (workspace.lookUp options chunk).1[index]? = some lookup)
    (found : lookup.cached = .ok (some text)) :
    ∃ entry ∈ workspace.cache.entries, Cache.digestOf lookup.call.key = .ok entry.1 ∧
      entry.2.value = text ∧
        workspace.time index - entry.2.timestamp ≤ workspace.cache.limits.maxAge := by
  induction chunk generalizing workspace index with
  | nil => cases listed
  | cons span rest ih =>
      cases index with
      | zero =>
          cases listed
          obtain ⟨entry, member, digest, fresh, value⟩ := Cache.exists_of_get_eq_some found
          exact ⟨entry, member, digest, value, Int.not_lt.mp (of_decide_eq_false fresh)⟩
      | succ index =>
          -- The first question only forgets entries or counts a hit, so what answers later is old.
          obtain ⟨entry, member, digest, value, young⟩ := @ih
            (workspace.behindLookUp (span.call options).key workspace.session) index listed
          obtain ⟨old, known, extra, -, rfl⟩ := Cache.exists_of_mem_entries_get member
          rw [time_behindLookUp, behindLookUp, Cache.limits_get, Nat.add_comm] at young
          exact ⟨old, known, digest, value, young⟩

end LookUp

/-- The cache of a workspace is under some limits and within them. -/
structure Keeps (limits : CacheLimits) (workspace : Workspace σ) : Prop where
  limits : workspace.cache.limits = limits
  measured : workspace.cache.IsMeasured

section Keeping

variable {limits : CacheLimits} {workspace : Workspace σ} {corrector : Corrector σ}

theorem Keeps.enforces (keeps : workspace.Keeps limits) : workspace.Enforces limits := by
  obtain ⟨rfl, measured⟩ := keeps
  exact ⟨measured.within, fun _ _ _ _ _ listed found => exists_entry_of_lookUp listed found⟩

theorem Keeps.lookUp (options : CorrectionOptions) (chunk : List Span)
    (keeps : workspace.Keeps limits) : (workspace.lookUp options chunk).2.Keeps limits := by
  refine (lookUp_keeps (Keeps limits) (fun _ => True)
    (fun span _ before held => ⟨?_, trivial⟩) keeps).1
  exact ⟨Cache.limits_get.trans held.limits, held.measured.perform (.get _ _) rfl⟩

theorem Keeps.behindStore (keeps : workspace.Keeps limits) (key value : Text) :
    (workspace.behindStore key value).Keeps limits :=
  ⟨Cache.limits_store.trans keeps.limits, keeps.measured.store _ _ _ _⟩

/-- Taking up an outcome stores a text or leaves the cache alone. -/
theorem Keeps.takeUp (keeps : workspace.Keeps limits) (lookup : Lookup)
    (outcome : Except Failure Text) : (workspace.takeUp lookup outcome).2.Keeps limits := by
  have takes := takeUp_takesUp lookup outcome workspace
  generalize workspace.takeUp lookup outcome = result at takes ⊢
  cases takes with
  | passedOn configuration => exact keeps
  | leftAsItIs other records => exact ⟨keeps.limits, keeps.measured⟩
  | taken stored => exact keeps.behindStore _ _
  | lost refused => exact keeps.behindStore _ _

theorem Keeps.correctChunk (keeps : workspace.Keeps limits) (corrector : Corrector σ)
    (options : CorrectionOptions) (chunk : List Span) :
    (Workspace.correctChunk corrector options chunk workspace).2.Keeps limits := by
  have looked := keeps.lookUp options chunk
  generalize found : workspace.lookUp options chunk = result at looked
  obtain ⟨lookups, before⟩ := result
  exact (correctChunk_spec corrector (Keeps limits) (fun _ _ => True) found
    (fun _ => ⟨looked.limits, looked.measured⟩) (fun _ _ _ _ => trivial)
    fun lookup _ _ outcome _ before kept => ⟨kept.takeUp lookup outcome, fun _ _ => trivial⟩).1

/-- Wherever the work of a corrector leads from a workspace that keeps some limits, they are
kept. -/
theorem Reaches.keeps {start : Workspace σ} (reached : Reaches corrector start workspace)
    (keeps : start.Keeps limits) : workspace.Keeps limits := by
  induction reached with
  | start => exact keeps
  | meanwhile _ same ih => exact ⟨same ▸ ih.limits, same ▸ ih.measured⟩
  | chunk _ options chunk ih => exact ih.correctChunk corrector options chunk
  | clear _ ih => exact ⟨ih.limits, ih.measured.perform .clear rfl⟩

end Keeping

section Work

variable {start workspace : Workspace σ} {corrector : Corrector σ}

theorem isKept_reaches (corrector : Corrector σ) (start : Workspace σ) :
    IsKept corrector (Reaches corrector start) where
  meanwhile _ _ same _ reached := reached.meanwhile same
  chunk options chunk _ reached := reached.chunk options chunk

/-- Every call leads to a workspace that the work of the corrector passes through. -/
theorem Reaches.perform (reached : Reaches corrector start workspace) (call : WorkCall) :
    Reaches corrector start (call.perform corrector workspace) :=
  (isKept_reaches corrector start).perform call reached

end Work

end Workspace

end CodeProse
