import CodeProse.Run.Basic

/-!
# Chunks of a run

The spans of a chunk start together. Each looks into the cache first; those that find nothing
become calls of the client. An outcome is taken up when it comes: a corrected text is stored
in the cache, and a failure leaves the text as it is. A failure that lies in the configuration
ends the run, and so does one of the cache, but only when the whole chunk has been taken up.
-/

set_option autoImplicit false

namespace CodeProse

/-- The quotes that a service may put around its answer. -/
def wrappingQuotes : List CodePoint := [.scalar '"', .scalar '\'', .scalar '\x60']

/-- Whether a text starts and ends with a quote; a single quote does both. -/
def isWrappedIn (quote : CodePoint) (text : Text) : Bool :=
  text.head? = some quote && text.getLast? = some quote

/-- The corrected text without blanks around it, and without quotes that the draft
does not have. -/
def unwrap (corrected draft : Text) : Text :=
  let trimmed := corrected.trim
  let wraps (quote : CodePoint) : Bool :=
    2 ≤ trimmed.length && isWrappedIn quote trimmed && !isWrappedIn quote draft
  if wrappingQuotes.any wraps then Text.trim (trimmed.drop 1).dropLast else trimmed

/-- The options for a span: its own context where none is given. -/
def CorrectionOptions.forSpan (options : CorrectionOptions) (span : Span) : CorrectionOptions :=
  if options.context.isNone && (present? span.context).isSome then
    { options with context := span.context }
  else options

def Span.call (options : CorrectionOptions) (span : Span) : Call :=
  ⟨span.text, options.forSpan span⟩

def Span.correctedBy (span : Span) (text : Text) (confidence : Binary64) : Correction where
  text
  draft := span.text
  range := span.range
  confidence

structure Corrected where
  correction : Correction
  origin : Origin
deriving DecidableEq

/-- A span of a chunk with its call and what the cache answers for it. -/
structure Lookup where
  span : Span
  call : Call
  cached : Except CacheFault (Option Text)

/-- Whether the cache was asked and does not have the text. -/
def Lookup.isMissing (lookup : Lookup) : Bool :=
  match lookup.cached with
  | .ok none => true
  | _ => false

structure Finding where
  index : Nat
  result : Except Failure Corrected

namespace Workspace

variable {σ : Type}

def lookUp (options : CorrectionOptions) :
    List Span → Workspace σ → List Lookup × Workspace σ
  | [], workspace => ([], workspace)
  | span :: rest, workspace =>
      let call := span.call options
      let (cached, cache) := workspace.cache.get (workspace.time 0) call.key
      let (lookups, workspace) :=
        lookUp options rest { workspace with cache, readings := workspace.readings + 1 }
      (⟨span, call, cached⟩ :: lookups, workspace)

/-- Takes up the outcome of one call. Nothing catches a failure of the cache. -/
def takeUp (lookup : Lookup) (outcome : Except Failure Text) (workspace : Workspace σ) :
    Except Failure Corrected × Workspace σ :=
  match outcome with
  | .error failure =>
      if failure.isConfiguration then (.error failure, workspace)
      else
        (.ok ⟨lookup.span.correctedBy lookup.span.text 0, .failure⟩,
          workspace.log .warning
            ("Correction failed for ".toText ++ (lookup.span.text.excerpt 40).quoted ++
              ": ".toText ++ failure.message))
  | .ok text =>
      let corrected := unwrap text lookup.span.text
      let (result, cache) :=
        workspace.cache.store (workspace.time 0) (workspace.time 1) lookup.call.key corrected
      let workspace := { workspace with cache, readings := workspace.readings + 2 }
      match result with
      | .error fault => (.error (.fault fault.toFault), workspace)
      | .ok _ => (.ok ⟨lookup.span.correctedBy corrected lookup.span.confidence, .service⟩, workspace)

/-- Takes up one outcome for every span that waits for it. -/
def takeUpAll (outcome : Except Failure Text) :
    List (Nat × Lookup) → Workspace σ → List Finding × Workspace σ
  | [], workspace => ([], workspace)
  | (index, lookup) :: rest, workspace =>
      let (result, workspace) := workspace.takeUp lookup outcome
      let (findings, workspace) := takeUpAll outcome rest workspace
      (⟨index, result⟩ :: findings, workspace)

/-- Takes up the outcomes in the order in which they came. -/
def takeUpSettled (waiting : List (Nat × Lookup)) :
    List Settled → Workspace σ → List Finding × Workspace σ
  | [], workspace => ([], workspace)
  | settled :: rest, workspace =>
      let (first, workspace) :=
        workspace.takeUpAll settled.outcome
          (waiting.filter fun entry => entry.2.call.key = settled.key)
      let (later, workspace) := takeUpSettled waiting rest workspace
      (first ++ later, workspace)

/-- What the cache has said about a span; nothing where it does not have the text. -/
def foundInCache (entry : Nat × Lookup) : Option Finding :=
  match entry.2.cached with
  | .ok none => none
  | .ok (some text) =>
      some ⟨entry.1, .ok ⟨entry.2.span.correctedBy text entry.2.span.confidence, .cache⟩⟩
  | .error fault => some ⟨entry.1, .error (.fault fault.toFault)⟩

def firstFailure? (findings : List Finding) : Option Failure :=
  findings.findSome? fun finding =>
    match finding.result with
    | .error failure => some failure
    | .ok _ => none

def corrected? (findings : List Finding) (index : Nat) : Option Corrected :=
  (findings.find? fun finding => finding.index = index).bind fun finding =>
    finding.result.toOption

def correctChunk (corrector : Corrector σ) (options : CorrectionOptions) (chunk : List Span) :
    Action σ (List Corrected) := fun workspace =>
  let (lookups, workspace) := workspace.lookUp options chunk
  let numbered := (List.range lookups.length).zip lookups
  let waiting := numbered.filter fun entry => entry.2.isMissing
  let (settled, session) :=
    corrector.client.settle (waiting.map fun entry => entry.2.call) workspace.session
  let (taken, workspace) := takeUpSettled waiting settled { workspace with session }
  let findings := numbered.filterMap foundInCache ++ taken
  match firstFailure? findings with
  | some failure => (.error failure, workspace)
  | none => (.ok ((List.range lookups.length).filterMap (corrected? findings)), workspace)

end Workspace

end CodeProse
