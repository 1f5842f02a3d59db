import CodeProse.Correction.Basic
import CodeProse.Json.Display
import CodeProse.Json.Reader
import CodeProse.Service.Client

/-!
# Detailed corrections

A structured reply names the corrected text, the single changes and a confidence. What it
leaves out or gives in another shape is filled in; a reply that is no JSON object counts as
the corrected text itself.
-/

set_option autoImplicit false

namespace CodeProse

structure DetailedCorrection where
  text : Text
  draft : Text
  changes : List Change
  confidence : Binary64
  model : Text
deriving DecidableEq

/-- The confidence of a structured reply that names none. -/
def usualConfidence : Binary64 := Binary64.ofFraction 8 1

/-- The confidence of a reply that is not structured. -/
def plainConfidence : Binary64 := Binary64.ofFraction 5 1

/-- A member as a text; an empty one is replaced. -/
def textMember (name fallback : Text) (value : Json) : Text :=
  let member := value.field name
  if member.isEmpty then fallback else member.display

/-- The change that an item of a reply describes; only objects do. -/
def Change.ofJson? : Json → Option Change
  | .object members =>
      let value := Json.object members
      some
        { kind := textMember "type" "spelling" value
          draft := textMember "original" [] value
          corrected := textMember "corrected" [] value
          explanation :=
            match value.field "explanation" with
            | .string text => some text
            | _ => none }
  | _ => none

def changesOfJson : Json → List Change
  | .array items => items.filterMap Change.ofJson?
  | _ => []

/-- The confidence that a reply names, from zero to one. A whole number may lie beyond the
numbers of the format. -/
def confidenceOfJson : Json → Except Fault Binary64
  | .int value =>
      (Binary64.ofInt? value).elim (.error .integerTooLarge) fun confidence =>
        .ok confidence.clampUnit
  | .float value => .ok value.clampUnit
  | _ => .ok usualConfidence

def correctedOfJson (draft : Text) : Json → Text
  | .string text => if text.isEmpty then draft else text
  | _ => draft

namespace DetailedCorrection

/-- The correction that a reply without structure stands for. -/
def ofPlain (model draft response : Text) : DetailedCorrection where
  text := response
  draft
  changes := []
  confidence := plainConfidence
  model

def ofMembers (model draft : Text) (members : List (Text × Json)) :
    Except Fault DetailedCorrection := do
  let value := Json.object members
  let confidence ← confidenceOfJson (value.field "confidence")
  return {
    text := correctedOfJson draft (value.field "correctedText")
    draft
    changes := changesOfJson (value.field "changes")
    confidence
    model }

def ofResponse (nesting : Nat) (model draft response : Text) : Except Fault DetailedCorrection :=
  match Json.read nesting response with
  | .ok (.object members) => ofMembers model draft members
  | .ok _ => .ok (ofPlain model draft response)
  | .error error =>
      (Fault.ofReadError? error).elim (.ok (ofPlain model draft response)) .error

end DetailedCorrection

namespace Client

variable {σ : Type}

def detailedJob (client : Client σ) (call : Call) : Job where
  key := call.key
  request :=
    { prompt := call.options.detailedPrompt client.language call.text
      jsonMode := true
      maxTokens := client.maxTokens }

/-- Corrects a text in detail. The request for it is shared with no other call. -/
def correctDetailed (client : Client σ) (call : Call) (session : Session σ) :
    Except Failure DetailedCorrection × Session σ :=
  let flight :=
    client.policy.fly client.service client.schedule [client.detailedJob call]
      { session with inFlight := [] }
  let session := { flight.session with inFlight := session.inFlight }
  match outcomeOf flight.settled call.key with
  | .error failure => (.error failure, session)
  | .ok response =>
      ((DetailedCorrection.ofResponse client.nesting client.model call.text response).mapError
        Failure.fault, session)

end Client

end CodeProse
