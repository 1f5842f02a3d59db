import CodeProse.Run.Apply
import CodeProse.Web.Answer
import CodeProse.Web.Payload

/-!
# The web service

Answers requests by the extraction and the correction of texts. The corrector is the one of
the whole service; where there is none, the requests that need it are answered by the reason.
A body that is no JSON is refused before that, one with unfit members after it.
-/

set_option autoImplicit false

namespace CodeProse

/-- The name of a text that belongs to no file. -/
def untitled : Text := "untitled"

/-- The document of a text that a request carries. -/
def webDocument (text languageId : Text) : Document where
  identity := untitled
  languageId
  text

namespace Corrector

variable {σ : Type}

def extractionOptionsFor (corrector : Corrector σ) (payload : ExtractPayload) :
    ExtractionOptions :=
  { corrector.extractionOptions with language := payload.language }

/-- The options of the correction that a request asks for. What it leaves empty is as usual. -/
def correctionOptionsFor (corrector : Corrector σ) (payload : CorrectPayload) :
    CorrectionOptions :=
  let usual := corrector.correctionOptions
  { language := (present? payload.targetLanguage).or usual.language
    style := (present? payload.style).or usual.style
    customPrompt := usual.customPrompt }

end Corrector

namespace Workspace

variable {σ : Type}

def answerExtract (corrector : Corrector σ) (payload : ExtractPayload)
    (workspace : Workspace σ) : WebReply × Workspace σ :=
  let document := webDocument payload.text payload.languageId
  let options := corrector.extractionOptionsFor payload
  (.ofJson (spansAnswer (document.spans corrector.registry options)),
    workspace.logAll (document.records corrector.registry options))

/-- Answers a request to correct: by the corrections put into the text, or by those that would
change it. -/
def answerCorrect (corrector : Corrector σ) (payload : CorrectPayload)
    (workspace : Workspace σ) : WebReply × Workspace σ :=
  let document := webDocument payload.text payload.languageId
  let options := some (corrector.correctionOptionsFor payload)
  if payload.apply then
    match workspace.applyAll corrector (some document) options with
    | (.error failure, workspace) => (.ofFailure failure, workspace)
    | (.ok (application, changed), workspace) =>
        match application.run with
        | some run =>
            (.ofJson (runAnswer run application.applied (some changed.text)), workspace)
        | none =>
            (.ofFailure (.reported .general "Correction run produced no result"), workspace)
  else
    match workspace.preview corrector (some document) options with
    | (.error failure, workspace) => (.ofFailure failure, workspace)
    | (.ok run, workspace) => (.ofJson (runAnswer run run.corrections none), workspace)

def answerCacheStats (workspace : Workspace σ) : WebReply :=
  match workspace.cache.stats? workspace.now with
  | some stats => .ofJson stats.toJson
  | none => .ofFailure (.fault .quotientTooLarge)

/-- Answers a request with a body: reads the body, asks for the corrector, and then reads the
members of the body. -/
def answerPayload {α : Type} (corrector : Except Failure (Corrector σ)) (request : WebRequest)
    (read : Json → Option α) (answer : Corrector σ → α → Workspace σ → WebReply × Workspace σ)
    (workspace : Workspace σ) : WebReply × Workspace σ :=
  match request.value, corrector with
  | .error reply, _ => (reply, workspace)
  | .ok _, .error failure => (.ofFailure failure, workspace)
  | .ok value, .ok corrector =>
      match read value with
      | some payload => answer corrector payload workspace
      | none => (.unprocessable, workspace)

def answer (corrector : Except Failure (Corrector σ)) (request : WebRequest)
    (workspace : Workspace σ) : WebReply × Workspace σ :=
  match request.route with
  | .error status => (.ofStatus status, workspace)
  | .ok .health => (.ofJson (.object [("status", .string "ok")]), workspace)
  | .ok .extract =>
      workspace.answerPayload corrector request ExtractPayload.ofJson? answerExtract
  | .ok .correct =>
      workspace.answerPayload corrector request CorrectPayload.ofJson? answerCorrect
  | .ok .cacheStats =>
      match corrector with
      | .error failure => (.ofFailure failure, workspace)
      | .ok _ => (workspace.answerCacheStats, workspace)

end Workspace

end CodeProse
