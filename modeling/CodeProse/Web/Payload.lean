import CodeProse.Document.Basic
import CodeProse.Json.Reader
import CodeProse.Language.Registry
import CodeProse.Web.Route

/-!
# Payloads

The bodies of requests. A body is a JSON object; members that are not asked for are ignored,
members that are left out take their usual values, and a member of the wrong type makes the
whole body unfit. Only a truth value may also be given as a number or a word.
-/

set_option autoImplicit false

namespace CodeProse

/-- The reason given for a body that is well formed but cannot be read. -/
def unreadableBody : Text := "There was an error parsing the body"

/-- The value of a body, behind the byte order mark that it may start with. An empty body has
no value. -/
def WebRequest.value (request : WebRequest) : Except WebReply Json :=
  match request.body with
  | [] => .ok .null
  | first :: rest =>
      match Json.read Json.usualNesting (if first = '\uFEFF' then rest else first :: rest) with
      | .ok value => .ok value
      | .error .malformed => .error .unprocessable
      | .error _ => .error (.refused 400 unreadableBody)

structure ExtractPayload where
  text : Text
  language : Text
  languageId : Text
deriving DecidableEq

structure CorrectPayload where
  text : Text
  languageId : Text
  targetLanguage : Option Text
  style : Option Text
  apply : Bool
deriving DecidableEq

namespace Json

def asText? : Json → Option Text
  | string text => some text
  | _ => none

def asOptionalText? : Json → Option (Option Text)
  | null => some none
  | value => value.asText?.map some

def truthWords : List (Text × Bool) :=
  [("0", false), ("off", false), ("f", false), ("false", false), ("n", false), ("no", false),
    ("1", true), ("on", true), ("t", true), ("true", true), ("y", true), ("yes", true)]

/-- A truth value, the number 0 or 1, or a word for one. -/
def asBool? : Json → Option Bool
  | bool value => some value
  | int 0 => some false
  | int 1 => some true
  | float value =>
      if value.isZero then some false else if value = 1 then some true else none
  | string word => truthWords.lookup word.asciiLower
  | _ => none

/-- A member of an object that is read by `read`, or the usual value of one that is left
out. -/
def memberOr {α : Type} (members : List (Text × Json)) (name : Text) (read : Json → Option α)
    (usual : α) : Option α :=
  match member? name members with
  | some value => read value
  | none => some usual

end Json

def ExtractPayload.ofJson? : Json → Option ExtractPayload
  | .object members => do
      let text ← (Json.member? "text" members).bind Json.asText?
      let language ← Json.memberOr members "language" Json.asText? autoLanguage
      let languageId ← Json.memberOr members "language_id" Json.asText? Document.plainLanguage
      return { text, language, languageId }
  | _ => none

def CorrectPayload.ofJson? : Json → Option CorrectPayload
  | .object members => do
      let text ← (Json.member? "text" members).bind Json.asText?
      let languageId ← Json.memberOr members "language_id" Json.asText? Document.plainLanguage
      let targetLanguage ← Json.memberOr members "target_language" Json.asOptionalText? none
      let style ← Json.memberOr members "style" Json.asOptionalText? none
      let apply ← Json.memberOr members "apply" Json.asBool? false
      return { text, languageId, targetLanguage, style, apply }
  | _ => none

end CodeProse
