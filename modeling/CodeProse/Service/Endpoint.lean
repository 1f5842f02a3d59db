import CodeProse.Json.Reader
import CodeProse.Numeric.Number
import CodeProse.Sequence
import CodeProse.Service.Session

/-!
# Endpoints

A service behind a web address. Settings that are left out are taken from the environment. A
request becomes a JSON document that is posted; the answer is read back, and everything that
goes wrong on the way is a failure. The models that the service offers can be listed.
-/

set_option autoImplicit false

namespace CodeProse

structure EndpointSettings where
  model : Option Text := none
  baseUrl : Option Text := none
  temperature : Option Number := some (.real 0)
  maxTokens : Option Int := some 500
  apiKey : Option Text := none
  timeout : Option Number := some (.real 60)
deriving DecidableEq

/-- Where and how the service is called, and how deep the values in its answers may be nested. -/
structure Endpoint where
  model : Text
  baseUrl : Text
  temperature : Option Number
  maxTokens : Option Int
  apiKey : Option Text
  timeout : Option Number
  nesting : Nat := Json.usualNesting
deriving DecidableEq

abbrev Environment := List (Text × Text)

/-- The first of some variables that is set to a text that is not empty. -/
def Environment.firstOf? (environment : Environment) (names : List Text) : Option Text :=
  names.findSome? fun name => (environment.lookup name).filter fun value => !value.isEmpty

structure HttpCall where
  method : Text
  address : Text
  headers : List (Text × Text)
  payload : Option Json
  timeout : Number

/-- How a call ends. A failure of the system, such as a timeout, is told apart from an answer that
breaks the rules of the protocol or ends before its time. -/
inductive HttpReply where
  | answered (body : List UInt8)
  | refused (status : Int) (reason : Text) (body : List UInt8)
  | unreachable (reason : Text)
  | failed (name message : Text)
  | broken (name message : Text)

/-- A network with states of type `σ`. -/
structure Network (σ : Type) where
  send : σ → HttpCall → HttpReply × σ

/-- The text of a chat answer: the content of the first choice's message, or its text. -/
def contentOf (payload : Json) : Text :=
  match payload.field "choices" with
  | .array (first :: _) =>
      match (first.field "message").field "content", first.field "text" with
      | .string content, _ => content
      | _, .string text => text
      | _, _ => []
  | _ => []

/-- The address without the marks that may stand around it. -/
def plainAddress (text : Text) : Text :=
  let trimmed := Text.trim text
  let inner :=
    if trimmed.head? = some (.scalar '<') && trimmed.getLast? = some (.scalar '>') then
      Text.trim (trimmed.drop 1).dropLast
    else trimmed
  if "URL:".toText.isPrefixOf inner then Text.trim (inner.drop 4) else inner

/-- The address without its fragment, which starts at the last number sign. -/
def withoutFragment (address : Text) : Text :=
  match Text.lastIndexOf? ['#'] address with
  | some index => address.take index
  | none => address

def hasScheme (address : Text) : Bool :=
  match (withoutFragment address).span fun char : CodePoint => char ≠ ':' && char ≠ '/' with
  | (_ :: _, ':' :: _) => true
  | _ => false

/-- The models that are listed where the service lists none. -/
def usualModels : List Text := ["gpt-4", "gpt-4o", "gpt-4o-mini"]

/-- The id of a model in a list, if it is one of the family in use. -/
def modelId? (item : Json) : Option Text :=
  match item.field "id" with
  | .string id => if Text.contains "gpt" id then some id else none
  | _ => none

def modelsOf (payload : Json) : List Text :=
  match payload.field "data" with
  | .array items =>
      let ids := stableSort (fun left right => !(right < left)) (items.filterMap modelId?)
      if ids.isEmpty then usualModels else ids
  | _ => usualModels

/-- The text behind a status that refuses a call: the body, or the reason where that is
blank. -/
def refusalDetail (reason : Text) (body : List UInt8) : Text :=
  let detail := Text.trim (Text.ofUtf8Lenient body)
  if detail.isEmpty then reason else detail

/-- The JSON value of a body; nothing for a malformed one. -/
def payloadOf (nesting : Nat) (body : List UInt8) : Except Fault (Option Json) :=
  match Text.ofUtf8 body with
  | .error fault => .error (.undecodable fault.toDecodeFault)
  | .ok text =>
      match Json.read nesting text with
      | .ok payload => .ok (some payload)
      | .error error => (Fault.ofReadError? error).elim (.ok none) .error

/-- A failure of the service that is worth another attempt. -/
def serviceFailure (message : Text) : Failure :=
  .reported .transient ("Correction service ".toText ++ message)

/-- What the network's answer means for a request. -/
def replyOf (nesting : Nat) : HttpReply → Reply
  | .refused status reason body =>
      .error (serviceFailure
        ("failed with status ".toText ++ Text.ofInt status ++ ": ".toText ++
          refusalDetail reason body))
  | .unreachable reason => .error (serviceFailure ("unreachable: ".toText ++ reason))
  | .failed name message | .broken name message => .error (.foreign name message)
  | .answered body =>
      match payloadOf nesting body with
      | .error fault => .error (.fault fault)
      | .ok none => .error (serviceFailure "returned invalid JSON")
      | .ok (some payload) =>
          let content := contentOf payload
          if content.isEmpty then .error .emptyReply else .ok (some content.trim)

def modelsOfReply (nesting : Nat) : HttpReply → Except Failure (List Text)
  | .answered body =>
      match payloadOf nesting body with
      | .error fault => .error (.fault fault)
      | .ok payload => .ok ((payload.map modelsOf).getD usualModels)
  | .broken name message => .error (.foreign name message)
  | _ => .ok usualModels

namespace Endpoint

def defaultModel : Text := "gpt-4o-mini"

def defaultBaseUrl : Text := "https://api.openai.com/v1"

def missingKey : Failure :=
  .reported .configuration
    "Missing API key for the correction service. Set TEXTLINT_API_KEY or llm.api_key."

/-- The endpoint of some settings. What they leave out, or leave empty, is taken from the
environment. -/
def ofSettings (environment : Environment) (settings : EndpointSettings) : Endpoint :=
  let given (value : Option Text) (names : List Text) : Option Text :=
    (value.filter fun text => !text.isEmpty).or (environment.firstOf? names)
  { model := (given settings.model ["TEXTLINT_MODEL", "OPENAI_MODEL"]).getD defaultModel
    baseUrl :=
      Text.dropEndWhile (· == .scalar '/')
        ((given settings.baseUrl ["TEXTLINT_BASE_URL", "OPENAI_BASE_URL"]).getD defaultBaseUrl)
    temperature := settings.temperature
    maxTokens := settings.maxTokens
    apiKey := given settings.apiKey ["TEXTLINT_API_KEY", "OPENAI_API_KEY"]
    timeout := settings.timeout }

def headers (endpoint : Endpoint) : List (Text × Text) :=
  ("Content-Type".toText, "application/json".toText) ::
    match endpoint.apiKey with
    | some key => [("Authorization", "Bearer ".toText ++ key)]
    | none => []

/-- How many seconds a call may take; a minute where nothing is said. -/
def callTimeout (endpoint : Endpoint) : Number :=
  (endpoint.timeout.filter fun seconds => !seconds.isZero).getD (.real 60)

/-- A call below the endpoint's address. An address without a scheme is refused. -/
def call (endpoint : Endpoint) (method path : Text) (payload : Option Json) :
    Except Fault HttpCall :=
  let address := plainAddress (endpoint.baseUrl ++ path)
  if hasScheme address then
    .ok ⟨method, address, endpoint.headers, payload, endpoint.callTimeout⟩
  else .error (.unknownAddress address)

def payload (endpoint : Endpoint) (request : Request) : Json :=
  let message : Json :=
    .object [("role", .string "user"), ("content", .string request.prompt)]
  let temperature :=
    endpoint.temperature.toList.map fun value => ("temperature".toText, value.toJson)
  let maxTokens := request.maxTokens.toList.map fun value => ("max_tokens".toText, Json.int value)
  let format : List (Text × Json) :=
    if request.jsonMode then [("response_format", .object [("type", .string "json_object")])]
    else []
  let basics : List (Text × Json) :=
    [("model", .string endpoint.model), ("messages", .array [message])]
  .object (basics ++ temperature ++ maxTokens ++ format)

def payloadIntegers (endpoint : Endpoint) (request : Request) : List Int :=
  (endpoint.temperature.bind Number.whole?).toList ++ request.maxTokens.toList

/-- The call that carries a request. Its document is written before the address is looked at. -/
def requestCall (endpoint : Endpoint) (request : Request) : Except Fault HttpCall :=
  if (endpoint.payloadIntegers request).any isUnwritable then .error .integerUnwritable
  else endpoint.call "POST" "/chat/completions" (some (endpoint.payload request))

variable {σ : Type}

def service (endpoint : Endpoint) (network : Network σ) : Service σ where
  reply state request :=
    match endpoint.requestCall request with
    | .error fault => (.error (.fault fault), state)
    | .ok call =>
        let (answer, state) := network.send state call
        (replyOf endpoint.nesting answer, state)

def models (endpoint : Endpoint) (network : Network σ) (state : σ) :
    Except Failure (List Text) × σ :=
  match endpoint.call "GET" "/models" none with
  | .error fault => (.error (.fault fault), state)
  | .ok call =>
      let (answer, state) := network.send state call
      (modelsOfReply endpoint.nesting answer, state)

end Endpoint

end CodeProse
