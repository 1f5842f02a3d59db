import CodeProse.Failure
import CodeProse.Json.Writer

/-!
# Routes

A web request asks for a path by a method, and may carry a body. Each path of the service takes
one method; the pages that describe the service can be looked at besides. A path that is known
but for the slashes at its end, or for one more, is answered by a redirection. A line feed
behind a path does not count.
-/

set_option autoImplicit false

namespace CodeProse

structure WebRequest where
  method : Text
  path : Text
  body : Text := []
deriving DecidableEq

/-- An answer over the web. Answers that only tell a status have no body here. -/
structure WebReply where
  status : Nat
  body : Option Json := none

inductive Route where
  | health
  | extract
  | correct
  | cacheStats
deriving DecidableEq

namespace Route

def all : List Route :=
  [health, extract, correct, cacheStats]

def path : Route → Text
  | health => "/health"
  | extract => "/extract"
  | correct => "/correct"
  | cacheStats => "/cache/stats"

def method : Route → Text
  | health | cacheStats => "GET"
  | extract | correct => "POST"

def ofPath? (path : Text) : Option Route :=
  all.find? fun route => route.path = path

end Route

/-- The paths of the pages that describe the service. -/
def pagePaths : List Text :=
  ["/openapi.json", "/docs", "/docs/oauth2-redirect", "/redoc"]

def pageMethods : List Text := ["GET", "HEAD"]

/-- What a path leads to: a route, or a page that describes the service. -/
inductive Place where
  | route (route : Route)
  | page
deriving DecidableEq

def Place.ofPath? (path : Text) : Option Place :=
  let line := path.dropFinalLineFeed
  if pagePaths.contains line then some page else (Route.ofPath? line).map route

/-- The path that stands for a path with a slash too many or too few at its end. -/
def otherSlashing (path : Text) : Text :=
  if path.getLast? = some (.scalar '/') then Text.dropEndWhile (· == .scalar '/') path
  else path ++ "/".toText

/-- Where a request leads: to a route, or to an answer that is only a status, which is all that
is told of a page. -/
def WebRequest.route (request : WebRequest) : Except Nat Route :=
  match Place.ofPath? request.path with
  | some (.route route) => if route.method = request.method then .ok route else .error 405
  | some .page => if pageMethods.contains request.method then .error 200 else .error 405
  | none => if (Place.ofPath? (otherSlashing request.path)).isSome then .error 307 else .error 404

namespace WebReply

def ofStatus (status : Nat) : WebReply :=
  { status }

/-- An answer with a value. One that has no form in UTF-8 cannot be sent. -/
def withBody (status : Nat) (value : Json) : WebReply :=
  if (value.write .unicode).toUtf8?.isSome then ⟨status, some value⟩ else ofStatus 500

def ofJson (value : Json) : WebReply :=
  withBody 200 value

def refused (status : Nat) (reason : Text) : WebReply :=
  withBody status (.object [("detail", .string reason)])

def unprocessable : WebReply :=
  ofStatus 422

/-- The answer that tells of a failure. The words of failures that are not the library's own
are kept back. -/
def ofFailure : Failure → WebReply
  | .reported .configuration message => refused 503 message
  | .reported _ message => refused 400 message
  | .foreign _ _ | .fault _ => ofStatus 500

end WebReply

end CodeProse
