import Vuo.Model.Client

/-!
# The hardened HTTP layer

One call of the transport as the hops it makes: redirects are followed by hand,
each target checked before anything is sent there.
-/

namespace Vuo.Http

open Foundation

/-- One request on the wire. -/
structure HopRequest where
  method : String
  url : Url
  token : Option String
  body : Option (List UInt8)
  deriving DecidableEq

/-- What a hop is answered with. The body is what reading it yields, chunk by
chunk. -/
structure HopResponse where
  status : ℕ
  location : Option String
  serverDate : Option DateTime
  contentLength : Option ℕ
  chunks : List (Except Error (List UInt8))

/-- A response already read, its body bounded. -/
structure Body where
  status : ℕ
  body : List UInt8
  serverDate : Option DateTime

/-- The clock since the call began, and the wire. -/
inductive HopOp
  | elapsed
  | request (r : HopRequest)

def HopOp.Ans : HopOp → Type
  | elapsed => ℕ
  | request _ => Except Error HopResponse

abbrev Call := ExceptT Error (Program HopOp HopOp.Ans)

/-- What the address library makes of an address in a message. -/
class UrlMessages where
  safe : Url → String
  joinError : Url → String → String

/-- The parts of an address a client puts together. -/
class UrlParts where
  path : Url → String
  setPath : Url → String → Url
  clearQuery : Url → Url
  appendPair : Url → String × String → Url

/-- An account's transport with its limits. -/
structure Transport extends Vuo.Transport where
  configMaxBytes : ℕ
  maxRedirects : ℕ
  requestTimeout : ℕ

namespace Transport

/-- Whether an address is of the configured instance's origin. -/
def isConfiguredOrigin (t : Transport) (url : Url) : Bool :=
  url.scheme = t.origin.scheme && url.hostStr = t.origin.hostStr &&
    url.portOrKnownDefault = t.origin.portOrKnownDefault

/-- `StatusCode::is_redirection`. -/
def isRedirection (status : ℕ) : Bool :=
  300 ≤ status && status < 400

variable [UrlMessages]

def refused (url : Url) (detail : String) : Error :=
  .transport (UrlMessages.safe url) .redirectRefused detail

/-- Read a body, given up once it is over the cap. -/
def readBounded (t : Transport) (url : Url) :
    List UInt8 → List (Except Error (List UInt8)) → Except Error (List UInt8)
  | out, [] => .ok out
  | _, .error e :: _ => .error e
  | out, .ok chunk :: chunks =>
      if t.configMaxBytes < out.length + chunk.length then
        .error (.transport (UrlMessages.safe url) .bodyTooLarge
          ("exceeded " ++ t.configMaxBytes.repr ++ " bytes"))
      else readBounded t url (out ++ chunk) chunks

/-- A response that is not a redirect. -/
def finish (t : Transport) (url : Url) (response : HopResponse) : Except Error Body := do
  if (response.contentLength.filter fun n => t.configMaxBytes < n).isSome then
    throw (.transport (UrlMessages.safe url) .bodyTooLarge
      ("declared " ++ (response.contentLength.getD 0).repr ++ " bytes"))
  let body ← readBounded t url [] response.chunks
  return { status := response.status, body := body, serverDate := response.serverDate }

variable [UrlLibrary]

/-- Where a redirect leads, unless it is refused. -/
def redirectTarget (t : Transport) (hops : ℕ) (current : Url) (response : HopResponse) :
    Except Error Url := do
  if t.maxRedirects ≤ hops then
    throw (refused current ("more than " ++ t.maxRedirects.repr ++ " redirects"))
  match response.location with
  | none => throw (refused current "redirect without a Location header")
  | some location =>
      match UrlLibrary.join current location with
      | none =>
          throw (refused current ("redirect Location is not a valid URL: " ++
            UrlMessages.joinError current location))
      | some next =>
          if current.scheme = "https" ∧ next.scheme ≠ "https" then
            throw (refused current "refused a redirect from https to plaintext")
          else if t.isConfiguredOrigin next then return next
          else throw (refused current "refused a redirect away from the configured server")

/-- The request of a hop. The token goes to the configured origin only. -/
def hopRequest (t : Transport) (method : String) (body : Option (List UInt8)) (url : Url) :
    HopRequest where
  method := method
  url := url
  token := if t.isConfiguredOrigin url then some t.token else none
  body := body

def elapsed : Call ℕ :=
  (Program.perform HopOp.elapsed : Program HopOp HopOp.Ans ℕ).lift

def request (r : HopRequest) : Call HopResponse :=
  (Program.perform (HopOp.request r) : Program HopOp HopOp.Ans (Except Error HopResponse))

theorem hops_lt_of_redirectTarget {t : Transport} {hops : ℕ} {current next : Url}
    {response : HopResponse} (h : t.redirectTarget hops current response = .ok next) :
    hops < t.maxRedirects := by
  by_contra hhops
  simp [redirectTarget, Nat.not_lt.1 hhops, throw, throwThe, MonadExceptOf.throw, bind,
    Except.bind] at h

/-- The hops of a call from here on. -/
def sendFrom (t : Transport) (method : String) (body : Option (List UInt8)) (hops : ℕ)
    (current : Url) : Call Body := do
  let elapsed ← elapsed
  if t.requestTimeout ≤ elapsed then
    throw (.transport (UrlMessages.safe current) .timeout
      "the request deadline elapsed while following redirects")
  let response ← request (hopRequest t method body current)
  if 304 ≤ response.status ∧ response.status ≤ 306 then
    throw (.http response.status (UrlMessages.safe current)
      (some "unexpected conditional or proxy response"))
  if isRedirection response.status then
    match h : t.redirectTarget hops current response with
    | .error e => throw e
    | .ok next => sendFrom t method body (hops + 1) next
  else
    (Program.done (finish t current response) : Program HopOp HopOp.Ans (Except Error Body))
termination_by t.maxRedirects - hops
decreasing_by
  have := hops_lt_of_redirectTarget h
  omega

/-- A request, its redirects followed under the policy. -/
def send (t : Transport) (method : String) (url : Url) (body : Option (List UInt8)) :
    Call Body :=
  sendFrom t method body 0 url

end Transport

section Url

variable [UrlParts]

/-- `str::trim_end_matches('/')`. -/
def trimSlashesEnd (s : String) : String :=
  String.ofList (s.toList.reverse.dropWhile (· = '/')).reverse

/-- `str::trim_start_matches('/')`. -/
def trimSlashesStart (s : String) : String :=
  String.ofList (s.toList.dropWhile (· = '/'))

/-- The address of a path under the configured one. -/
def url (t : Transport) (path : String) : Url :=
  let basePath := trimSlashesEnd (UrlParts.path t.origin)
  UrlParts.clearQuery (UrlParts.setPath t.origin (basePath ++ "/" ++ trimSlashesStart path))

/-- ... with the parameters of a request. -/
def urlWith (t : Transport) (path : String) (parameters : List (String × String)) : Url :=
  parameters.foldl UrlParts.appendPair (url t path)

end Url

end Vuo.Http
