import Vuo.Model.Primitives

/-!
# Addresses and the media policy

Parsing and resolving addresses is the URL library's work: a parsed address is
known here by the parts the client asks it for.
-/

namespace Vuo

/-- A parsed address. -/
structure Url where
  scheme : String
  hostStr : Option String
  portOrKnownDefault : Option ℕ
  href : String
  deriving DecidableEq

/-- The URL library. -/
class UrlLibrary where
  parse : String → Option Url
  join : Url → String → Option Url

/-- An address that is certainly `http` or `https`. -/
structure MediaUrl where
  url : Url
  web : url.scheme = "http" ∨ url.scheme = "https"
  deriving DecidableEq

namespace MediaUrl

def fromUrl (url : Url) : Option MediaUrl :=
  if h : url.scheme = "http" ∨ url.scheme = "https" then some ⟨url, h⟩ else none

def asStr (u : MediaUrl) : String :=
  u.url.href

def isSameOriginAs (u : MediaUrl) (other : Url) : Bool :=
  u.url.scheme = other.scheme && u.url.hostStr = other.hostStr &&
    u.url.portOrKnownDefault = other.portOrKnownDefault

variable [UrlLibrary]

def parse (raw : String) : Option MediaUrl :=
  (UrlLibrary.parse (String.ofList (trim raw.toList))).bind fromUrl

/-- A reference resolved against the address of its document. -/
def parseRelative (raw : String) (base : Url) : Option MediaUrl :=
  (UrlLibrary.join base (String.ofList (trim raw.toList))).bind fromUrl

end MediaUrl

/-! ## What happens to media -/

/-- What happens to media the server has not proxied. -/
inductive UnproxiedMedia
  | strict
  | ask
  | allow
  deriving DecidableEq

inductive MediaPolicy
  | proxyThroughInstance (instanceUrl : Url) (extraTrusted : List Url)
      (fallback : UnproxiedMedia)
  | direct

inductive MediaDecision
  | fetch (url : MediaUrl)
  | drop
  | needsConsent (url : MediaUrl)
  deriving DecidableEq

namespace MediaPolicy

/-- The policy's answer for one address; `consented` are the origins the reader
has agreed to load from. -/
def decideWithConsent (policy : MediaPolicy) (url : MediaUrl)
    (consented : List Url) : MediaDecision :=
  match policy with
  | direct => .fetch url
  | proxyThroughInstance instanceUrl extraTrusted fallback =>
      let trusted := url.isSameOriginAs instanceUrl ||
        extraTrusted.any fun o => url.isSameOriginAs o
      if trusted then .fetch url
      else if consented.any fun o => url.isSameOriginAs o then .fetch url
      else match fallback with
        | .strict => .drop
        | .ask => .needsConsent url
        | .allow => .fetch url

end MediaPolicy

end Vuo
