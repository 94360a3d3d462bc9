import Vuo.Model.Content.Transform

/-!
# The article view

What the view hands to the transform, and what agreeing to a picture does.
-/

namespace Vuo.Content

def mediaStrict : ℤ := 0

def mediaAsk : ℤ := 1

def mediaAllow : ℤ := 2

/-- What the setting for pictures means for media the server has not proxied. -/
def fallbackOf (mediaPolicy : ℤ) : UnproxiedMedia :=
  if mediaPolicy = mediaStrict then .strict
  else if mediaPolicy = mediaAllow then .allow
  else .ask

section Library

variable [UrlLibrary]

/-- The consented origins count as trusted. -/
def transformContext (articleUrl : String) (instanceUrl : Url) (consented : List Url)
    (mediaPolicy : ℤ) (limits : Limits) : TransformContext where
  baseUrl := UrlLibrary.parse articleUrl
  media := .proxyThroughInstance instanceUrl consented (fallbackOf mediaPolicy)
  limits := limits

/-! ## Consent -/

/-- The stored origins once one more is stored. -/
def grantMediaConsent (stored : List String) (origin : String) : List String :=
  stored.filter (· ≠ origin) ++ [origin]

/-- The origins the reader has agreed to; what no longer parses is skipped. -/
def mediaConsent (stored : List String) : List Url :=
  stored.filterMap UrlLibrary.parse

/-- The address a row shows a picture from, empty for other blocks. -/
def imageSrc (block : RenderBlock) : String :=
  match block.kind with
  | .image src _ _ _ _ _ => src.asStr
  | _ => ""

/-- The origin of the picture in a row. -/
def originAt (rows : List RenderBlock) (row : ℤ) : Option Url :=
  if row < 0 then none
  else
    rows[row.toNat]?.bind fun block =>
      (UrlLibrary.parse (imageSrc block)).bind fun url => UrlLibrary.join url "/"

/-- Agree to the origin of the picture in a row. -/
def allowImagesFrom (stored : List String) (rows : List RenderBlock) (row : ℤ) :
    List String :=
  match originAt rows row with
  | none => stored
  | some origin => grantMediaConsent stored origin.href

/-! ## The view over time -/

/-- An article as the mirror holds it. -/
structure Article where
  url : String
  preTruncated : Option Truncation
  tokens : List Token

/-- What the view works with: the settings, the origins on record, and the
article it shows. -/
structure ArticleView where
  instanceUrl : Url
  mediaPolicy : ℤ
  stored : List String
  rows : List RenderBlock

namespace ArticleView

/-- A first start, with no consent on record. -/
def start (instanceUrl : Url) (mediaPolicy : ℤ) : ArticleView where
  instanceUrl := instanceUrl
  mediaPolicy := mediaPolicy
  stored := []
  rows := []

/-- What is shown of an article. Consent that cannot be read counts as none. -/
def shown (m : ArticleView) (article : Article) (readable : Bool) : List RenderBlock :=
  (transform
    (transformContext article.url m.instanceUrl (if readable then mediaConsent m.stored else [])
      m.mediaPolicy Limits.default)
    article.preTruncated article.tokens).blocks

/-- Show an article, or nothing when it is gone. -/
def load (m : ArticleView) (entry : Option Article) (readable : Bool) : ArticleView :=
  { m with rows := entry.elim [] fun article => m.shown article readable }

/-- Agree to the origin of the picture in a row, and show the article again. A
consent that cannot be written is not on record. -/
def allowImages (m : ArticleView) (row : ℤ) (written : Bool) (entry : Option Article)
    (readable : Bool) : ArticleView :=
  match originAt m.rows row with
  | none => m
  | some _ =>
      load { m with stored := if written then allowImagesFrom m.stored m.rows row else m.stored }
        entry readable

/-- What happens to the view. A restart shows no article and forgets nothing
that is on record. -/
inductive Event
  | configure (instanceUrl : Url) (mediaPolicy : ℤ)
  | load (entry : Option Article) (readable : Bool)
  | allowImages (row : ℤ) (written : Bool) (entry : Option Article) (readable : Bool)
  | restart

def step (e : Event) (m : ArticleView) : Option ArticleView :=
  match e with
  | .configure instanceUrl mediaPolicy =>
      some { m with instanceUrl := instanceUrl, mediaPolicy := mediaPolicy }
  | .load entry readable => some (m.load entry readable)
  | .allowImages row written entry readable => some (m.allowImages row written entry readable)
  | .restart => some { m with rows := [] }

end ArticleView

end Library

end Vuo.Content
