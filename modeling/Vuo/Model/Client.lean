import Vuo.Model.Effects

/-!
# The REST client

Requests, the operations a program is made of, and the calls that build
requests and read their answers. An answer is what the transport hands back
for one request: a failure, or a status with a body.
-/

namespace Vuo

open Foundation

/-! ## Queries -/

inductive EntryOrder
  | id
  | publishedAt
  | changedAt
  | createdAt
  | categoryTitle
  | categoryId
  | status
  | title
  | author
  deriving DecidableEq

def EntryOrder.asStr : EntryOrder → String
  | id => "id"
  | publishedAt => "published_at"
  | changedAt => "changed_at"
  | createdAt => "created_at"
  | categoryTitle => "category_title"
  | categoryId => "category_id"
  | status => "status"
  | title => "title"
  | author => "author"

inductive SortDirection
  | asc
  | desc
  deriving DecidableEq

def SortDirection.asStr : SortDirection → String
  | asc => "asc"
  | desc => "desc"

/-- A query against the entry listings. -/
structure EntriesQuery where
  limit : ℕ
  order : EntryOrder
  direction : SortDirection
  afterEntryId : Option EntryId
  changedAfter : Option ℤ
  starred : Option Bool
  feedId : Option ℤ
  categoryId : Option ℤ
  deriving DecidableEq

namespace EntriesQuery

def default : EntriesQuery where
  limit := 100
  order := .id
  direction := .asc
  afterEntryId := none
  changedAfter := none
  starred := none
  feedId := none
  categoryId := none

/-- Clamped into `1..=1000`. -/
def withLimit (limit : ℕ) (q : EntriesQuery) : EntriesQuery :=
  { q with limit := max 1 (min limit 1000) }

/-- The query shape of the sync engine: a keyset scan by id. -/
def keyset (limit : ℕ) : EntriesQuery :=
  { default with order := .id, direction := .asc }.withLimit limit

def setAfterEntryId (id : Option EntryId) (q : EntriesQuery) : EntriesQuery :=
  { q with afterEntryId := id }

/-- Only a positive time is sent. -/
def setChangedAfter (secs : Option ℤ) (q : EntriesQuery) : EntriesQuery :=
  { q with changedAfter := secs.filter fun s => 0 < s }

/-- The parameters a query adds to an address. -/
def apply (q : EntriesQuery) : List (String × String) :=
  [("limit", q.limit.repr), ("order", q.order.asStr),
    ("direction", q.direction.asStr)] ++
    (q.afterEntryId.map fun id => ("after_entry_id", id.repr)).toList ++
    (q.changedAfter.map fun secs => ("changed_after", secs.repr)).toList ++
    (q.starred.map fun b => ("starred", if b then "true" else "false")).toList ++
    (q.feedId.map fun id => ("feed_id", id.repr)).toList ++
    (q.categoryId.map fun id => ("category_id", id.repr)).toList

theorem limit_withLimit (limit : ℕ) (q : EntriesQuery) :
    1 ≤ (q.withLimit limit).limit ∧ (q.withLimit limit).limit ≤ 1000 := by
  simp only [withLimit]
  omega

end EntriesQuery

/-! ## Requests and answers -/

inductive Request
  | version
  | me
  | categories
  | feeds
  | entries (query : EntriesQuery)
  | entryIds (query : EntriesQuery) (offset : ℕ)
  | feedIcon (feedId : FeedId)
  | counters
  | fetchOriginalContent (id : EntryId)
  | updateEntries (body : Wire.EntriesUpdateRequest)
  | createFeed (feedUrl : String) (categoryId : Option CategoryId)
  | updateFeed (feedId : FeedId) (update : FeedPatch)
  | deleteFeed (feedId : FeedId)
  deriving DecidableEq

namespace Request

/-- What the body of a successful answer is read as. -/
def Payload : Request → Type
  | version => Wire.VersionResponse
  | me => String
  | categories => List Wire.Category
  | feeds => List Wire.Feed
  | entries _ => Wire.EntriesResponse
  | entryIds _ _ => Wire.EntryIdsResponse
  | feedIcon _ => Wire.Icon
  | counters => Wire.FeedCounters
  | fetchOriginalContent _ => String
  | updateEntries _ => Unit
  | createFeed _ _ => ℤ
  | updateFeed _ _ => Unit
  | deleteFeed _ => Unit

def method : Request → String
  | updateEntries _ | updateFeed _ _ => "PUT"
  | createFeed _ _ => "POST"
  | deleteFeed _ => "DELETE"
  | _ => "GET"

def path : Request → String
  | version => "/v1/version"
  | me => "/v1/me"
  | categories => "/v1/categories"
  | feeds | createFeed _ _ => "/v1/feeds"
  | entries _ | updateEntries _ => "/v1/entries"
  | entryIds _ _ => "/v1/entries/ids"
  | feedIcon feedId => "/v1/feeds/" ++ feedId.repr ++ "/icon"
  | counters => "/v1/feeds/counters"
  | fetchOriginalContent id => "/v1/entries/" ++ id.repr ++ "/fetch-content"
  | updateFeed feedId _ | deleteFeed feedId => "/v1/feeds/" ++ feedId.repr

def parameters : Request → List (String × String)
  | entries query => query.apply
  | entryIds query offset => query.apply ++ [("offset", offset.repr)]
  | _ => []

end Request

/-- An answer whose status and body were read. The body is known by what it
decodes to, or by where decoding stops, and by the message it carries when it
reports an error. -/
structure BoundedResponse (α : Type) where
  status : ℕ
  body : Except (ℕ × ℕ) α
  errorMessage : Option String
  serverDate : Option DateTime

/-- What the transport hands back for a request. -/
abbrev Answer (request : Request) := Except Error (BoundedResponse request.Payload)

/-- A server and the credentials for it. -/
structure Transport where
  origin : Url
  token : String
  deriving DecidableEq

/-- The failures a transport ends a request with instead of an answer: none
came, or one of the statuses that are neither success nor redirect. -/
def Transport.Fails : Error → Prop
  | .transport .. => True
  | .http status _ _ => 304 ≤ status ∧ status ≤ 306
  | _ => False

/-! ## Operations -/

inductive Op
  | query (q : Query)
  | transact (body : Transaction)
  | send (transport : Transport) (request : Request)
  | now
  | knownVersion (cell : ℕ)
  | rememberVersion (cell : ℕ) (version : ServerVersion)

namespace Op

/-- A database step may fail, and then leaves nothing behind. -/
def Ans : Op → Type
  | query q => Except Error q.Answer
  | transact _ => Except Error ℕ
  | send _ request => Answer request
  | now => DateTime
  | knownVersion _ => Option ServerVersion
  | rememberVersion _ _ => Unit

end Op

/-- A program of the client that returns or fails. -/
abbrev Action := ExceptT Error (Program Op Op.Ans)

namespace Action

/-- One operation, for its answer. -/
def call (op : Op) : Program Op Op.Ans op.Ans :=
  Program.perform op

def query (q : Query) : Action q.Answer :=
  call (.query q)

/-- `Database::with_tx`. -/
def withTx (body : Transaction) : Action ℕ :=
  call (.transact body)

def send (transport : Transport) (request : Request) :
    Action (BoundedResponse request.Payload) :=
  call (.send transport request)

/-- The local clock. -/
def now : Action DateTime :=
  (call .now).lift

def knownVersion (cell : ℕ) : Action (Option ServerVersion) :=
  (call (.knownVersion cell)).lift

def rememberVersion (cell : ℕ) (version : ServerVersion) : Action Unit :=
  (call (.rememberVersion cell version)).lift

/-- Run for the outcome, which the caller matches on. -/
def attempt {α : Type} (p : Action α) : Action (Except Error α) :=
  Program.attempt p

/-- A result as the program that ends in it. -/
def ofResult {α : Type} (r : Except Error α) : Action α :=
  Program.done r

end Action

/-! ## The client -/

/-- Where an address library says a request went, credentials removed. -/
class Endpoints where
  endpoint : Transport → Request → String

/-- A client of one server. Its clones share the version it knows, kept in
`cell`. -/
structure MinifluxClient where
  transport : Transport
  cell : ℕ

inductive EntryMutation
  | status (s : EntryStatus)
  | starred (b : Bool)

namespace MinifluxClient

open Vuo.Action

def checkStatus {α : Type} (response : BoundedResponse α) (endpoint : String) :
    Except Error Unit :=
  if 200 ≤ response.status ∧ response.status < 300 then .ok ()
  else
    .error (.http response.status endpoint
      (response.errorMessage.filter fun m => m ≠ ""))

def decode {α : Type} (response : BoundedResponse α) (endpoint : String) :
    Except Error α := do
  checkStatus response endpoint
  match response.body with
  | .ok a => .ok a
  | .error (line, column) =>
      .error (.protocol ("could not decode the response at line " ++ line.repr ++
        " column " ++ column.repr))

/-- The body of `PUT /v1/entries`: one field set, the other left out. -/
def updateRequest (ids : List EntryId) (mutation : EntryMutation) :
    Wire.EntriesUpdateRequest where
  entryIds := ids
  status := match mutation with
    | .status s => some s.asApiStr
    | .starred _ => none
  starred := match mutation with
    | .status _ => none
    | .starred b => some b

/-- The refusal of a server too old for absolute entry-state writes. -/
def floorError (version : ServerVersion) : Error :=
  .config ("Miniflux " ++ version.raw ++
    " predates absolute entry-state writes (Vuo needs 2.3.2+); " ++
    "actions stay queued until the server is upgraded")

def emptyError : Error :=
  .config "refusing to send an empty entry id list"

variable [Endpoints]

def getJson (client : MinifluxClient) (request : Request) :
    Action request.Payload := do
  let response ← send client.transport request
  ofResult (decode response (Endpoints.endpoint client.transport request))

/-- Ask for the server's version and remember the answer. -/
def version (client : MinifluxClient) : Action ServerVersion := do
  let w : Wire.VersionResponse ← client.getJson .version
  let version := (ServerVersion.parse w.version).getD .default
  rememberVersion client.cell version
  return version

/-- The version entry-state writes are checked against: the one known, or else
the one the server names now. -/
def writeCapableVersion (client : MinifluxClient) : Action ServerVersion := do
  match ← knownVersion client.cell with
  | some v => return v
  | none => client.version

def refuseEntryWritesBeforeFloor (client : MinifluxClient) : Action Unit := do
  let version ← client.writeCapableVersion
  if version.supportsEntryStateWrites then return ()
  else throw (floorError version)

/-- `PUT /v1/entries`: the one idempotent entry-state write. -/
def updateEntries (client : MinifluxClient) (ids : List EntryId)
    (mutation : EntryMutation) : Action Unit := do
  if ids = [] then throw emptyError
  else
    client.refuseEntryWritesBeforeFloor
    let request := Request.updateEntries (updateRequest ids mutation)
    let response ← send client.transport request
    ofResult (checkStatus response (Endpoints.endpoint client.transport request))

/-- `GET /v1/entries`, with the time the answer was dated. -/
def entries (client : MinifluxClient) (query : EntriesQuery) :
    Action (Wire.EntriesResponse × Option DateTime) := do
  let request := Request.entries query
  let response ← send client.transport request
  let body : Wire.EntriesResponse ←
    ofResult (decode response (Endpoints.endpoint client.transport request))
  return (body, response.serverDate)

def categories (client : MinifluxClient) : Action (List Wire.Category) :=
  client.getJson .categories

def feeds (client : MinifluxClient) : Action (List Wire.Feed) :=
  client.getJson .feeds

def entryIds (client : MinifluxClient) (query : EntriesQuery) (offset : ℕ) :
    Action Wire.EntryIdsResponse :=
  client.getJson (.entryIds query offset)

def feedIcon (client : MinifluxClient) (feedId : FeedId) : Action Wire.Icon :=
  client.getJson (.feedIcon feedId)

def counters (client : MinifluxClient) : Action Wire.FeedCounters :=
  client.getJson .counters

end MinifluxClient

end Vuo
