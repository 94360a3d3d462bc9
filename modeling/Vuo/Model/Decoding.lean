import Vuo.Foundation.Serde
import Vuo.Model.Client

/-!
# Reading the body of an answer

The typed decoding of what the server sends, a page of entries first: every
field with its type, its default and its place, the ones that are decoded and
not kept included.
-/

namespace Vuo.Wire

open Foundation
open Decoder (int bool text parsed nullable orDefault list record)
open Decoder.Field (of skip)

/-- The reading of a timestamp with its offset. -/
class Timestamps where
  parse : String → Option DateTime

def i64 : Decoder ℤ :=
  int i64Min i64Max

def i32 : Decoder ℤ :=
  int (-2147483648) 2147483647

/-! ## Timestamps -/

/-- Go's zero time, as seconds since the epoch. -/
def goZeroTimeSecs : ℤ := -62135596800

def isZeroTime (t : DateTime) : Bool :=
  t.timestamp = goZeroTimeSecs

section Times

variable [Timestamps]

/-- A timestamp that may be `null` or the zero time. -/
def deOptTime : Decoder (Option DateTime) := fun j =>
  (nullable (parsed Timestamps.parse) j).map fun t => t.filter fun t => !isZeroTime t

end Times

/-- A list that may be `null`. -/
def deNullDefault {α : Type} (d : Decoder (List α)) : Decoder (List α) :=
  orDefault [] d

/-! ## Records -/

namespace Category

def default : Category where
  id := 0
  title := ""
  hideGlobally := false

def fields : List (Decoder.Field Category) :=
  [of "id" i64 fun x c => { c with id := x },
    skip "user_id" i64,
    of "title" text fun x c => { c with title := x },
    of "hide_globally" bool fun x c => { c with hideGlobally := x },
    skip "feed_count" (nullable i64),
    skip "total_unread" (nullable i64)]

def decode : Decoder Category :=
  record fields default

end Category

namespace FeedIconRef

def default : FeedIconRef where
  iconId := 0

def fields : List (Decoder.Field FeedIconRef) :=
  [skip "feed_id" i64,
    of "icon_id" i64 fun x r => { r with iconId := x },
    skip "external_icon_id" text]

def decode : Decoder FeedIconRef :=
  record fields default

end FeedIconRef

namespace Feed

def default : Feed where
  id := 0
  feedUrl := ""
  siteUrl := ""
  title := ""
  checkedAt := none
  parsingErrorMessage := ""
  parsingErrorCount := 0
  crawler := false
  disabled := false
  hideGlobally := false
  category := none
  icon := none

variable [Timestamps]

def fields : List (Decoder.Field Feed) :=
  [of "id" i64 fun x f => { f with id := x },
    skip "user_id" i64,
    of "feed_url" text fun x f => { f with feedUrl := x },
    of "site_url" text fun x f => { f with siteUrl := x },
    of "title" text fun x f => { f with title := x },
    skip "description" text,
    skip "language" text,
    of "checked_at" deOptTime fun x f => { f with checkedAt := x },
    skip "next_check_at" deOptTime,
    skip "etag_header" text,
    skip "last_modified_header" text,
    of "parsing_error_message" text fun x f => { f with parsingErrorMessage := x },
    of "parsing_error_count" i32 fun x f => { f with parsingErrorCount := x },
    skip "scraper_rules" text,
    skip "rewrite_rules" text,
    of "crawler" bool fun x f => { f with crawler := x },
    skip "blocklist_rules" text,
    skip "keeplist_rules" text,
    skip "urlrewrite_rules" text,
    skip "user_agent" text,
    skip "cookie" text,
    skip "username" text,
    skip "password" text,
    of "disabled" bool fun x f => { f with disabled := x },
    skip "no_media_player" bool,
    skip "ignore_http_cache" bool,
    skip "allow_self_signed_certificates" bool,
    skip "fetch_via_proxy" bool,
    of "hide_globally" bool fun x f => { f with hideGlobally := x },
    of "category" (nullable Category.decode) fun x f => { f with category := x },
    of "icon" (nullable FeedIconRef.decode) fun x f => { f with icon := x }]

def decode : Decoder Feed :=
  record fields default

end Feed

namespace Enclosure

def default : Enclosure where
  id := 0
  url := ""
  mimeType := ""
  size := 0

def fields : List (Decoder.Field Enclosure) :=
  [of "id" i64 fun x e => { e with id := x },
    skip "user_id" i64,
    skip "entry_id" i64,
    of "url" text fun x e => { e with url := x },
    of "mime_type" text fun x e => { e with mimeType := x },
    of "size" i64 fun x e => { e with size := x },
    skip "media_progression" i64]

def decode : Decoder Enclosure :=
  record fields default

end Enclosure

namespace Entry

def default : Entry where
  id := 0
  feedId := 0
  status := ""
  title := ""
  url := ""
  commentsUrl := ""
  publishedAt := none
  createdAt := none
  changedAt := none
  content := ""
  author := ""
  starred := false
  readingTime := 0
  enclosures := []
  tags := []

variable [Timestamps]

def fields : List (Decoder.Field Entry) :=
  [of "id" i64 fun x e => { e with id := x },
    skip "user_id" i64,
    of "feed_id" i64 fun x e => { e with feedId := x },
    of "status" text fun x e => { e with status := x },
    skip "hash" text,
    of "title" text fun x e => { e with title := x },
    of "url" text fun x e => { e with url := x },
    of "comments_url" text fun x e => { e with commentsUrl := x },
    skip "language" text,
    of "published_at" deOptTime fun x e => { e with publishedAt := x },
    of "created_at" deOptTime fun x e => { e with createdAt := x },
    of "changed_at" deOptTime fun x e => { e with changedAt := x },
    of "content" text fun x e => { e with content := x },
    of "author" text fun x e => { e with author := x },
    skip "share_code" text,
    of "starred" bool fun x e => { e with starred := x },
    of "reading_time" i32 fun x e => { e with readingTime := x },
    of "enclosures" (deNullDefault (list Enclosure.decode)) fun x e => { e with enclosures := x },
    skip "feed" (nullable Feed.decode),
    of "tags" (deNullDefault (list text)) fun x e => { e with tags := x }]

def decode : Decoder Entry :=
  record fields default

end Entry

namespace EntriesResponse

def default : EntriesResponse where
  entries := []

variable [Timestamps]

def fields : List (Decoder.Field EntriesResponse) :=
  [skip "total" i64,
    of "entries" (deNullDefault (list Entry.decode)) fun x r => { r with entries := x }]

def decode : Decoder EntriesResponse :=
  record fields default

end EntriesResponse

namespace EntryIdsResponse

def default : EntryIdsResponse where
  total := 0
  entryIds := []

def fields : List (Decoder.Field EntryIdsResponse) :=
  [of "total" i64 fun x r => { r with total := x },
    of "entry_ids" (deNullDefault (list i64)) fun x r => { r with entryIds := x }]

def decode : Decoder EntryIdsResponse :=
  record fields default

end EntryIdsResponse

namespace Icon

def default : Icon where
  id := 0
  mimeType := ""
  data := ""

def fields : List (Decoder.Field Icon) :=
  [of "id" i64 fun x i => { i with id := x },
    of "mime_type" text fun x i => { i with mimeType := x },
    of "data" text fun x i => { i with data := x }]

def decode : Decoder Icon :=
  record fields default

end Icon

namespace FeedCounters

def default : FeedCounters where
  reads := []
  unreads := []

def fields : List (Decoder.Field FeedCounters) :=
  [of "reads" (deNullDefault (Decoder.map i64)) fun x c => { c with reads := x },
    of "unreads" (deNullDefault (Decoder.map i64)) fun x c => { c with unreads := x }]

def decode : Decoder FeedCounters :=
  record fields default

end FeedCounters

namespace VersionResponse

def default : VersionResponse where
  version := ""

def fields : List (Decoder.Field VersionResponse) :=
  [of "version" text fun x r => { r with version := x },
    skip "commit" text,
    skip "build_date" text,
    skip "go_version" text,
    skip "compiler" text,
    skip "arch" text,
    skip "os" text]

def decode : Decoder VersionResponse :=
  record fields default

end VersionResponse

/-- Whose account it is. -/
structure User where
  username : String

namespace User

def default : User where
  username := ""

def fields : List (Decoder.Field User) :=
  [skip "id" i64,
    of "username" text fun x u => { u with username := x },
    skip "is_admin" bool,
    skip "theme" text,
    skip "language" text,
    skip "timezone" text,
    skip "entry_sorting_field" text,
    skip "entry_sorting_direction" text]

def decode : Decoder User :=
  record fields default

end User

structure EntryContentResponse where
  content : String

namespace EntryContentResponse

def default : EntryContentResponse where
  content := ""

def fields : List (Decoder.Field EntryContentResponse) :=
  [of "content" text fun x r => { r with content := x },
    skip "reading_time" i32]

def decode : Decoder EntryContentResponse :=
  record fields default

end EntryContentResponse

/-- The body of an answer that reports an error. -/
structure ApiError where
  errorMessage : String

namespace ApiError

def default : ApiError where
  errorMessage := ""

def fields : List (Decoder.Field ApiError) :=
  [of "error_message" text fun x e => { e with errorMessage := x }]

def decode : Decoder ApiError :=
  record fields default

end ApiError

/-- The body of the answer to a subscription. -/
structure CreateFeedResponse where
  feedId : ℤ

namespace CreateFeedResponse

def default : CreateFeedResponse where
  feedId := 0

def fields : List (Decoder.Field CreateFeedResponse) :=
  [of "feed_id" i64 fun x r => { r with feedId := x }]

def decode : Decoder CreateFeedResponse :=
  record fields default

end CreateFeedResponse

end Vuo.Wire

namespace Vuo

open Foundation Wire

variable [Timestamps]

/-- What the body of a successful answer decodes to. That of a write is not
read. -/
def Request.decode : (request : Request) → Decoder request.Payload
  | .version => VersionResponse.decode
  | .me => fun j => (User.decode j).map User.username
  | .categories => Decoder.list Category.decode
  | .feeds => Decoder.list Feed.decode
  | .entries _ => EntriesResponse.decode
  | .entryIds _ _ => EntryIdsResponse.decode
  | .feedIcon _ => Icon.decode
  | .counters => FeedCounters.decode
  | .fetchOriginalContent _ => fun j =>
      (EntryContentResponse.decode j).map EntryContentResponse.content
  | .createFeed _ _ => fun j => (CreateFeedResponse.decode j).map CreateFeedResponse.feedId
  | .updateEntries _ | .updateFeed _ _ | .deleteFeed _ => fun _ => some ()

namespace BoundedResponse

/-- An answer with a body that is one JSON value. -/
structure Carries {request : Request} (response : BoundedResponse request.Payload)
    (j : Json) : Prop where
  body : response.body.toOption = request.decode j
  errorMessage : response.errorMessage = (ApiError.decode j).map ApiError.errorMessage

end BoundedResponse

end Vuo
