import Mathlib.Data.List.Sort
import Vuo.Model.Store

/-!
# Listing the mirror

The queries the pages show.
-/

namespace Vuo

open Foundation

/-- How the entries are listed. -/
inductive EntryFilter
  | unread
  | starred
  | all
  | feed (id : FeedId)
  | category (id : CategoryId)
  deriving DecidableEq

/-- What an entry list shows of an entry. -/
structure EntryListRow where
  id : EntryId
  feedId : FeedId
  status : EntryStatus
  starred : Bool
  title : String
  url : Option String
  author : String
  publishedAt : Option ℤ
  readingTime : ℤ

namespace Store

/-- Whether a feed, or the category it is in, is kept out of the general
lists. -/
def hidden (feedId : FeedId) (db : Db) : Bool :=
  db.feeds.rows.any fun f => f.id = feedId &&
    (f.hideGlobally ||
      db.categories.rows.any fun c => f.categoryId = some c.id && c.hideGlobally)

namespace EntryFilter

/-- The `WHERE` of a filter. -/
def selects (filter : EntryFilter) (db : Db) (e : EntryRow) : Bool :=
  match filter with
  | .unread => e.status = .unread && !hidden e.feedId db
  | .starred => e.starred
  | .all => !hidden e.feedId db
  | .feed id => e.feedId = id
  | .category id =>
      db.feeds.rows.any fun f => f.id = e.feedId && f.categoryId = some id

end EntryFilter

/-- A known time before an unknown one, the later one first. -/
def laterPublished : Option ℤ → Option ℤ → Bool
  | some s, some t => t < s
  | some _, none => true
  | none, _ => false

/-- `ORDER BY published_at DESC, id DESC`. -/
def newestFirst (e f : EntryRow) : Prop :=
  laterPublished e.publishedAt f.publishedAt = true ∨
    e.publishedAt = f.publishedAt ∧ f.id ≤ e.id

instance : DecidableRel newestFirst := fun e f =>
  inferInstanceAs (Decidable
    (laterPublished e.publishedAt f.publishedAt = true ∨
      e.publishedAt = f.publishedAt ∧ f.id ≤ e.id))

section Rows

variable [UrlLibrary]

def listRow (e : EntryRow) : EntryListRow where
  id := e.id
  feedId := e.feedId
  status := e.status
  starred := e.starred
  title := e.title
  url := (e.url.bind MediaUrl.parse).map MediaUrl.asStr
  author := e.author
  publishedAt := e.publishedAt
  readingTime := e.readingTime

/-- The entries a filter selects, newest first. -/
def listEntries (filter : EntryFilter) (limit offset : ℕ) (db : Db) : List EntryListRow :=
  ((((db.entries.rows.filter (EntryFilter.selects filter db)).insertionSort newestFirst).drop
    offset).take limit).map listRow

/-- One entry, whatever the list it is shown in selects. -/
def entryListRow (id : EntryId) (db : Db) : Option EntryListRow :=
  (db.entries.find? id).map listRow

end Rows

/-- The ids a filter selects. -/
def entryIdsMatching (filter : EntryFilter) (db : Db) : List EntryId :=
  ((db.entries.rows.filter (EntryFilter.selects filter db)).insertionSort newestFirst).map
    EntryRow.id

def unreadCountsByFeed (db : Db) (feedId : FeedId) : ℕ :=
  db.entries.rows.countP fun e => e.status = .unread && e.feedId = feedId

/-- The count of the unread list. -/
def unreadCount (db : Db) : ℕ :=
  db.entries.rows.countP fun e => e.status = .unread && !hidden e.feedId db

/-! ## Arrivals -/

/-- The unread entries that are news, newest first. -/
def arrivals (db : Db) : List EntryId :=
  ((db.entries.rows.filter fun e =>
    e.arrived && e.status = .unread && !hidden e.feedId db).insertionSort newestFirst).map
      EntryRow.id

def anyArrivals (db : Db) : Bool :=
  db.entries.rows.any EntryRow.arrived

end Store

end Vuo
