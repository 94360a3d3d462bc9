import Vuo.Foundation.Sql
import Vuo.Model.Listing
import Vuo.Model.Search

/-!
# The read paths, statement by statement

Each query has a statement of its own, and each statement says again what it
selects and in what order. `NULL` is `none`.
-/

namespace Vuo.Queries

open Foundation Foundation.Sql Foundation.Sql.Truth

variable (db : Db)

/-! ## Subqueries -/

/-- `SELECT id FROM categories WHERE hide_globally = 1` -/
def hiddenCategories : List (Option CategoryId) :=
  (db.categories.rows.filter fun c => (ofBool c.hideGlobally).holds).map fun c => some c.id

/-- `SELECT id FROM feeds WHERE hide_globally = 1 OR category_id IN (..)` -/
def hiddenFeeds : List (Option FeedId) :=
  (db.feeds.rows.filter fun f =>
    ((ofBool f.hideGlobally).or (isIn f.categoryId (hiddenCategories db))).holds).map fun f =>
      some f.id

/-- `SELECT id FROM feeds WHERE category_id = ?` -/
def feedsOfCategory (id : CategoryId) : List (Option FeedId) :=
  (db.feeds.rows.filter fun f => (eq f.categoryId (some id)).holds).map fun f => some f.id

/-! ## Entry lists -/

section ListEntries

variable [UrlLibrary]

/-- `SELECT .. FROM entries WHERE condition ORDER BY published_at DESC, id DESC
LIMIT limit OFFSET offset` -/
def page (condition : EntryRow → Truth) (limit offset : ℤ) : List EntryListRow :=
  (limitOffset limit offset
    ((db.entries.rows.filter fun e => (condition e).holds).insertionSort
      Store.newestFirst)).map Store.listRow

def listUnread (limit offset : ℤ) : List EntryListRow :=
  page db
    (fun e => (ofBool (e.status = .unread)).and (isIn (some e.feedId) (hiddenFeeds db)).not)
    limit offset

def listStarred (limit offset : ℤ) : List EntryListRow :=
  page db (fun e => ofBool e.starred) limit offset

def listAll (limit offset : ℤ) : List EntryListRow :=
  page db (fun e => (isIn (some e.feedId) (hiddenFeeds db)).not) limit offset

def listByFeed (id : FeedId) (limit offset : ℤ) : List EntryListRow :=
  page db (fun e => eq (some e.feedId) (some id)) limit offset

def listByCategory (id : CategoryId) (limit offset : ℤ) : List EntryListRow :=
  page db (fun e => isIn (some e.feedId) (feedsOfCategory db id)) limit offset

def listEntries (filter : EntryFilter) (limit offset : ℤ) : List EntryListRow :=
  match filter with
  | .unread => listUnread db limit offset
  | .starred => listStarred db limit offset
  | .all => listAll db limit offset
  | .feed id => listByFeed db id limit offset
  | .category id => listByCategory db id limit offset

end ListEntries

/-! ## Ids of a scope -/

/-- `SELECT id FROM entries WHERE condition`, in no order of its own. -/
def ids (condition : EntryRow → Truth) : List EntryId :=
  (db.entries.rows.filter fun e => (condition e).holds).map EntryRow.id

def idsUnread : List EntryId :=
  ids db fun e => (ofBool (e.status = .unread)).and (isIn (some e.feedId) (hiddenFeeds db)).not

def idsStarred : List EntryId :=
  ids db fun e => ofBool e.starred

def idsAll : List EntryId :=
  ids db fun e => (isIn (some e.feedId) (hiddenFeeds db)).not

def idsByFeed (id : FeedId) : List EntryId :=
  ids db fun e => eq (some e.feedId) (some id)

def idsByCategory (id : CategoryId) : List EntryId :=
  ids db fun e => isIn (some e.feedId) (feedsOfCategory db id)

def entryIdsMatching (filter : EntryFilter) : List EntryId :=
  match filter with
  | .unread => idsUnread db
  | .starred => idsStarred db
  | .all => idsAll db
  | .feed id => idsByFeed db id
  | .category id => idsByCategory db id

/-! ## Counts and arrivals -/

/-- `SELECT COUNT(*) ..` -/
def unreadCount : ℕ :=
  (db.entries.rows.filter fun e =>
    ((ofBool (e.status = .unread)).and
      (isIn (some e.feedId) (hiddenFeeds db)).not).holds).length

def arrivals : List EntryId :=
  ((db.entries.rows.filter fun e =>
    ((ofBool e.arrived).and ((ofBool (e.status = .unread)).and
      (isIn (some e.feedId) (hiddenFeeds db)).not)).holds).insertionSort
        Store.newestFirst).map EntryRow.id

/-! ## Search -/

section Search

open Search

variable [Unicode]

/-- An article found: where, when published, which. -/
structure Found where
  kind : MatchKind
  publishedAt : Option ℤ
  id : EntryId

structure SearchMatch where
  kind : MatchKind
  id : EntryId

/-- The derived comparison of the kinds. -/
def kindRank : MatchKind → ℕ
  | .title => 1
  | .feed => 2
  | .text => 3

/-- By group, in it the later published first, undated last, the higher id
first among equals: `(kind, Reverse(published), Reverse(id))`. -/
def foundBefore (a b : Found) : Prop :=
  kindRank a.kind < kindRank b.kind ∨
    a.kind = b.kind ∧ (Store.laterPublished a.publishedAt b.publishedAt = true ∨
      a.publishedAt = b.publishedAt ∧ b.id ≤ a.id)

instance : DecidableRel foundBefore := fun a b =>
  inferInstanceAs (Decidable (kindRank a.kind < kindRank b.kind ∨
    a.kind = b.kind ∧ (Store.laterPublished a.publishedAt b.publishedAt = true ∨
      a.publishedAt = b.publishedAt ∧ b.id ≤ a.id)))

/-- `SELECT e.id, e.published_at, vuo_search_kind(?1, e.title, e.content)
FROM entries e`, the articles that match. -/
def found (raw : List Char) : List Found :=
  db.entries.rows.filterMap fun e =>
    (MatchKind.fromSql (sqlMatch raw e.title.toList e.content.toList)).map fun kind =>
      { kind := kind, publishedAt := e.publishedAt, id := e.id }

def searchMatches (query : String) : List SearchMatch :=
  if SearchQuery.parse query.toList = none then []
  else
    ((found db query.toList).insertionSort foundBefore).map fun f =>
      { kind := f.kind, id := f.id }

end Search

end Vuo.Queries
