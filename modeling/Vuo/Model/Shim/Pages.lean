import Vuo.Model.Listing
import Vuo.Model.Shim.Signal

/-!
# The pages' models

What the models behind the pages hold, and what they do with the mirror and
with the signal.
-/

namespace Vuo.Shim

open Foundation

/-! ## Entry lists -/

/-- Which slice of the mirror a model shows. -/
inductive Scope
  | unread
  | starred
  | all
  | feed (id : FeedId)
  | category (id : CategoryId)
  | search
  deriving DecidableEq

def Scope.toFilter : Scope → Option EntryFilter
  | unread => some .unread
  | starred => some .starred
  | all => some .all
  | feed id => some (.feed id)
  | category id => some (.category id)
  | search => none

/-- A row as a page draws it. -/
structure EntryRow where
  id : ℤ
  feedId : ℤ
  title : String
  author : String
  unread : Bool
  starred : Bool
  published : ℤ
  readingTime : ℤ
  url : String
  deriving DecidableEq

def EntryRow.ofListRow (e : EntryListRow) : EntryRow where
  id := e.id
  feedId := e.feedId
  title := e.title
  author := e.author
  unread := e.status ≠ .read
  starred := e.starred
  published := e.publishedAt.getD 0
  readingTime := e.readingTime
  url := e.url.getD ""

/-- Newest first. -/
def EntryRow.newer (r s : EntryRow) : Prop :=
  s.published < r.published ∨ s.published = r.published ∧ s.id ≤ r.id

instance : DecidableRel EntryRow.newer := fun r s =>
  inferInstanceAs (Decidable
    (s.published < r.published ∨ s.published = r.published ∧ s.id ≤ r.id))

/-- The search over the mirror: the rows a text is found in. -/
class Finder where
  searchRows : String → Db → List EntryRow

structure EntryModel where
  rows : List EntryRow
  scope : Option Scope
  search : String
  limit : ℕ
  hasMore : Bool
  seenGeneration : ℕ
  seenRefreshEpoch : ℕ
  seenRunning : Bool
  syncError : String
  syncErrorIsAuth : Bool
  deriving DecidableEq

def pageSize : ℕ := 150

namespace EntryModel

def default : EntryModel where
  rows := []
  scope := none
  search := ""
  limit := 0
  hasMore := false
  seenGeneration := 0
  seenRefreshEpoch := 0
  seenRunning := false
  syncError := ""
  syncErrorIsAuth := false

/-- How many rows to ask the mirror for. -/
def window (m : EntryModel) : ℕ :=
  if m.limit < pageSize then pageSize else m.limit

def idAt (row : ℕ) (m : EntryModel) : Option ℤ :=
  (m.rows[row]?).map EntryRow.id

section Reload

variable [UrlLibrary] [Finder]

/-- The rows of a scope that is a filter: the window it selects, and the rows
on screen that it no longer does. -/
def filterRows (filter : EntryFilter) (window : ℕ) (shown : List ℤ) (db : Db) :
    List EntryRow :=
  let listed := Store.listEntries filter window 0 db
  let kept := (shown.filter fun id => !listed.any (·.id = id)).filterMap fun id =>
    Store.entryListRow id db
  ((listed ++ kept).map EntryRow.ofListRow).insertionSort EntryRow.newer

/-- Read the rows again, keeping those on screen unless the reader asked for a
fresh list since. -/
def reloadKeeping (keepShown : Bool) (signal : SyncSignal) (db : Db) (m : EntryModel) :
    EntryModel :=
  match m.scope with
  | none => m
  | some scope =>
      let keepShown := keepShown && signal.refreshEpoch = m.seenRefreshEpoch
      let m := { m with seenRefreshEpoch := signal.refreshEpoch }
      let shown := if keepShown then m.rows.map EntryRow.id else []
      match scope.toFilter with
      | some filter =>
          { m with
            rows := filterRows filter m.window shown db
            hasMore := m.window ≤ (Store.listEntries filter m.window 0 db).length }
      | none => { m with rows := Finder.searchRows m.search db, hasMore := false }

/-- Read the rows again, the ones on screen staying. -/
def reload (signal : SyncSignal) (db : Db) (m : EntryModel) : EntryModel :=
  reloadKeeping true signal db m

/-- Start the list over. -/
def reloadFresh (signal : SyncSignal) (db : Db) (m : EntryModel) : EntryModel :=
  reloadKeeping false signal db { m with limit := pageSize }

end Reload

/-- Redraw one row after a change made here. -/
def markRow (id : ℤ) (unread starred : Option Bool) (m : EntryModel) : EntryModel :=
  { m with
    rows := m.rows.modify (m.rows.findIdx fun r => r.id = id) fun r =>
      { r with unread := unread.getD r.unread, starred := starred.getD r.starred } }

/-- Move past a bump of one's own. -/
def sawGeneration (signal : SyncSignal) (m : EntryModel) : EntryModel :=
  { m with seenGeneration := signal.generation }

/-- What a sync failure is shown as; anything else is put back. -/
def drainNotice (notice : Notice) (m : EntryModel) : EntryModel × Option Notice :=
  match notice with
  | .syncFailed auth message => ({ m with syncErrorIsAuth := auth, syncError := message }, none)
  | other => (m, some other)

end EntryModel

/-! ## The feed list -/

structure FeedRow where
  id : ℤ
  title : String
  unread : ℕ
  error : String
  categoryId : ℤ
  crawler : Bool
  disabled : Bool
  hideGlobally : Bool
  icon : Option IconRow

structure FeedModel where
  rows : List FeedRow
  seenGeneration : ℕ
  updateOk : Bool
  updateError : String
  updateSerial : ℤ

namespace FeedModel

def default : FeedModel where
  rows := []
  seenGeneration := 0
  updateOk := false
  updateError := ""
  updateSerial := 0

/-- A feed as the list draws it. -/
def feedRow (db : Db) (f : Vuo.FeedRow) : FeedRow where
  id := f.id
  title := f.title
  unread := Store.unreadCountsByFeed db f.id
  error := f.parsingErrorMessage
  categoryId := f.categoryId.getD 0
  crawler := f.crawler
  disabled := f.disabled
  hideGlobally := f.hideGlobally
  icon := f.iconId.bind db.icons.find?

def reload (db : Db) (m : FeedModel) : FeedModel :=
  { m with rows := (Store.feeds db).map (feedRow db) }

def idAt (row : ℕ) (m : FeedModel) : Option ℤ :=
  (m.rows[row]?).map FeedRow.id

/-- `i32::wrapping_add(1)`. -/
def wrappingSucc (n : ℤ) : ℤ :=
  if n = 2147483647 then -2147483648 else n + 1

/-- The answer to a save; anything else is put back. -/
def drainUpdateNotice (notice : Notice) (m : FeedModel) : FeedModel × Option Notice :=
  match notice with
  | .feedUpdated ok message =>
      ({ m with
        updateOk := ok
        updateError := message
        updateSerial := wrappingSucc m.updateSerial }, none)
  | other => (m, some other)

end FeedModel

/-! ## Settings and the open article -/

/-- The settings object, with the answers it passed on. -/
structure Settings where
  connectionTested : List (Bool × String)

namespace Settings

def default : Settings where
  connectionTested := []

def pollNoticeFrom (notice : Notice) (s : Settings) : Settings × Option Notice :=
  match notice with
  | .connectionTested ok message =>
      ({ s with connectionTested := s.connectionTested ++ [(ok, message)] }, none)
  | other => (s, some other)

end Settings

def fetchIdle : ℤ := 0

def fetchOk : ℤ := 1

structure ArticleModel where
  entryId : ℤ
  html : String
  isRead : Bool
  isStarred : Bool
  fetching : Bool
  fetchStatus : ℤ
  fetchMessage : String

namespace ArticleModel

def default : ArticleModel where
  entryId := 0
  html := ""
  isRead := false
  isStarred := false
  fetching := false
  fetchStatus := fetchIdle
  fetchMessage := ""

/-- Show an entry as the mirror has it. -/
def load (entryId : ℤ) (db : Db) (m : ArticleModel) : ArticleModel :=
  match db.entries.find? entryId with
  | some e =>
      { m with
        entryId := entryId
        html := e.content
        isRead := e.status = .read
        isStarred := e.starred }
  | none => default

/-- Ask the worker for the original page. -/
def fetchOriginal (m : ArticleModel) : ArticleModel :=
  if m.entryId = 0 then m
  else { m with fetching := true, fetchStatus := fetchIdle, fetchMessage := "" }

/-- Show how the scrape of the open entry ended. -/
def showOutcome (outcome : FetchOutcome) (db : Db) (m : ArticleModel) : ArticleModel :=
  let m := { m with
    fetching := false
    fetchStatus := outcome.status
    fetchMessage := outcome.message }
  if outcome.status = fetchOk then load m.entryId db m else m

end ArticleModel

end Vuo.Shim
