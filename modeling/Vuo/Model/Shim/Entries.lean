import Vuo.Model.Results
import Vuo.Model.Shim.Lists

/-!
# The entry list

The rows of one scope, a window onto the mirror; or the groups of a search, a
few results of each at first.
-/

namespace Vuo.Shim.Lists

open Queries Search

/-! ## Rows -/

/-- A row as the page shows it. -/
structure EntryRow where
  /-- The id of the entry; for a feed found, the id of the feed negated. -/
  id : ℤ := 0
  feedId : ℤ := 0
  title : String := ""
  author : String := ""
  unread : Bool := false
  starred : Bool := false
  published : ℤ := 0
  readingTime : ℤ := 0
  url : String := ""
  matchKind : String := ""
  titleStyled : String := ""
  feedStyled : String := ""
  excerpt : String := ""
  unreadCount : ℕ := 0
  deriving DecidableEq

namespace EntryRow

/-- An unknown time counts as the beginning of 1970. -/
def ofListRow (e : EntryListRow) : EntryRow where
  id := e.id
  feedId := e.feedId
  title := e.title
  author := e.author
  unread := e.status ≠ .read
  starred := e.starred
  published := e.publishedAt.getD 0
  readingTime := e.readingTime
  url := e.url.getD ""

def kindName : MatchKind → String
  | .title => "title"
  | .feed => "feed"
  | .text => "text"

section Found

variable [Unicode]

def styled (query : Option SearchQuery) (text : String) : String :=
  (query.map fun q => String.ofList (q.highlight text.toList)).getD ""

/-- A row of a search: a list row, and why it was found. -/
def found (hit : SearchHit) (query : Option SearchQuery) : EntryRow :=
  { ofListRow hit.row with
    matchKind := kindName hit.kind
    titleStyled := styled query hit.row.title
    feedStyled := styled query hit.feedTitle
    excerpt := (hit.excerpt.map fun text => styled query (String.ofList text)).getD "" }

/-- A feed found. -/
def feedFound (feed : FeedMatch) (query : Option SearchQuery) : EntryRow where
  id := saturate (-feed.id)
  feedId := feed.id
  title := feed.title
  unread := true
  matchKind := "feed"
  titleStyled := styled query feed.title
  unreadCount := feed.unread

end Found

end EntryRow

/-! ## Groups -/

def pageSize : ℤ := 150

/-- How many results a group shows at first. -/
def searchFirstPage : ℕ := 5

/-- How many more a group shows each time, before it shows the rest. -/
def searchLoadSteps : List ℕ := [10, 20]

def usizeMax : ℕ := 18446744073709551615

/-- How many results of a group are shown, and how often more were asked for. -/
structure SearchGroup where
  shown : ℕ := searchFirstPage
  loads : ℕ := 0
  deriving DecidableEq

namespace SearchGroup

/-- How many the next request adds, none when it adds the rest. -/
def nextLoad (group : SearchGroup) : Option ℕ :=
  searchLoadSteps[group.loads]?

def loadMore (group : SearchGroup) : SearchGroup where
  shown := (group.nextLoad.map fun step => min (group.shown + step) usizeMax).getD usizeMax
  loads := min (group.loads + 1) 255

end SearchGroup

structure SearchGroups where
  title : SearchGroup := {}
  feed : SearchGroup := {}
  text : SearchGroup := {}
  deriving DecidableEq

namespace SearchGroups

def get (groups : SearchGroups) : MatchKind → SearchGroup
  | .title => groups.title
  | .feed => groups.feed
  | .text => groups.text

def set (groups : SearchGroups) (kind : MatchKind) (group : SearchGroup) : SearchGroups :=
  match kind with
  | .title => { groups with title := group }
  | .feed => { groups with feed := group }
  | .text => { groups with text := group }

/-- The first matches of each group, in the order found. -/
def pick (room : SearchGroups) : List SearchMatch → List SearchMatch
  | [] => []
  | m :: found =>
      let group := room.get m.kind
      (if 0 < group.shown then [m] else []) ++
        pick (room.set m.kind { group with shown := group.shown - 1 }) found

end SearchGroups

/-- The group a page names. -/
def matchKindFromQml (kind : String) : Option MatchKind :=
  if kind = "title" then some .title
  else if kind = "feed" then some .feed
  else if kind = "text" then some .text
  else none

/-! ## The model -/

/-- Which part of the mirror is shown. -/
inductive Scope
  | unread
  | starred
  | all
  | feed (id : ℤ)
  | category (id : ℤ)
  | search
  deriving DecidableEq

/-- The filter of a scope; a search has a query of its own. -/
def Scope.toFilter : Scope → Option EntryFilter
  | .unread => some .unread
  | .starred => some .starred
  | .all => some .all
  | .feed id => some (.feed id)
  | .category id => some (.category id)
  | .search => none

structure EntryModel where
  list : ListModel EntryRow
  hasMore : Bool
  searchFound : List SearchMatch
  searchFeeds : List FeedMatch
  /-- Counted once for each search. -/
  counts : SearchCounts
  groups : SearchGroups
  scope : Option Scope
  search : String
  /-- How many rows are asked for, zero before the first reload. -/
  limit : ℤ
  /-- The manual refresh the rows were read after. -/
  seenRefreshEpoch : ℕ

namespace EntryModel

def rows (m : EntryModel) : List EntryRow :=
  m.list.rows

def tell (m : EntryModel) (change : Change) : EntryModel :=
  { m with list := m.list.tell change }

/-- `i32::try_from(n).unwrap_or(i32::MAX)` -/
def toI32Max (n : ℕ) : ℕ :=
  (toI32 n).getD 2147483647

/-- The results of a group, as the page reads it. -/
def matchesIn (m : EntryModel) (kind : MatchKind) : ℕ :=
  toI32Max (m.counts.get kind)

/-- The results of a group that are shown, as the page reads it. -/
def shownIn (m : EntryModel) (kind : MatchKind) : ℕ :=
  toI32Max (min (m.groups.get kind).shown (m.counts.get kind))

/-- How many rows to ask the mirror for. -/
def window (m : EntryModel) : ℤ :=
  if m.limit < pageSize then pageSize else m.limit

section Reload

variable [UrlLibrary] [Unicode]

/-- The rows of a search: articles found by title, feeds, articles found by text. -/
def searchRows (m : EntryModel) (db : Db) : List EntryRow :=
  let hits := searchHits db m.search (m.groups.pick m.searchFound)
  let query := SearchQuery.parse m.search.toList
  let articles (kind : MatchKind) :=
    (hits.filter fun hit => hit.kind = kind).map fun hit => EntryRow.found hit query
  let feeds := (m.searchFeeds.take m.groups.feed.shown).map fun feed =>
    EntryRow.feedFound feed query
  articles .title ++ feeds ++ articles .text

def publish (m : EntryModel) (fresh : List EntryRow) (how : Publish) : EntryModel × Bool :=
  let published := publishRowsAs EntryRow.id m.list fresh how
  ({ m with list := published.1 }, published.2)

/-- One group allowed more. -/
def askMore (m : EntryModel) (kind : MatchKind) : EntryModel :=
  { m with groups := m.groups.set kind (m.groups.get kind).loadMore }

/-- Show more of one group, from the matches already found. -/
def loadMoreIn (m : EntryModel) (db : Db) (kind : String) : EntryModel :=
  match matchKindFromQml kind with
  | none => m
  | some kind =>
      if m.scope ≠ some .search then m
      else
        let m := m.askMore kind
        (m.publish (m.searchRows db) .search).1.tell .matchesChanged

/-- The held rows that the window does not list and the mirror still has. -/
def keptRows (db : Db) (listed : List EntryListRow) (shown : List ℤ) : List EntryListRow :=
  (shown.filter fun id => id ∉ listed.map EntryListRow.id).filterMap fun id =>
    Store.entryListRow id db

/-- `(Reverse(published), Reverse(id))` -/
def rowBefore (a b : EntryRow) : Prop :=
  b.published < a.published ∨ a.published = b.published ∧ b.id ≤ a.id

instance : DecidableRel rowBefore := fun a b =>
  inferInstanceAs (Decidable (b.published < a.published ∨
    a.published = b.published ∧ b.id ≤ a.id))

/-- The rows of a window and the kept ones, sorted together. -/
def windowRows (db : Db) (filter : EntryFilter) (window : ℤ) (shown : List ℤ) : List EntryRow :=
  let listed := listEntries db filter window 0
  ((listed ++ keptRows db listed shown).map EntryRow.ofListRow).insertionSort rowBefore

/-- A search again, from its first page unless the rows are kept. -/
def searchAgain (m : EntryModel) (db : Db) (keepShown : Bool) : EntryModel :=
  let m := { m with
    groups := if keepShown then m.groups else {}
    searchFound := searchMatches db m.search
    searchFeeds := Queries.searchFeeds db m.search }
  { m with counts := SearchCounts.of m.searchFound m.searchFeeds }

/-- The rows of a scope, and whether they fill the window. -/
def readAgain (m : EntryModel) (db : Db) (scope : Scope) (keepShown : Bool) :
    EntryModel × List EntryRow × Bool :=
  let shown := if keepShown then m.rows.map EntryRow.id else []
  match scope.toFilter with
  | some filter =>
      (m, windowRows db filter m.window shown,
        m.window ≤ ((listEntries db filter m.window 0).length : ℤ))
  | none =>
      let m := m.searchAgain db keepShown
      (m, m.searchRows db, false)

def tellMatches (m : EntryModel) (before : SearchCounts × SearchGroups) : EntryModel :=
  if before ≠ (m.counts, m.groups) then m.tell .matchesChanged else m

def setHasMore (m : EntryModel) (fullWindow : Bool) : EntryModel :=
  if fullWindow ≠ m.hasMore then tell { m with hasMore := fullWindow } .hasMoreChanged else m

/-- The rows were read after this manual refresh. -/
def sawRefresh (m : EntryModel) (epoch : ℕ) : EntryModel :=
  { m with seenRefreshEpoch := epoch }

/-- Rows just read, shown; whether the model was reset. -/
def showRead (m : EntryModel) (before : SearchCounts × SearchGroups) (fresh : List EntryRow)
    (fullWindow : Bool) (how : Publish) (chromeMoved : Bool) : EntryModel × Bool :=
  let (m, reset) := ((m.tellMatches before).setHasMore fullWindow).publish fresh how
  let m := if !reset && chromeMoved then { m with list := redrawAllRows m.list } else m
  (m, reset)

/-- Read the rows again, those on screen kept or not; whether the model was reset.
The mirror, the epoch of the last manual refresh and whether names or icons of
feeds have changed come from the context. -/
def reloadKeeping (m : EntryModel) (db : Db) (epoch : ℕ) (chromeMoved keepShown : Bool) :
    EntryModel × Bool :=
  match m.scope with
  | none => (m, false)
  | some scope =>
      let keepShown := keepShown && epoch = m.seenRefreshEpoch
      let (read, fresh, fullWindow) := (m.sawRefresh epoch).readAgain db scope keepShown
      read.showRead (m.counts, m.groups) fresh fullWindow
        (if scope = .search then .search else .reset) chromeMoved

end Reload

end EntryModel

end Vuo.Shim.Lists
