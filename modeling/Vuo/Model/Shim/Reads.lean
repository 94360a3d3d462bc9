import Vuo.Foundation.Base64
import Vuo.Model.Shim.Entries
import Vuo.Model.Shim.Signal

/-!
# Reads of the mirror

The mirror is borrowed for each access, and an access that comes while it is
held otherwise is refused. A read that is refused, and a query that returns an
error, count as having found nothing.
-/

namespace Vuo.Shim.Lists.Reads

open Foundation Queries Search

/-! ## The mirror -/

/-- How the mirror is held when an access comes. -/
inductive Borrow
  | free
  | shared
  | exclusive
  deriving DecidableEq

/-- A query the pages make. -/
inductive Query
  | listEntries
  | entryListRow (id : ℤ)
  | searchMatches
  | searchFeeds
  | searchHits
  | feedChrome
  | unreadCountsByFeed
  | feeds
  | entryIdsMatching
  | unreadIds
  deriving DecidableEq

structure Mirror where
  db : Db
  borrow : Borrow
  /-- The queries that return an error. -/
  fails : Query → Bool
  /-- Whether a transaction fails, whatever it does. -/
  txFails : Bool

namespace Mirror

variable {α : Type*}

/-- `self.db.try_borrow().ok().map(|db| f(&db))` -/
def read (m : Mirror) (f : Db → α) : Option α :=
  if m.borrow = .exclusive then none else some (f m.db)

/-- What a query finds, unless it returns an error. -/
def query (m : Mirror) (q : Query) (found : α) : Option α :=
  if m.fails q then none else some found

/-- `self.db.try_borrow_mut().ok().map(|mut db| f(&mut db))`, where `f` is a
transaction: the mirror it leaves, if it was committed. -/
def write (m : Mirror) (tx : Db → Option Db) : Option Db :=
  if m.borrow = .free && !m.txFails then tx m.db else none

end Mirror

/-! ## Names and icons -/

/-- A feed's name and icon, as a row of the entry list needs them. -/
structure FeedChrome where
  name : String
  /-- The icon as a `data:` URI, empty when the mirror has none. -/
  iconUri : String
  deriving DecidableEq

/-- An icon as a URI. An SVG is a document, and is left out. -/
def dataUri (mime : String) (bytes : List UInt8) : String :=
  if mime = "image/svg+xml" then ""
  else "data:" ++ mime ++ ";base64," ++ String.ofList (Base64.encode bytes)

/-- `SELECT f.id, f.title, i.format, i.bytes FROM feeds f LEFT JOIN icons i ON
i.id = f.icon_id`, one row; an icon of no bytes is none. -/
def chromeOf (db : Db) (f : Vuo.FeedRow) : FeedChrome where
  name := f.title
  iconUri :=
    (((f.iconId.bind db.icons.find?).filter fun icon => icon.bytes ≠ []).map fun icon =>
      dataUri icon.format icon.bytes).getD ""

/-- Names and icons by the id of the feed, in the order of the ids. -/
structure ChromeMap where
  feeds : List (ℤ × FeedChrome)
  sorted : (feeds.map Prod.fst).Pairwise (· < ·)
  deriving DecidableEq

namespace ChromeMap

def empty : ChromeMap where
  feeds := []
  sorted := .nil

def get (map : ChromeMap) (feedId : ℤ) : Option FeedChrome :=
  map.feeds.lookup feedId

/-- `ORDER BY f.id` -/
def byId (db : Db) : List Vuo.FeedRow :=
  db.feeds.rows.insertionSort fun f g => f.id ≤ g.id

/-- Every feed of the mirror. -/
def ofMirror (db : Db) : ChromeMap where
  feeds := (byId db).map fun f => (f.id, chromeOf db f)
  sorted := by
    have hnodup : ((byId db).map Vuo.FeedRow.id).Nodup :=
      ((List.perm_insertionSort _ _).map _).nodup_iff.2 db.feeds.nodup
    have hsorted : ((byId db).map Vuo.FeedRow.id).Pairwise (· ≤ ·) :=
      List.pairwise_map.2 (List.pairwise_insertionSort _ _)
    rw [List.map_map]
    exact (hsorted.and hnodup).imp fun h => lt_of_le_of_ne h.1 h.2

end ChromeMap

/-- A map that several models hold, told from an equal one by its address. -/
structure Shared where
  addr : ℕ
  map : ChromeMap

/-- The names and icons last built, and the generation they were built at. -/
structure CachedChrome where
  generation : ℕ
  feeds : Shared

/-- What the models share. -/
structure Context where
  signal : SyncSignal
  chrome : Option CachedChrome
  /-- The address of the next map. -/
  nextAddr : ℕ

namespace Context

/-- The names and icons, built again once the generation has moved. A rebuild
that finds the same feeds hands back the held map. -/
def feedChrome (mirror : Mirror) (ctx : Context) : Context × Shared :=
  let generation := ctx.signal.generation
  match ctx.chrome.filter fun cached => cached.generation = generation with
  | some cached => (ctx, cached.feeds)
  | none =>
      let built := (mirror.read fun db =>
        (mirror.query .feedChrome (ChromeMap.ofMirror db)).getD .empty).getD .empty
      match ctx.chrome.filter fun held => held.feeds.map = built with
      | some held => ({ ctx with chrome := some ⟨generation, held.feeds⟩ }, held.feeds)
      | none =>
          let feeds : Shared := ⟨ctx.nextAddr, built⟩
          ({ ctx with chrome := some ⟨generation, feeds⟩, nextAddr := ctx.nextAddr + 1 }, feeds)

end Context

/-! ## The entry list -/

/-- The entry list, with what it draws its rows with and what its polls go by. -/
structure EntryModel extends Lists.EntryModel where
  feedChrome : Shared
  seenGeneration : ℕ
  seenRunning : Bool
  syncError : String
  syncErrorIsAuth : Bool

section Entries

variable [UrlLibrary] [Unicode]

/-- The rows of a search, from what was found and the articles read. -/
def rowsFound (m : Lists.EntryModel) (hits : List SearchHit) : List EntryRow :=
  let query := SearchQuery.parse m.search.toList
  let articles (kind : MatchKind) :=
    (hits.filter fun hit => hit.kind = kind).map fun hit => EntryRow.found hit query
  let feeds := (m.searchFeeds.take m.groups.feed.shown).map fun feed =>
    EntryRow.feedFound feed query
  articles .title ++ feeds ++ articles .text

def searchRows (mirror : Mirror) (m : Lists.EntryModel) : List EntryRow :=
  let picked := m.groups.pick m.searchFound
  rowsFound m ((mirror.read fun db =>
    (mirror.query .searchHits (searchHits db m.search picked)).getD []).getD [])

/-- The held rows that the window does not list; one that cannot be read is left
out like one that is gone. -/
def keptRows (mirror : Mirror) (db : Db) (listed : List EntryListRow) (shown : List ℤ) :
    List EntryListRow :=
  (shown.filter fun id => id ∉ listed.map EntryListRow.id).filterMap fun id =>
    (mirror.query (.entryListRow id) (Store.entryListRow id db)).join

/-- A search again, from its first page unless the rows are kept. -/
def searchAgain (mirror : Mirror) (m : Lists.EntryModel) (keepShown : Bool) :
    Lists.EntryModel :=
  let (found, feeds) := (mirror.read fun db =>
    ((mirror.query .searchMatches (searchMatches db m.search)).getD [],
      (mirror.query .searchFeeds (Queries.searchFeeds db m.search)).getD [])).getD ([], [])
  { m with
    groups := if keepShown then m.groups else {}
    searchFound := found
    searchFeeds := feeds
    counts := SearchCounts.of found feeds }

/-- The rows of a scope, and whether they fill the window. -/
def readAgain (mirror : Mirror) (m : Lists.EntryModel) (scope : Scope) (keepShown : Bool) :
    Lists.EntryModel × List EntryRow × Bool :=
  let shown := if keepShown then m.rows.map EntryRow.id else []
  match scope.toFilter with
  | some filter =>
      let (entries, fullWindow) := (mirror.read fun db =>
        let listed := (mirror.query .listEntries (listEntries db filter m.window 0)).getD []
        (listed ++ keptRows mirror db listed shown,
          decide (m.window ≤ (listed.length : ℤ)))).getD ([], false)
      (m, (entries.map EntryRow.ofListRow).insertionSort EntryModel.rowBefore, fullWindow)
  | none =>
      let m := searchAgain mirror m keepShown
      (m, searchRows mirror m, false)

namespace EntryModel

/-- Read the rows again, those on screen kept or not; whether the model was reset. -/
def reloadKeeping (mirror : Mirror) (ctx : Context) (keepShown : Bool) (m : EntryModel) :
    EntryModel × Context × Bool :=
  match m.scope with
  | none => (m, ctx, false)
  | some scope =>
      let epoch := ctx.signal.refreshEpoch
      let keepShown := keepShown && epoch = m.seenRefreshEpoch
      let (read, fresh, fullWindow) :=
        readAgain mirror (m.toEntryModel.sawRefresh epoch) scope keepShown
      let (ctx, chrome) := ctx.feedChrome mirror
      let (shown, reset) := read.showRead (m.counts, m.groups) fresh fullWindow
        (if scope = .search then .search else .reset) (chrome.addr ≠ m.feedChrome.addr)
      ({ m with toEntryModel := shown, feedChrome := chrome }, ctx, reset)

def reload (mirror : Mirror) (ctx : Context) (m : EntryModel) : EntryModel × Context × Bool :=
  reloadKeeping mirror ctx true m

/-- Start the list over, at one page. -/
def reloadFresh (mirror : Mirror) (ctx : Context) (m : EntryModel) :
    EntryModel × Context × Bool :=
  reloadKeeping mirror ctx false { m with limit := pageSize }

/-- Show that a sync failed; anything else is put back. -/
def drainNotice (ctx : Context) (m : EntryModel) : EntryModel × Context :=
  let (notice, signal) := ctx.signal.takeNotice
  match notice with
  | some (.syncFailed auth message) =>
      ({ m with syncErrorIsAuth := auth, syncError := message }, { ctx with signal := signal })
  | some other => (m, { ctx with signal := signal.post other })
  | none => (m, { ctx with signal := signal })

/-- The rows again once the generation has moved; whether it has. -/
def pollSync (mirror : Mirror) (ctx : Context) (m : EntryModel) : EntryModel × Context × Bool :=
  let (m, ctx) := drainNotice ctx { m with seenRunning := ctx.signal.running }
  let generation := ctx.signal.generation
  if generation = m.seenGeneration then (m, ctx, false)
  else
    let (m, ctx, _) := reload mirror ctx { m with seenGeneration := generation }
    (m, ctx, true)

end EntryModel

/-! ## Everything read -/

/-- What is queued when everything in a scope is marked read: the mirror after, if
the write went through. -/
def markScope (mirror : Mirror) (scope : Scope) (now : ℤ) : Option Db :=
  match scope with
  | .feed feedId => mirror.write fun db =>
      mirror.query .unreadIds (Outbox.queueMarkFeedRead feedId now db).2
  | .category categoryId => mirror.write fun db =>
      mirror.query .unreadIds (Outbox.queueMarkCategoryRead categoryId now db).2
  | scope => scope.toFilter.bind fun filter =>
      let ids := (mirror.read fun db =>
        (mirror.query .entryIdsMatching (entryIdsMatching db filter)).getD []).getD []
      mirror.write fun db => some (Outbox.queueRead ids now db)

/-- What marking everything read comes to. -/
structure Marked where
  model : EntryModel
  ctx : Context
  db : Db
  /-- The list starts over, the change is announced and the worker is to send it. -/
  done : Bool

def markAllReadIn (mirror : Mirror) (ctx : Context) (scope : Scope) (now : ℤ)
    (m : EntryModel) : Marked :=
  match markScope mirror scope now with
  | none => { model := m, ctx := ctx, db := mirror.db, done := false }
  | some db =>
      let (m, ctx, _) := m.reloadFresh { mirror with db := db } ctx
      let signal := ctx.signal.bump
      { model := { m with seenGeneration := signal.generation }
        ctx := { ctx with signal := signal }
        db := db
        done := true }

end Entries

/-! ## The feed list -/

/-- A row of the feed list. -/
structure FeedRow where
  id : ℤ
  title : String
  unread : ℕ
  error : String
  categoryId : ℤ
  crawler : Bool
  disabled : Bool
  hideGlobally : Bool
  iconUri : String
  deriving DecidableEq

structure FeedModel where
  list : ListModel FeedRow
  seenGeneration : ℕ
  updateOk : Bool
  updateError : String
  updateSerial : ℤ

/-- `SELECT .. FROM feeds`, as names sort. -/
def feedsByName [Unicode] (db : Db) : List Vuo.FeedRow :=
  db.feeds.rows.insertionSort fun f g =>
    nameSortKey f.title < nameSortKey g.title ∨
      nameSortKey f.title = nameSortKey g.title ∧ f.id ≤ g.id

/-- A feed as its list shows it, with this many unread. -/
def feedRow (chrome : ChromeMap) (unread : ℕ) (f : Vuo.FeedRow) : FeedRow where
  id := f.id
  title := f.title
  unread := Lists.EntryModel.toI32Max unread
  error := f.parsingErrorMessage
  categoryId := f.categoryId.getD 0
  crawler := f.crawler
  disabled := f.disabled
  hideGlobally := f.hideGlobally
  iconUri := ((chrome.get f.id).map FeedChrome.iconUri).getD ""

namespace FeedModel

variable [Unicode]

def rows (m : FeedModel) : List FeedRow :=
  m.list.rows

/-- Read the feeds again; whether the model was reset. -/
def reload (mirror : Mirror) (ctx : Context) (m : FeedModel) : FeedModel × Context × Bool :=
  let (ctx, chrome) := ctx.feedChrome mirror
  let rows := (mirror.read fun db =>
    let counts := (mirror.query .unreadCountsByFeed (Store.unreadCountsByFeed db)).getD
      fun _ => 0
    ((mirror.query .feeds (feedsByName db)).getD []).map fun f =>
      feedRow chrome.map (counts f.id) f).getD []
  let (list, reset) := publishRowsAs FeedRow.id m.list rows .reset
  ({ m with list := list }, ctx, reset)

/-- `i32::wrapping_add(1)` -/
def wrappingSucc (n : ℤ) : ℤ :=
  if n = 2147483647 then -2147483648 else n + 1

/-- Show how the last save ended; anything else is put back. -/
def drainUpdateNotice (ctx : Context) (m : FeedModel) : FeedModel × Context :=
  let (notice, signal) := ctx.signal.takeNotice
  match notice with
  | some (.feedUpdated ok message) =>
      ({ m with
        updateOk := ok
        updateError := message
        updateSerial := wrappingSucc m.updateSerial }, { ctx with signal := signal })
  | some other => (m, { ctx with signal := signal.post other })
  | none => (m, { ctx with signal := signal })

/-- The feeds again once the generation has moved; whether it has. -/
def pollSync (mirror : Mirror) (ctx : Context) (m : FeedModel) : FeedModel × Context × Bool :=
  let (m, ctx) := drainUpdateNotice ctx m
  let generation := ctx.signal.generation
  if generation = m.seenGeneration then (m, ctx, false)
  else
    let (m, ctx, _) := reload mirror ctx { m with seenGeneration := generation }
    (m, ctx, true)

end FeedModel

/-! ## What reads the mirror -/

/-- What the models show, and what they share. -/
structure Screen where
  ctx : Context
  entries : EntryModel
  feeds : FeedModel

inductive Act
  | feedChrome
  | reload
  | reloadFresh
  | pollSync
  | reloadFeeds
  | pollFeeds
  | markAllReadIn (scope : Scope) (now : ℤ)

/-- What is shown after an act, the mirror, and whether the act was reported done. -/
structure Outcome where
  screen : Screen
  db : Db
  done : Bool

namespace Act

variable [UrlLibrary] [Unicode]

def run (mirror : Mirror) (s : Screen) : Act → Outcome
  | feedChrome =>
      let (ctx, _) := s.ctx.feedChrome mirror
      ⟨{ s with ctx := ctx }, mirror.db, false⟩
  | reload =>
      let (m, ctx, _) := s.entries.reload mirror s.ctx
      ⟨{ s with ctx := ctx, entries := m }, mirror.db, false⟩
  | reloadFresh =>
      let (m, ctx, _) := s.entries.reloadFresh mirror s.ctx
      ⟨{ s with ctx := ctx, entries := m }, mirror.db, false⟩
  | pollSync =>
      let (m, ctx, _) := s.entries.pollSync mirror s.ctx
      ⟨{ s with ctx := ctx, entries := m }, mirror.db, false⟩
  | reloadFeeds =>
      let (m, ctx, _) := s.feeds.reload mirror s.ctx
      ⟨{ s with ctx := ctx, feeds := m }, mirror.db, false⟩
  | pollFeeds =>
      let (m, ctx, _) := s.feeds.pollSync mirror s.ctx
      ⟨{ s with ctx := ctx, feeds := m }, mirror.db, false⟩
  | markAllReadIn scope now =>
      let marked := Reads.markAllReadIn mirror s.ctx scope now s.entries
      ⟨{ s with ctx := marked.ctx, entries := marked.model }, marked.db, marked.done⟩

end Act

end Vuo.Shim.Lists.Reads
