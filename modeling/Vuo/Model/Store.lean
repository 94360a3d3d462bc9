import Vuo.Model.Outbox

/-!
# The mirror's statements

What the sync engine and the worker read from the mirror and write to it.
-/

namespace Vuo

open Foundation

/-- Whether an entry reaching the mirror for the first time is news. -/
inductive Arrival
  | announce
  | quiet
  deriving DecidableEq

namespace Store

def ts (t : Option DateTime) : Option ℤ :=
  t.map DateTime.timestamp

/-! ## Categories and feeds -/

def upsertCategory (c : Category) (generation : ℤ) (db : Db) : Db :=
  let row : CategoryRow :=
    { id := c.id
      title := c.title
      hideGlobally := c.hideGlobally
      lastSeenSync := generation }
  { db with categories := db.categories.put row }

/-- `INSERT INTO categories (id, title) VALUES (?1, '') ON CONFLICT DO NOTHING`. -/
def placeholderCategory (id : CategoryId) (db : Db) : Db :=
  if db.categories.contains id then db
  else
    { db with
      categories := db.categories.put
        { id := id, title := "", hideGlobally := false, lastSeenSync := 0 } }

def feedRow (f : Feed) (generation : ℤ) : FeedRow where
  id := f.id
  categoryId := f.categoryId
  title := f.title
  siteUrl := f.siteUrl.map MediaUrl.asStr
  feedUrl := f.feedUrl.map MediaUrl.asStr
  iconId := f.iconId
  checkedAt := ts f.checkedAt
  parsingErrorMessage := f.parsingErrorMessage
  parsingErrorCount := f.parsingErrorCount
  disabled := f.disabled
  hideGlobally := f.hideGlobally
  crawler := f.crawler
  iconFailures := 0
  lastSeenSync := generation

def upsertFeed (f : Feed) (generation : ℤ) (db : Db) : Db :=
  let db := match f.categoryId with
    | some category => placeholderCategory category db
    | none => db
  let failures := ((db.feeds.find? f.id).map FeedRow.iconFailures).getD 0
  { db with feeds := db.feeds.put { feedRow f generation with iconFailures := failures } }

/-- The feeds the mirror holds. -/
def feeds (db : Db) : List FeedRow :=
  db.feeds.rows

/-- Remove a feed, its entries and the intents queued against them. -/
def deleteFeed (id : FeedId) (db : Db) : Db :=
  let ofFeed (e : EntryRow) : Bool := e.feedId = id
  let db := { db with
    outbox := db.outbox.remove fun r =>
      ((db.entries.find? r.entryId).map ofFeed).getD false }
  let db := db.deleteEntriesWhere ofFeed
  { db with feeds := db.feeds.remove fun f => f.id = id }

/-! ## Entries -/

/-- The row an entry is inserted as. -/
def entryRow (e : Entry) (status : EntryStatus) (starred : Bool)
    (generation : ℤ) (arrived : Bool) : EntryRow where
  id := e.id
  feedId := e.feedId
  status := status
  starred := starred
  title := e.title
  url := e.url.map MediaUrl.asStr
  commentsUrl := e.commentsUrl.map MediaUrl.asStr
  author := e.author
  content := e.content
  publishedAt := ts e.publishedAt
  createdAt := ts e.createdAt
  changedAt := ts e.changedAt
  readingTime := e.readingTime
  tags := e.tags
  lastSeenSync := generation
  contentScraped := false
  arrived := arrived

/-- The columns an upsert leaves as they are: a scraped body, and whether the
entry is news. -/
def refreshed (new old : EntryRow) : EntryRow :=
  { new with
    id := old.id
    content := if old.contentScraped then old.content else new.content
    contentScraped := old.contentScraped
    arrived := old.arrived }

theorem refreshed_id (new old : EntryRow) : (refreshed new old).id = old.id :=
  rfl

def enclosureRow (enc : Enclosure) (entryId : EntryId) : EnclosureRow where
  id := enc.id
  entryId := entryId
  url := enc.url.map MediaUrl.asStr
  mimeType := enc.mimeType
  size := enc.size

/-- The read state an upsert writes: the pending one, if there is one. -/
def resolveStatus (e : Entry) (db : Db) : EntryStatus :=
  match Outbox.pendingFor e.id .status db with
  | some (.status s) => s
  | _ => e.status

/-- The star an upsert writes: the pending one, if there is one. -/
def resolveStarred (e : Entry) (db : Db) : Bool :=
  match Outbox.pendingFor e.id .starred db with
  | some (.starred b) => b
  | _ => e.starred

/-- Insert or update an entry, honouring pending intents. -/
def upsertEntry (e : Entry) (generation : ℤ) (arrival : Arrival) (db : Db) : Db :=
  let status := resolveStatus e db
  let starred := resolveStarred e db
  -- only an unread arrival is news
  let arrived := arrival = .announce && status = .unread
  let row := entryRow e status starred generation arrived
  { db with
    entries := db.entries.upsert row (refreshed row) (refreshed_id row)
    enclosures := e.enclosures.foldl
      (fun t enc => t.put (enclosureRow enc e.id))
      (db.enclosures.remove fun enc => enc.entryId = e.id) }

/-- Delete an entry the server no longer has, with its intents. -/
def deleteEntry (id : EntryId) (db : Db) : Db :=
  let db := { db with outbox := db.outbox.remove fun r => r.entryId = id }
  db.deleteEntriesWhere fun e => e.id = id

/-- Whether retention may forget an entry. -/
def prunable (cutoff : ℤ) (db : Db) (e : EntryRow) : Bool :=
  e.status = .read && !e.starred &&
    ((e.publishedAt.or e.createdAt).getD 0 < cutoff) &&
    !(db.outbox.rows.any fun r => r.entryId = e.id)

/-- Forget read, unstarred entries published before `cutoff`. -/
def pruneEntries (cutoff : ℤ) (db : Db) : ℕ × Db :=
  ((db.entries.rows.filter (prunable cutoff db)).length,
    db.deleteEntriesWhere (prunable cutoff db))

def localEntryIds (db : Db) : List EntryId :=
  db.entries.rows.map EntryRow.id

/-- Entry counts per feed, for the feeds that have any. -/
def entryCountsByFeed (db : Db) : List (FeedId × ℕ) :=
  ((db.entries.rows.map EntryRow.feedId).dedup).map fun feedId =>
    (feedId, db.entries.rows.countP fun e => e.feedId = feedId)

/-- Store a body the server scraped. -/
def storeScraped (id : EntryId) (content : String) (db : Db) : Db :=
  db.updateEntry id
    (fun e => { e with content := content, contentScraped := true }) (fun _ => rfl)

/-! ## Arrivals -/

def acknowledgeArrivals (ids : List EntryId) (db : Db) : Db :=
  ids.foldl
    (fun db id => db.updateEntry id (fun e => { e with arrived := false })
      (fun _ => rfl))
    db

def acknowledgeAllArrivals (db : Db) : Db :=
  { db with
    entries := db.entries.update (fun e => e.arrived)
      (fun e => { e with arrived := false }) (fun _ => rfl) }

/-! ## Icons -/

def upsertIcon (icon : Icon) (db : Db) : Db :=
  let row : IconRow :=
    { id := icon.id
      format := icon.format.mimeType
      bytes := icon.bytes
      width := icon.dimensions.map Prod.fst
      height := icon.dimensions.map Prod.snd }
  { db with icons := db.icons.put row }

def updateFeed (feedId : FeedId) (f : FeedRow → FeedRow)
    (hf : ∀ r, (f r).id = r.id) (db : Db) : Db :=
  { db with feeds := db.feeds.update (fun r => r.id = feedId) f hf }

def recordIconFailure (feedId : FeedId) (db : Db) : Db :=
  updateFeed feedId (fun f => { f with iconFailures := f.iconFailures + 1 })
    (fun _ => rfl) db

def clearIconFailures (feedId : FeedId) (db : Db) : Db :=
  updateFeed feedId (fun f => { f with iconFailures := 0 }) (fun _ => rfl) db

/-- Fewest failures first, then by feed. -/
def triedBefore (f g : FeedRow) : Prop :=
  f.iconFailures < g.iconFailures ∨ f.iconFailures = g.iconFailures ∧ f.id ≤ g.id

instance : DecidableRel triedBefore := fun f g =>
  inferInstanceAs (Decidable
    (f.iconFailures < g.iconFailures ∨ f.iconFailures = g.iconFailures ∧ f.id ≤ g.id))

/-- Feeds whose icon is not downloaded yet and still worth asking for. -/
def feedsMissingIcons (limit : ℤ) (db : Db) : List (FeedId × IconId) :=
  ((db.feeds.rows.insertionSort triedBefore).filterMap fun f =>
    match f.iconId with
    | some iconId =>
        if f.iconFailures < 3 && !db.icons.contains iconId then some (f.id, iconId)
        else none
    | none => none).take limit.toNat

/-! ## Sync bookkeeping -/

def setSyncState (state : SyncState) (db : Db) : Db :=
  { db with syncState := state }

end Store

end Vuo
