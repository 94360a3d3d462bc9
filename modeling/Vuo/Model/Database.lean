import Vuo.Foundation.Table
import Vuo.Model.Domain

/-!
# The mirror's tables

One keyed table per table of the schema, and the single row of sync
bookkeeping. Constraints a column carries are in its type.
-/

namespace Vuo

open Foundation

structure CategoryRow where
  id : CategoryId
  title : String
  hideGlobally : Bool
  lastSeenSync : ℤ

structure FeedRow where
  id : FeedId
  categoryId : Option CategoryId
  title : String
  siteUrl : Option String
  feedUrl : Option String
  iconId : Option IconId
  checkedAt : Option ℤ
  parsingErrorMessage : String
  parsingErrorCount : ℤ
  disabled : Bool
  hideGlobally : Bool
  crawler : Bool
  iconFailures : ℕ
  lastSeenSync : ℤ

structure EntryRow where
  id : EntryId
  feedId : FeedId
  status : EntryStatus
  starred : Bool
  title : String
  url : Option String
  commentsUrl : Option String
  author : String
  content : String
  publishedAt : Option ℤ
  createdAt : Option ℤ
  changedAt : Option ℤ
  readingTime : ℤ
  tags : List String
  lastSeenSync : ℤ
  contentScraped : Bool
  arrived : Bool

structure EnclosureRow where
  id : ℤ
  entryId : EntryId
  url : Option String
  mimeType : String
  size : ℤ

structure IconRow where
  id : IconId
  format : String
  bytes : List UInt8
  width : Option ℕ
  height : Option ℕ

/-- One row of the keyed desired-state map. -/
structure OutboxRow where
  entryId : EntryId
  field : String
  value : String
  queuedAt : ℤ
  attempts : ℕ
  lastError : Option String

def OutboxRow.key (r : OutboxRow) : EntryId × String :=
  (r.entryId, r.field)

structure SyncState where
  cursorChangedAfter : Option ℤ
  syncGeneration : ℤ
  lastFullReconcileAt : Option ℤ
  serverEra : Option String
  serverVersion : Option String
  serverVersionCheckedAt : Option ℤ
  deriving DecidableEq

/-- The database file. -/
structure Db where
  categories : Table CategoryRow.id
  feeds : Table FeedRow.id
  entries : Table EntryRow.id
  enclosures : Table EnclosureRow.id
  icons : Table IconRow.id
  outbox : Table OutboxRow.key
  syncState : SyncState

namespace Db

/-- The database the migrations leave behind. -/
def empty : Db where
  categories := Table.empty
  feeds := Table.empty
  entries := Table.empty
  enclosures := Table.empty
  icons := Table.empty
  outbox := Table.empty
  syncState :=
    { cursorChangedAfter := none
      syncGeneration := 0
      lastFullReconcileAt := none
      serverEra := none
      serverVersion := none
      serverVersionCheckedAt := none }

/-- `DELETE FROM entries WHERE p`, enclosures cascading. -/
def deleteEntriesWhere (p : EntryRow → Bool) (db : Db) : Db :=
  { db with
    entries := db.entries.remove p
    enclosures := db.enclosures.remove fun enc =>
      ((db.entries.find? enc.entryId).map p).getD false }

/-- `UPDATE entries SET f WHERE id = id`. -/
def updateEntry (id : EntryId) (f : EntryRow → EntryRow)
    (hf : ∀ e, (f e).id = e.id) (db : Db) : Db :=
  { db with entries := db.entries.update (fun e => e.id = id) f hf }

end Db

end Vuo
