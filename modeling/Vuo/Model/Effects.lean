import Vuo.Foundation.Program
import Vuo.Model.Error
import Vuo.Model.Store
import Vuo.Model.Wire

/-!
# What the client does to the world

Its transactions, its reads, its requests and its looks at the clock, as the
operations of an interface. Everything above this module is a program over
them.
-/

namespace Vuo

open Foundation

/-! ## Transactions -/

/-- The settings of a feed the reader may change; `none` leaves one alone. -/
structure FeedPatch where
  title : Option String
  categoryId : Option CategoryId
  crawler : Option Bool
  disabled : Option Bool
  hideGlobally : Option Bool
  deriving DecidableEq

namespace Store

/-- Write an accepted feed update into the mirror. -/
def applyFeedPatch (feedId : FeedId) (update : FeedPatch) (db : Db) : Db :=
  let db := match update.title with
    | some title => updateFeed feedId (fun f => { f with title := title }) (fun _ => rfl) db
    | none => db
  let db := match update.categoryId with
    | some categoryId =>
        updateFeed feedId (fun f => { f with categoryId := some categoryId })
          (fun _ => rfl) (placeholderCategory categoryId db)
    | none => db
  let db := match update.crawler with
    | some crawler =>
        updateFeed feedId (fun f => { f with crawler := crawler }) (fun _ => rfl) db
    | none => db
  let db := match update.disabled with
    | some disabled =>
        updateFeed feedId (fun f => { f with disabled := disabled }) (fun _ => rfl) db
    | none => db
  match update.hideGlobally with
  | some hideGlobally =>
      updateFeed feedId (fun f => { f with hideGlobally := hideGlobally })
        (fun _ => rfl) db
  | none => db

end Store

/-- The statements transactions are made of. -/
inductive Statement
  | queue (entryId : EntryId) (value : DesiredValue) (now : ℤ)
  | queueMarkFeedRead (feedId : FeedId) (now : ℤ)
  | queueMarkCategoryRead (categoryId : CategoryId) (now : ℤ)
  | confirm (batch : Batch)
  | recordFailure (batch : Batch) (error : String)
  | discard (batch : Batch)
  | upsertCategory (c : Category) (generation : ℤ)
  | upsertFeed (f : Feed) (generation : ℤ)
  | deleteFeed (id : FeedId)
  | upsertEntry (e : Entry) (generation : ℤ) (arrival : Arrival)
  | deleteEntry (id : EntryId)
  | pruneEntries (cutoff : ℤ)
  | storeScraped (id : EntryId) (content : String)
  | acknowledgeArrivals (ids : List EntryId)
  | acknowledgeAllArrivals
  | upsertIcon (icon : Icon)
  | recordIconFailure (feedId : FeedId)
  | clearIconFailures (feedId : FeedId)
  | applyFeedPatch (feedId : FeedId) (update : FeedPatch)
  | setSyncState (state : SyncState)

namespace Statement

/-- The count a statement reports, where the source reads one, and the
database it leaves. -/
def run : Statement → Db → ℕ × Db
  | queue entryId value now, db => (1, Outbox.queue entryId value now db)
  | queueMarkFeedRead feedId now, db => Outbox.queueMarkFeedRead feedId now db
  | queueMarkCategoryRead categoryId now, db =>
      Outbox.queueMarkCategoryRead categoryId now db
  | confirm batch, db => Outbox.confirm batch db
  | recordFailure batch error, db => (0, Outbox.recordFailure batch error db)
  | discard batch, db => Outbox.discard batch db
  | upsertCategory c generation, db => (0, Store.upsertCategory c generation db)
  | upsertFeed f generation, db => (0, Store.upsertFeed f generation db)
  | deleteFeed id, db => (0, Store.deleteFeed id db)
  | upsertEntry e generation arrival, db =>
      (0, Store.upsertEntry e generation arrival db)
  | deleteEntry id, db => (0, Store.deleteEntry id db)
  | pruneEntries cutoff, db => Store.pruneEntries cutoff db
  | storeScraped id content, db => (0, Store.storeScraped id content db)
  | acknowledgeArrivals ids, db => (0, Store.acknowledgeArrivals ids db)
  | acknowledgeAllArrivals, db => (0, Store.acknowledgeAllArrivals db)
  | upsertIcon icon, db => (0, Store.upsertIcon icon db)
  | recordIconFailure feedId, db => (0, Store.recordIconFailure feedId db)
  | clearIconFailures feedId, db => (0, Store.clearIconFailures feedId db)
  | applyFeedPatch feedId update, db => (0, Store.applyFeedPatch feedId update db)
  | setSyncState state, db => (0, Store.setSyncState state db)

/-- The database a statement leaves. -/
def exec (s : Statement) (db : Db) : Db :=
  (s.run db).2

end Statement

/-- The statements of one committed transaction. -/
abbrev Transaction := List Statement

namespace Transaction

/-- A transaction's statements in order, their counts added up. -/
def run (body : Transaction) (db : Db) : ℕ × Db :=
  body.foldl (fun (n, db) s => (n + (s.run db).1, (s.run db).2)) (0, db)

/-- The database a transaction leaves. -/
def exec (body : Transaction) (db : Db) : Db :=
  body.foldl (fun db s => s.exec db) db

theorem run_snd (body : Transaction) (db : Db) : (run body db).2 = exec body db := by
  have hfold : ∀ (body : Transaction) (n : ℕ) (db : Db),
      (body.foldl (fun (n, db) s => (n + (s.run db).1, (s.run db).2)) (n, db)).2 =
        exec body db := by
    intro body
    induction body with
    | nil => intro n db; rfl
    | cons s body ih => intro n db; exact ih _ _
  exact hfold body 0 db

@[simp]
theorem exec_nil (db : Db) : exec [] db = db :=
  rfl

@[simp]
theorem exec_cons (s : Statement) (body : Transaction) (db : Db) :
    exec (s :: body) db = exec body (s.exec db) :=
  rfl

theorem exec_append (body rest : Transaction) (db : Db) :
    exec (body ++ rest) db = exec rest (exec body db) :=
  List.foldl_append

/-- What every statement of a transaction preserves, the transaction
preserves. -/
theorem exec_invariant {P : Db → Prop} {body : Transaction}
    (h : ∀ s ∈ body, ∀ db, P db → P (s.exec db)) {db : Db} (hdb : P db) :
    P (exec body db) := by
  induction body generalizing db with
  | nil => exact hdb
  | cons s body ih =>
      exact ih (fun t ht => h t (List.mem_cons_of_mem s ht))
        (h s List.mem_cons_self db hdb)

end Transaction

/-! ## Reads -/

inductive Query
  | pending
  | outboxLen
  | syncState
  | feeds
  | localEntryIds
  | entryCountsByFeed
  | feedsMissingIcons (limit : ℤ)
  | entryContent (id : EntryId)

namespace Query

def Answer : Query → Type
  | pending => List PendingMutation
  | outboxLen => ℕ
  | syncState => SyncState
  | feeds => List FeedRow
  | localEntryIds => List EntryId
  | entryCountsByFeed => List (FeedId × ℕ)
  | feedsMissingIcons _ => List (FeedId × IconId)
  | entryContent _ => Option String

def run : (q : Query) → Db → q.Answer
  | pending, db => Outbox.pending db
  | outboxLen, db => Outbox.len db
  | syncState, db => db.syncState
  | feeds, db => Store.feeds db
  | localEntryIds, db => Store.localEntryIds db
  | entryCountsByFeed, db => Store.entryCountsByFeed db
  | feedsMissingIcons limit, db => Store.feedsMissingIcons limit db
  | entryContent id, db => (db.entries.find? id).map EntryRow.content

end Query

end Vuo
