import Mathlib.Data.List.Induction
import Vuo.Verification.Deletions.Rules
import Vuo.Verification.Mirror.ForeignKeys
import Vuo.Verification.Mirror.Removals

/-!
# The taxonomy, exactly

What the step makes of the mirror, given the two listings: the feeds become the
listed ones, and what belongs to a feed that is no longer listed goes.
-/

namespace Vuo

open Foundation MinifluxClient

namespace Store

/-! ## Feeds written -/

/-- The failures counted for a feed. -/
def iconFailuresOf (id : FeedId) (db : Db) : ℕ :=
  ((db.feeds.find? id).map FeedRow.iconFailures).getD 0

/-- The row of a listed feed: the listing's data, the failures counted here. -/
def listedRow (f : Feed) (generation : ℤ) (db : Db) : FeedRow :=
  { feedRow f generation with iconFailures := iconFailuresOf f.id db }

theorem upsertFeed_eq (f : Feed) (generation : ℤ) (db : Db) : ∃ categories,
    upsertFeed f generation db =
      { db with
        categories := categories
        feeds := db.feeds.put (listedRow f generation db) } := by
  unfold upsertFeed placeholderCategory
  cases f.categoryId with
  | none => exact ⟨_, rfl⟩
  | some c =>
      dsimp only
      split <;> exact ⟨_, rfl⟩

theorem feeds_upsertFeed (f : Feed) (generation : ℤ) (db : Db) (id : FeedId) :
    (upsertFeed f generation db).feeds.find? id =
      if f.id = id then some (listedRow f generation db) else db.feeds.find? id := by
  obtain ⟨categories, heq⟩ := upsertFeed_eq f generation db
  rw [heq, Table.find?_put]
  rfl

/-- A listing does not touch the failures counted for a feed. -/
theorem iconFailuresOf_upsertFeed (f : Feed) (generation : ℤ) (db : Db) (id : FeedId) :
    iconFailuresOf id (upsertFeed f generation db) = iconFailuresOf id db := by
  rw [iconFailuresOf, feeds_upsertFeed]
  by_cases h : f.id = id
  · subst h
    rw [if_pos rfl]
    rfl
  · rw [if_neg h]
    rfl

/-- The entries, their enclosures and the intents are the same in both. -/
structure SameArticles (db db' : Db) : Prop where
  entries : db'.entries = db.entries
  enclosures : db'.enclosures = db.enclosures
  outbox : db'.outbox = db.outbox

theorem SameArticles.trans {db₁ db₂ db₃ : Db} (h₁ : SameArticles db₁ db₂)
    (h₂ : SameArticles db₂ db₃) : SameArticles db₁ db₃ :=
  ⟨h₂.entries.trans h₁.entries, h₂.enclosures.trans h₁.enclosures, h₂.outbox.trans h₁.outbox⟩

theorem sameArticles_upsertFeed (f : Feed) (generation : ℤ) (db : Db) :
    SameArticles db (upsertFeed f generation db) := by
  obtain ⟨categories, heq⟩ := upsertFeed_eq f generation db
  rw [heq]
  exact ⟨rfl, rfl, rfl⟩

end Store

namespace Pull

open Store

/-! ## The transaction of the listings -/

section Written

variable (categories : List Category) (generation : ℤ) (db : Db)

theorem exec_upsertCategories : ∃ table,
    Transaction.exec (categories.map fun c => .upsertCategory c generation) db =
      { db with categories := table } := by
  induction categories generalizing db with
  | nil => exact ⟨db.categories, rfl⟩
  | cons c categories ih => exact ih (upsertCategory c generation db)

theorem exec_taxonomyTx_concat (feeds : List Feed) (f : Feed) :
    (taxonomyTx categories (feeds ++ [f]) generation).exec db =
      upsertFeed f generation ((taxonomyTx categories feeds generation).exec db) := by
  rw [taxonomyTx, List.map_append, ← List.append_assoc, Transaction.exec_append]
  rfl

theorem sameArticles_taxonomyTx (feeds : List Feed) :
    SameArticles db ((taxonomyTx categories feeds generation).exec db) := by
  induction feeds using List.reverseRecOn with
  | nil =>
      obtain ⟨table, heq⟩ := exec_upsertCategories categories generation db
      rw [taxonomyTx, List.map_nil, List.append_nil, heq]
      exact ⟨rfl, rfl, rfl⟩
  | append_singleton feeds f ih =>
      rw [exec_taxonomyTx_concat]
      exact ih.trans (sameArticles_upsertFeed f generation _)

/-- A listed feed is written as it was listed last, the others are left. -/
theorem feeds_taxonomyTx (feeds : List Feed) (id : FeedId) :
    ((taxonomyTx categories feeds generation).exec db).feeds.find? id =
        ((Table.lastOf Feed.id id feeds).map (listedRow · generation db)).or
          (db.feeds.find? id) ∧
      iconFailuresOf id ((taxonomyTx categories feeds generation).exec db) =
        iconFailuresOf id db := by
  induction feeds using List.reverseRecOn with
  | nil =>
      obtain ⟨table, heq⟩ := exec_upsertCategories categories generation db
      rw [taxonomyTx, List.map_nil, List.append_nil, heq]
      exact ⟨rfl, rfl⟩
  | append_singleton feeds f ih =>
      rw [exec_taxonomyTx_concat, feeds_upsertFeed, iconFailuresOf_upsertFeed,
        Table.lastOf_concat]
      refine ⟨?_, ih.2⟩
      by_cases h : f.id = id
      · subst h
        rw [if_pos rfl, if_pos rfl, listedRow, ih.2]
        rfl
      · rw [if_neg h, if_neg h, ih.1]

theorem mem_feeds_taxonomyTx (feeds : List Feed) (id : FeedId) :
    id ∈ (Store.feeds ((taxonomyTx categories feeds generation).exec db)).map FeedRow.id ↔
      id ∈ feeds.map Feed.id ∨ db.feeds.contains id = true := by
  have hheld : id ∈ (Store.feeds ((taxonomyTx categories feeds generation).exec db)).map
      FeedRow.id ↔ ((taxonomyTx categories feeds generation).exec db).feeds.contains id = true := by
    rw [Table.contains_iff]
    simp [Store.feeds, Table.mem_def]
  rw [hheld, Table.contains, (feeds_taxonomyTx categories generation db feeds id).1,
    Option.isSome_or, Option.isSome_map, Bool.or_eq_true, Table.isSome_lastOf]
  rfl

end Written

/-! ## The feeds that are gone -/

/-- A feed the mirror holds and the listing does not name. -/
def unlisted (feeds : List Feed) (db : Db) (id : FeedId) : Bool :=
  db.feeds.contains id && id ∉ feeds.map Feed.id

/-- The entry belongs to such a feed. -/
def ofUnlisted (feeds : List Feed) (db : Db) (id : EntryId) : Bool :=
  ((db.entries.find? id).map fun e => unlisted feeds db e.feedId).getD false

theorem mem_goneFeeds {feeds : List Feed} {rows : List FeedRow} {id : FeedId} :
    id ∈ goneFeeds feeds rows ↔ id ∈ rows.map FeedRow.id ∧ id ∉ feeds.map Feed.id := by
  simp [goneFeeds]

/-- What the listings' transaction adds is listed, so it takes nothing from the
feeds that go. -/
theorem decide_mem_gone (categories : List Category) (feeds : List Feed) (generation : ℤ)
    (db : Db) (id : FeedId) :
    decide (id ∈ goneFeeds feeds
      (Store.feeds ((taxonomyTx categories feeds generation).exec db))) =
      unlisted feeds db id := by
  rw [Bool.eq_iff_iff, decide_eq_true_eq, mem_goneFeeds, mem_feeds_taxonomyTx, unlisted,
    Bool.and_eq_true, decide_eq_true_eq]
  tauto

end Pull

namespace Store

theorem feeds_deleteFeeds (ids : List FeedId) (db : Db) (j : FeedId) :
    (Transaction.exec (ids.map .deleteFeed) db).feeds.find? j =
      if j ∈ ids then none else db.feeds.find? j := by
  induction ids generalizing db with
  | nil => simp
  | cons id ids ih =>
      have hfeeds : ((Statement.deleteFeed id).exec db).feeds.find? j =
          (db.feeds.find? j).filter fun f => !decide (f.id = id) :=
        Table.find?_remove _ db.feeds j
      rw [List.map_cons, Transaction.exec_cons, ih, hfeeds]
      cases hf : db.feeds.find? j with
      | none => simp
      | some f =>
          have hid := Table.key_of_find? hf
          by_cases hj : j = id <;> simp_all [Option.filter]

/-- An enclosure goes with the entry of a deleted feed, and with no other. -/
theorem enclosures_deleteFeeds (ids : List FeedId) (db : Db) (k : ℤ) :
    (Transaction.exec (ids.map .deleteFeed) db).enclosures.find? k =
      (db.enclosures.find? k).filter fun enc =>
        !((db.entries.find? enc.entryId).map fun e => decide (e.feedId ∈ ids)).getD false := by
  induction ids generalizing db with
  | nil =>
      cases hr : db.enclosures.find? k with
      | none => simpa using hr
      | some enc => cases he : db.entries.find? enc.entryId <;> simp [Option.filter, hr, he]
  | cons id ids ih =>
      have henclosures : ((Statement.deleteFeed id).exec db).enclosures.find? k =
          (db.enclosures.find? k).filter fun enc =>
            !((db.entries.find? enc.entryId).map fun e => decide (e.feedId = id)).getD false :=
        Table.find?_remove _ db.enclosures k
      have hentries : ∀ j, ((Statement.deleteFeed id).exec db).entries.find? j =
          (db.entries.find? j).filter fun e => !decide (e.feedId = id) :=
        entries_deleteFeed id db
      rw [List.map_cons, Transaction.exec_cons, ih, henclosures, Option.filter_filter]
      congr 1
      funext enc
      rw [hentries]
      cases db.entries.find? enc.entryId with
      | none => rfl
      | some e => by_cases he : e.feedId = id <;> simp [Option.filter, he]

end Store

namespace Pull

open Store
open ForeignKeys (Enforced)

/-! ## The whole step -/

/-- What the two listings make of a mirror. -/
structure TaxonomyExact (feeds : List Feed) (generation : ℤ) (db db' : Db) : Prop where
  listed : feeds ≠ [] → ∀ id, db'.feeds.find? id =
    (Table.lastOf Feed.id id feeds).map (listedRow · generation db)
  entries : feeds ≠ [] → ∀ id, db'.entries.find? id =
    (db.entries.find? id).filter fun e => !unlisted feeds db e.feedId
  enclosures : feeds ≠ [] → ∀ id, db'.enclosures.find? id =
    (db.enclosures.find? id).filter fun enc => !ofUnlisted feeds db enc.entryId
  outbox : feeds ≠ [] → ∀ k, db'.outbox.find? k =
    (db.outbox.find? k).filter fun r => !ofUnlisted feeds db r.entryId
  nothing : feeds = [] → SameArticles db db' ∧ ∀ id, db'.feeds.find? id = db.feeds.find? id
  failures : ∀ id row row', db.feeds.find? id = some row → db'.feeds.find? id = some row' →
    row'.iconFailures = row.iconFailures

/-- The statements that write the listings. -/
def listingSql (categories : List Category) (feeds : List Feed) (generation : ℤ) :
    List (Db → Db) :=
  categories.map (upsertCategory · generation) ++ feeds.flatMap (upsertFeedSql · generation)

/-- The statements that delete what is no longer listed. -/
def deletionSql (feeds : List Feed) (rows : List FeedRow) : List (Db → Db) :=
  if feeds = [] ∧ rows ≠ [] then [] else (goneFeeds feeds rows).flatMap deleteFeedSql

/-- The statements of the step, in order. -/
def taxonomySql (categories : List Category) (feeds : List Feed) (generation : ℤ) (db : Db) :
    List (Db → Db) :=
  listingSql categories feeds generation ++
    deletionSql feeds (Store.feeds (runSql (listingSql categories feeds generation) db))

theorem runSql_flatMap {α : Type} {sql : α → List (Db → Db)} {statement : α → Statement}
    (h : ∀ a db, runSql (sql a) db = (statement a).exec db) (as : List α) (db : Db) :
    runSql (as.flatMap sql) db = Transaction.exec (as.map statement) db := by
  induction as generalizing db with
  | nil => rfl
  | cons a as ih => rw [List.flatMap_cons, runSql_append, h, ih, List.map_cons,
      Transaction.exec_cons]

theorem enforced_flatMap {α : Type} {sql : α → List (Db → Db)}
    (h : ∀ a db, ForeignKeys db → Enforced (sql a) db) (as : List α) {db : Db}
    (hdb : ForeignKeys db) : Enforced (as.flatMap sql) db := by
  induction as generalizing db with
  | nil => trivial
  | cons a as ih => exact (h a db hdb).append (ih ((h a db hdb).foreignKeys hdb))

section Sql

variable (categories : List Category) (feeds : List Feed) (generation : ℤ) (db : Db)

theorem runSql_listing : runSql (listingSql categories feeds generation) db =
    (taxonomyTx categories feeds generation).exec db := by
  have hcategories : runSql (categories.map (upsertCategory · generation)) db =
      Transaction.exec (categories.map fun c => .upsertCategory c generation) db := by
    rw [runSql, Transaction.exec, List.foldl_map, List.foldl_map]
    rfl
  rw [listingSql, runSql_append, taxonomyTx, Transaction.exec_append, hcategories]
  exact runSql_flatMap (fun f => runSql_upsertFeed f generation) feeds _

theorem runSql_deletion (rows : List FeedRow) : runSql (deletionSql feeds rows) db =
    if feeds = [] ∧ rows ≠ [] then db
    else Transaction.exec ((goneFeeds feeds rows).map .deleteFeed) db := by
  unfold deletionSql
  split
  · rfl
  · exact runSql_flatMap runSql_deleteFeed _ db

variable {db}

/-- No statement of the step can fail on a foreign key. -/
theorem enforced_taxonomySql (h : ForeignKeys db) :
    Enforced (taxonomySql categories feeds generation db) db := by
  have hcategories : ∀ (categories : List Category) {db : Db}, ForeignKeys db →
      Enforced (categories.map (upsertCategory · generation)) db := by
    intro categories
    induction categories with
    | nil => exact fun _ => trivial
    | cons c categories ih =>
        exact fun h => ⟨h.upsertCategory c generation, ih (h.upsertCategory c generation)⟩
  have hlisting : Enforced (listingSql categories feeds generation) db :=
    (hcategories categories h).append (enforced_flatMap
      (fun f _ hdb => hdb.enforced_upsertFeed f generation) feeds
      ((hcategories categories h).foreignKeys h))
  refine hlisting.append ?_
  unfold deletionSql
  split
  · trivial
  · exact enforced_flatMap (fun id _ hdb => hdb.enforced_deleteFeed id) _ (hlisting.foreignKeys h)

end Sql

/-- The step does to the mirror what it should. -/
theorem exact_taxonomySql (categories : List Category) (feeds : List Feed) (generation : ℤ)
    (db : Db) :
    TaxonomyExact feeds generation db
      (runSql (taxonomySql categories feeds generation db) db) := by
  have hwritten := feeds_taxonomyTx categories generation db feeds
  have hsame := sameArticles_taxonomyTx categories generation db feeds
  have hgone := decide_mem_gone categories feeds generation db
  have hmem := mem_feeds_taxonomyTx categories generation db feeds
  rw [taxonomySql, runSql_append, runSql_listing, runSql_deletion]
  generalize hdb₁ : (taxonomyTx categories feeds generation).exec db = db₁ at *
  have hof : ∀ id, ((db.entries.find? id).map fun e =>
      decide (e.feedId ∈ goneFeeds feeds (Store.feeds db₁))).getD false =
        ofUnlisted feeds db id := by
    intro id
    simp only [ofUnlisted, hgone]
  by_cases hfeeds : feeds = []
  case pos =>
    -- an empty listing stops the step, unless there is nothing it could delete
    have hstop : (if feeds = [] ∧ Store.feeds db₁ ≠ [] then db₁
        else Transaction.exec ((goneFeeds feeds (Store.feeds db₁)).map .deleteFeed) db₁) = db₁ := by
      by_cases hrows : Store.feeds db₁ = []
      · simp [hrows, goneFeeds]
      · rw [if_pos ⟨hfeeds, hrows⟩]
    have hkept : ∀ id, db₁.feeds.find? id = db.feeds.find? id := by
      intro id
      rw [(hwritten id).1, hfeeds]
      rfl
    rw [hstop]
    constructor
    case nothing => exact fun _ => ⟨hsame, hkept⟩
    case failures =>
      intro id row row' hrow hrow'
      rw [hkept, hrow] at hrow'
      cases hrow'
      rfl
    all_goals exact fun h => absurd hfeeds h
  case neg =>
    rw [if_neg fun h => hfeeds h.1]
    have hlisted : ∀ id, (Transaction.exec
        ((goneFeeds feeds (Store.feeds db₁)).map .deleteFeed) db₁).feeds.find? id =
          (Table.lastOf Feed.id id feeds).map (listedRow · generation db) := by
      intro id
      have hone := @mem_goneFeeds feeds (Store.feeds db₁) id
      rw [hmem] at hone
      rw [feeds_deleteFeeds, (hwritten id).1]
      cases hlast : Table.lastOf Feed.id id feeds with
      | none =>
          have hnot := Table.lastOf_eq_none.1 hlast
          cases hold : db.feeds.find? id with
          | none => exact ite_self _
          | some row => exact if_pos (hone.2 ⟨.inr (by simp [Table.contains, hold]), hnot⟩)
      | some f =>
          have hin := Table.isSome_lastOf.1 (Option.isSome_iff_exists.2 ⟨f, hlast⟩)
          rw [if_neg fun h => (hone.1 h).2 hin]
          rfl
    constructor
    case listed => exact fun _ => hlisted
    case entries =>
      intro _ id
      rw [entries_deleteFeeds, hsame.entries]
      simp only [hgone]
    case enclosures =>
      intro _ id
      rw [enclosures_deleteFeeds, hsame.entries, hsame.enclosures]
      simp only [hof]
    case outbox =>
      intro _ k
      rw [outbox_deleteFeeds, hsame.entries, hsame.outbox]
      simp only [hof]
    case nothing => exact fun h => absurd h hfeeds
    case failures =>
      intro id row row' hrow hrow'
      rw [hlisted] at hrow'
      obtain ⟨f, hf, rfl⟩ := Option.map_eq_some_iff.1 hrow'
      have hid : f.id = id := Table.key_of_lastOf hf
      simp [listedRow, iconFailuresOf, hid, hrow]

/-! ## The runs of the step -/

section Runs

variable [UrlLibrary] [Endpoints] (client : MinifluxClient)

/-- The answers that list just these categories and these feeds. -/
def ListsTaxonomy (categories : List Wire.Category) (feeds : List Wire.Feed) :
    (request : Request) → Answer request → Prop
  | .categories, r => readResult client .categories r = .ok categories
  | .feeds, r => readResult client .feeds r = .ok feeds
  | _, _ => False

/-- A server with these listings, and nobody else at the mirror. -/
def listings (categories : List Wire.Category) (feeds : List Wire.Feed) : Outside Unit where
  send _ request _ r _ := ListsTaxonomy client categories feeds request r
  now _ _ _ := True
  commit _ _ _ := ()
  env _ _ := False

variable {client} {categories : List Wire.Category} {feeds : List Wire.Feed}

omit [UrlLibrary] in
/-- Nothing happens on its own. -/
theorem stable_listings (P : World Unit → Prop) :
    (listings client categories feeds).setting.Stable P :=
  fun _ _ h _ => h.elim

theorem wpe_taxonomy_listings (generation : ℤ) (w : World Unit) :
    (listings client categories feeds).setting.wpe Outside.noPromise
      (taxonomy client generation)
      (fun _ w' => w'.db = runSql (taxonomySql (listedCategories categories) (listedFeeds feeds)
        generation w.db) w.db)
      (fun _ _ => True) w := by
  generalize hdb : w.db = db
  have hwritten := runSql_listing (listedCategories categories) (listedFeeds feeds) generation db
  refine wpe_taxonomy_steps (P := fun w => w.db = db) (C := fun cs w => cs = categories ∧ w.db = db)
    (F := fun cs fs w => cs = categories ∧ fs = feeds ∧ w.db = db)
    (W := fun cs fs w => cs = categories ∧ fs = feeds ∧
      w.db = (taxonomyTx (listedCategories cs) (listedFeeds fs) generation).exec db)
    (L := fun cs fs rows w => cs = categories ∧ fs = feeds ∧ rows = Store.feeds w.db ∧
      w.db = (taxonomyTx (listedCategories cs) (listedFeeds fs) generation).exec db)
    (stable_listings _) (fun _ => stable_listings _) (fun _ _ => stable_listings _)
    (fun _ _ => stable_listings _) (fun _ _ _ => stable_listings _) (stable_listings _)
    (fun _ => stable_listings _) ?_ ?_ ?_ (fun _ _ _ _ _ _ => ⟨trivial, trivial⟩) ?_ ?_ ?_
    (fun _ _ _ _ _ _ _ => ⟨trivial, trivial⟩) hdb
  case _ =>
    intro w hw r o hsend
    have hresult : readResult client .categories r = .ok categories := hsend
    rw [hresult]
    exact ⟨trivial, rfl, hw⟩
  case _ =>
    rintro cs w ⟨rfl, hw⟩ r o hsend
    have hresult : readResult client .feeds r = .ok feeds := hsend
    rw [hresult]
    exact ⟨trivial, rfl, rfl, hw⟩
  case _ =>
    rintro cs fs w ⟨rfl, rfl, rfl⟩
    exact ⟨trivial, rfl, rfl, rfl⟩
  case _ =>
    rintro cs fs w ⟨rfl, rfl, hw⟩
    exact ⟨fun _ => trivial, ⟨rfl, rfl, rfl, hw⟩, fun _ => trivial⟩
  case _ =>
    rintro cs fs rows w ⟨rfl, rfl, rfl, hw⟩ hstop
    rw [taxonomySql, runSql_append, hwritten, runSql_deletion, ← hw]
    obtain hkept | hnone := hstop
    · rw [if_pos hkept]
    · rw [hnone]
      simp
  case _ =>
    rintro cs fs rows w ⟨rfl, rfl, rfl, hw⟩ hkept
    refine ⟨trivial, ?_⟩
    rw [taxonomySql, runSql_append, hwritten, runSql_deletion, ← hw, if_neg hkept]
    rfl

/-- No statement of the step meets a missing row, and where the step comes to
its end the mirror is what the two listings make of it. -/
theorem taxonomy_exact {generation : ℤ} {w w' : World Unit} (hkeys : ForeignKeys w.db)
    (hrun : (listings client categories feeds).setting.Reaches
      ((taxonomy client generation).run, w) (.done (.ok ()), w')) :
    Enforced (taxonomySql (listedCategories categories) (listedFeeds feeds) generation w.db) w.db ∧
      w'.db = runSql (taxonomySql (listedCategories categories) (listedFeeds feeds) generation
        w.db) w.db ∧
      TaxonomyExact (listedFeeds feeds) generation w.db w'.db := by
  have hdb := Setting.wpe_finished (wpe_taxonomy_listings generation w) hrun
  refine ⟨enforced_taxonomySql _ _ generation hkeys, hdb, ?_⟩
  rw [hdb]
  exact exact_taxonomySql _ _ generation w.db

end Runs

section Reader

open scoped Reader

/-- A feed in a category that is not listed. -/
def newFeed : Wire.Feed where
  id := 1
  feedUrl := ""
  siteUrl := ""
  title := "new"
  checkedAt := none
  parsingErrorMessage := ""
  parsingErrorCount := 0
  crawler := false
  disabled := false
  hideGlobally := false
  category := some { id := 5, title := "", hideGlobally := false }
  icon := none

/-- A mirror of another feed and an entry of it. -/
def oldFeedDb : Db :=
  { Db.empty with
    feeds := Table.empty.put
      { id := 2
        categoryId := none
        title := "old"
        siteUrl := none
        feedUrl := none
        iconId := none
        checkedAt := none
        parsingErrorMessage := ""
        parsingErrorCount := 0
        disabled := false
        hideGlobally := false
        crawler := false
        iconFailures := 1
        lastSeenSync := 0 }
    entries := Table.empty.put { unreadRow 7 with feedId := 2 } }

/-- The old feed goes, and the new one comes with a category of its own. -/
theorem taxonomy_exact_newFeed : ∃ w' : World Unit,
    Enforced (taxonomySql [] (listedFeeds [newFeed]) 1 oldFeedDb) oldFeedDb ∧
      TaxonomyExact (listedFeeds [newFeed]) 1 oldFeedDb w'.db := by
  have hkeys : ForeignKeys oldFeedDb := by
    constructor
    · intro f hf c hc
      obtain rfl | ⟨hf, -⟩ := Table.mem_put.1 hf
      · cases hc
      · exact absurd hf (Table.notMem_empty f)
    · intro enc henc
      exact absurd henc (Table.notMem_empty enc)
  let w : World Unit := ⟨oldFeedDb, fun _ => none, ()⟩
  let O := listings readerClient [] [newFeed]
  have hget (request : Request) (r : Answer request)
      (h : ListsTaxonomy readerClient [] [newFeed] request r) :
      O.setting.Reaches ((readerClient.getJson request).run, w)
        (.done (readResult readerClient request r), w) :=
    reaches_getJson (o := ()) h
  have hcategories : O.setting.Reaches (readerClient.categories.run, w) (.done (.ok []), w) :=
    hget .categories (answered 200 [] none) rfl
  have hfeeds : O.setting.Reaches (readerClient.feeds.run, w) (.done (.ok [newFeed]), w) :=
    hget .feeds (answered 200 [newFeed] none) rfl
  let w₁ := O.commitTo (taxonomyTx [] (listedFeeds [newFeed]) 1) w
  have hrun : O.setting.Reaches ((taxonomy readerClient 1).run, w)
      (.done (.ok ()), O.commitTo [.deleteFeed 2] w₁) := by
    refine (hcategories.bind_ok _).trans ((hfeeds.bind_ok _).trans ?_)
    refine ((Outside.reaches_withTx (taxonomyTx [] (listedFeeds [newFeed]) 1) w).bind_ok _).trans ?_
    refine ((Outside.reaches_query .feeds w₁).bind_ok _).trans ?_
    exact ((Outside.reaches_withTx [.deleteFeed 2] w₁).bind_ok _).trans .refl
  obtain ⟨henforced, -, hexact⟩ := taxonomy_exact hkeys hrun
  exact ⟨_, henforced, hexact⟩

end Reader

end Pull

end Vuo
