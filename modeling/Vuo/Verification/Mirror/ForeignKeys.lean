import Vuo.Verification.Mirror.Upserts

/-!
# Foreign keys

A feed names a category the mirror holds, an enclosure an entry it holds. Every
statement leaves that so, those that consist of several included: no state in
between dangles either.
-/

namespace Vuo

open Foundation Outbox Store

/-- Every reference has its row. -/
structure ForeignKeys (db : Db) : Prop where
  categories : ∀ f ∈ db.feeds, ∀ c, f.categoryId = some c → db.categories.contains c = true
  entries : ∀ enc ∈ db.enclosures, db.entries.contains enc.entryId = true

namespace ForeignKeys

theorem empty : ForeignKeys Db.empty :=
  ⟨fun f hf => absurd hf (Table.notMem_empty f),
    fun enc henc => absurd henc (Table.notMem_empty enc)⟩

/-- Where no referenced row goes and no new reference comes. -/
theorem of_kept {db db' : Db} (h : ForeignKeys db)
    (hcategories : ∀ c, db.categories.contains c = true → db'.categories.contains c = true)
    (hfeeds : ∀ f ∈ db'.feeds, ∃ f₀ ∈ db.feeds, f₀.categoryId = f.categoryId)
    (hentries : ∀ id, db.entries.contains id = true → db'.entries.contains id = true)
    (henclosures : ∀ enc ∈ db'.enclosures, enc ∈ db.enclosures) : ForeignKeys db' where
  categories := by
    intro f hf c hc
    obtain ⟨f₀, hf₀, hsame⟩ := hfeeds f hf
    exact hcategories c (h.categories f₀ hf₀ c (hsame.trans hc))
  entries := fun enc henc => hentries _ (h.entries enc (henclosures enc henc))

/-- Where the four tables hold what they held. -/
theorem of_eq {db db' : Db} (h : ForeignKeys db) (hcategories : db'.categories = db.categories)
    (hfeeds : db'.feeds = db.feeds) (hentries : db'.entries = db.entries)
    (henclosures : db'.enclosures = db.enclosures) : ForeignKeys db' :=
  ⟨hcategories ▸ hfeeds ▸ h.categories, hentries ▸ henclosures ▸ h.entries⟩

/-- Updating a feed, its category left alone or set to one that is there. -/
theorem updateFeed {db : Db} (h : ForeignKeys db) {feedId : FeedId} {f : FeedRow → FeedRow}
    {hf : ∀ r, (f r).id = r.id}
    (hcategory : ∀ r c, (f r).categoryId = some c →
      r.categoryId = some c ∨ db.categories.contains c = true) :
    ForeignKeys (Store.updateFeed feedId f hf db) where
  categories := by
    intro r hr c hc
    have hupdated : r ∈ db.feeds.update (fun r => r.id = feedId) f hf := hr
    obtain ⟨s, hs, rfl⟩ := Table.mem_update.1 hupdated
    have hold : s.categoryId = some c → db.categories.contains c = true := h.categories s hs c
    split at hc
    · exact (hcategory s c hc).elim hold id
    · exact hold hc
  entries := h.entries

/-- Updating entries. -/
theorem updateEntries {db : Db} (h : ForeignKeys db) {p : EntryRow → Bool}
    {f : EntryRow → EntryRow} {hf : ∀ e, (f e).id = e.id} :
    ForeignKeys { db with entries := db.entries.update p f hf } :=
  h.of_kept (fun _ hc => hc) (fun r hr => ⟨r, hr, rfl⟩) (fun _ hid => by simpa using hid)
    fun _ henc => henc

theorem outbox {db : Db} (h : ForeignKeys db) (out : Table OutboxRow.key) :
    ForeignKeys { db with outbox := out } :=
  ⟨h.categories, h.entries⟩

theorem queue {db : Db} (h : ForeignKeys db) (id : EntryId) (v : DesiredValue) (now : ℤ) :
    ForeignKeys (Outbox.queue id v now db) :=
  (h.outbox _).updateEntries

theorem queueRead {db : Db} (h : ForeignKeys db) (ids : List EntryId) (now : ℤ) :
    ForeignKeys (Outbox.queueRead ids now db) := by
  induction ids generalizing db with
  | nil => exact h
  | cons id ids ih => exact ih (h.queue id _ now)

theorem acknowledgeArrivals {db : Db} (h : ForeignKeys db) (ids : List EntryId) :
    ForeignKeys (Store.acknowledgeArrivals ids db) := by
  induction ids generalizing db with
  | nil => exact h
  | cons id ids ih => exact ih h.updateEntries

/-! ## Statements that reference -/

theorem upsertCategory {db : Db} (h : ForeignKeys db) (c : Category) (generation : ℤ) :
    ForeignKeys (Store.upsertCategory c generation db) :=
  h.of_kept (fun k hk => by simp [Store.upsertCategory, Table.contains_put, hk])
    (fun r hr => ⟨r, hr, rfl⟩) (fun _ hid => hid) fun _ henc => henc

theorem contains_placeholderCategory (c : CategoryId) (db : Db) (k : CategoryId) :
    (placeholderCategory c db).categories.contains k =
      (decide (c = k) || db.categories.contains k) := by
  unfold placeholderCategory
  split
  case isTrue hc =>
    by_cases hk : c = k
    · subst hk
      simp [hc]
    · simp [hk]
  case isFalse hc => rw [Table.contains_put]

theorem placeholderCategory {db : Db} (h : ForeignKeys db) (c : CategoryId) :
    ForeignKeys (Store.placeholderCategory c db) := by
  have hfeeds : (Store.placeholderCategory c db).feeds = db.feeds ∧
      (Store.placeholderCategory c db).entries = db.entries ∧
      (Store.placeholderCategory c db).enclosures = db.enclosures := by
    unfold Store.placeholderCategory
    split <;> exact ⟨rfl, rfl, rfl⟩
  refine h.of_kept (fun k hk => by rw [contains_placeholderCategory, hk, Bool.or_true]) ?_ ?_ ?_
  · exact fun r hr => ⟨r, hfeeds.1 ▸ hr, rfl⟩
  · exact fun id hid => hfeeds.2.1 ▸ hid
  · exact fun enc henc => hfeeds.2.2 ▸ henc

end ForeignKeys

namespace Store

/-- The placeholder of the category a feed names. -/
def placeholderOf (f : Feed) : List (Db → Db) :=
  (f.categoryId.map placeholderCategory).toList

/-- `INSERT INTO feeds ... ON CONFLICT DO UPDATE`. -/
def writeFeed (f : Feed) (generation : ℤ) (db : Db) : Db :=
  let failures := ((db.feeds.find? f.id).map FeedRow.iconFailures).getD 0
  { db with feeds := db.feeds.put { feedRow f generation with iconFailures := failures } }

/-- The statements of a feed upsert. -/
def upsertFeedSql (f : Feed) (generation : ℤ) : List (Db → Db) :=
  placeholderOf f ++ [writeFeed f generation]

/-- The statements of a feed deletion. -/
def deleteFeedSql (id : FeedId) : List (Db → Db) :=
  [fun db => { db with
      outbox := db.outbox.remove fun r =>
        ((db.entries.find? r.entryId).map fun e => decide (e.feedId = id)).getD false },
    Db.deleteEntriesWhere fun e => e.feedId = id,
    fun db => { db with feeds := db.feeds.remove fun f => f.id = id }]

/-- Statements one after the other. -/
def runSql (sql : List (Db → Db)) (db : Db) : Db :=
  sql.foldl (fun db statement => statement db) db

theorem runSql_append (sql rest : List (Db → Db)) (db : Db) :
    runSql (sql ++ rest) db = runSql rest (runSql sql db) :=
  List.foldl_append

theorem runSql_upsertFeed (f : Feed) (generation : ℤ) (db : Db) :
    runSql (upsertFeedSql f generation) db = upsertFeed f generation db := by
  rw [upsertFeedSql, runSql_append, placeholderOf, upsertFeed]
  cases f.categoryId with
  | none => rfl
  | some c => rfl

theorem runSql_deleteFeed (id : FeedId) (db : Db) :
    runSql (deleteFeedSql id) db = deleteFeed id db :=
  rfl

end Store

namespace ForeignKeys

/-- No statement leaves a reference without its row, which is where the store
would refuse it. -/
def Enforced : List (Db → Db) → Db → Prop
  | [], _ => True
  | statement :: sql, db => ForeignKeys (statement db) ∧ Enforced sql (statement db)

theorem Enforced.append {sql rest : List (Db → Db)} {db : Db} (h : Enforced sql db)
    (hrest : Enforced rest (runSql sql db)) : Enforced (sql ++ rest) db := by
  induction sql generalizing db with
  | nil => exact hrest
  | cons statement sql ih => exact ⟨h.1, ih h.2 hrest⟩

theorem Enforced.foreignKeys {sql : List (Db → Db)} {db : Db} (h : Enforced sql db)
    (hdb : ForeignKeys db) : ForeignKeys (runSql sql db) := by
  induction sql generalizing db with
  | nil => exact hdb
  | cons statement sql ih => exact ih h.2 h.1

/-- A feed whose category is there can be written. -/
theorem writeFeed {db : Db} (h : ForeignKeys db) (f : Feed) (generation : ℤ)
    (hcategory : ∀ c, f.categoryId = some c → db.categories.contains c = true) :
    ForeignKeys (Store.writeFeed f generation db) where
  categories := by
    intro r hr c hc
    obtain rfl | ⟨hr, -⟩ := Table.mem_put.1 hr
    · exact hcategory c hc
    · exact h.categories r hr c hc
  entries := h.entries

theorem enforced_upsertFeed {db : Db} (h : ForeignKeys db) (f : Feed) (generation : ℤ) :
    Enforced (upsertFeedSql f generation) db := by
  unfold upsertFeedSql placeholderOf
  cases hc : f.categoryId with
  | none => exact ⟨h.writeFeed f generation (by simp [hc]), trivial⟩
  | some c =>
      refine ⟨h.placeholderCategory c, (h.placeholderCategory c).writeFeed f generation ?_, trivial⟩
      intro k hk
      cases hc.symm.trans hk
      simp [contains_placeholderCategory]

/-- The enclosures of an entry go with it. -/
theorem deleteEntriesWhere {db : Db} (h : ForeignKeys db) (p : EntryRow → Bool) :
    ForeignKeys (db.deleteEntriesWhere p) where
  categories := h.categories
  entries := by
    intro enc henc
    obtain ⟨henc, hkept⟩ := Table.mem_remove.1 henc
    obtain ⟨e, he⟩ := Option.isSome_iff_exists.1 (h.entries enc henc)
    rw [he] at hkept
    rw [Table.contains, entries_deleteEntriesWhere, he]
    simpa [Option.filter] using hkept

theorem enforced_deleteFeed {db : Db} (h : ForeignKeys db) (id : FeedId) :
    Enforced (deleteFeedSql id) db := by
  have hout : ForeignKeys { db with
      outbox := db.outbox.remove fun r =>
        ((db.entries.find? r.entryId).map fun e => decide (e.feedId = id)).getD false } :=
    h.outbox _
  have hentries := hout.deleteEntriesWhere fun e => e.feedId = id
  exact ⟨hout, hentries, hentries.of_kept (fun _ hc => hc)
    (fun r hr => ⟨r, (Table.mem_remove.1 hr).1, rfl⟩) (fun _ hid => hid) fun _ henc => henc,
    trivial⟩

/-- An entry is written before its enclosures. -/
theorem upsertEntry {db : Db} (h : ForeignKeys db) (e : Entry) (generation : ℤ)
    (arrival : Arrival) : ForeignKeys (Store.upsertEntry e generation arrival db) where
  categories := h.categories
  entries := by
    have hheld : ∀ id, db.entries.contains id = true ∨ id = e.id →
        (Store.upsertEntry e generation arrival db).entries.contains id = true := by
      rintro id (hid | rfl)
      · rw [Table.contains, entries_upsertEntry]
        split
        · rfl
        · exact hid
      · rw [Table.contains, entries_upsertEntry, if_pos rfl]
        rfl
    intro enc henc
    rw [enclosures_upsertEntry, Table.mem_putAll] at henc
    obtain hnew | ⟨hold, -⟩ := henc
    · exact hheld _ (.inr (entryId_of_mem_enclosureRows (Table.lastOfEach_subset _ hnew)))
    · exact hheld _ (.inl (h.entries enc (Table.mem_remove.1 hold).1))

theorem applyFeedPatch {db : Db} (h : ForeignKeys db) (feedId : FeedId) (update : FeedPatch) :
    ForeignKeys (Store.applyFeedPatch feedId update db) := by
  obtain ⟨title, categoryId, crawler, disabled, hideGlobally⟩ := update
  have htitle : ForeignKeys (Store.applyFeedPatch feedId ⟨title, none, none, none, none⟩ db) := by
    cases title with
    | none => exact h
    | some title => exact h.updateFeed fun _ _ hc => .inl hc
  have hcategory :
      ForeignKeys (Store.applyFeedPatch feedId ⟨title, categoryId, none, none, none⟩ db) := by
    cases categoryId with
    | none => exact htitle
    | some category =>
        refine (htitle.placeholderCategory category).updateFeed fun _ c hc => .inr ?_
        cases hc
        simp [contains_placeholderCategory]
  have hcrawler :
      ForeignKeys (Store.applyFeedPatch feedId ⟨title, categoryId, crawler, none, none⟩ db) := by
    cases crawler with
    | none => exact hcategory
    | some crawler => exact hcategory.updateFeed fun _ _ hc => .inl hc
  have hdisabled :
      ForeignKeys
        (Store.applyFeedPatch feedId ⟨title, categoryId, crawler, disabled, none⟩ db) := by
    cases disabled with
    | none => exact hcrawler
    | some disabled => exact hcrawler.updateFeed fun _ _ hc => .inl hc
  cases hideGlobally with
  | none => exact hdisabled
  | some hideGlobally => exact hdisabled.updateFeed fun _ _ hc => .inl hc

/-- Whatever a statement does, it leaves every reference its row. -/
theorem exec (s : Statement) {db : Db} (h : ForeignKeys db) : ForeignKeys (s.exec db) := by
  have hconfirm : ∀ batch, ForeignKeys (confirm batch db).2 := by
    intro batch
    rw [confirm_db]
    exact h.outbox _
  cases s with
  | queue id v now => exact h.queue id v now
  | queueMarkFeedRead feedId now => exact h.queueRead _ now
  | queueMarkCategoryRead categoryId now => exact h.queueRead _ now
  | confirm batch => exact hconfirm batch
  | discard batch => exact hconfirm batch
  | recordFailure batch error =>
      have hexec : (Statement.recordFailure batch error).exec db =
          recordFailure batch error db := rfl
      rw [hexec, recordFailure_db]
      exact h.outbox _
  | upsertCategory c generation => exact h.upsertCategory c generation
  | upsertFeed f generation =>
      have hexec : (Statement.upsertFeed f generation).exec db = upsertFeed f generation db := rfl
      rw [hexec, ← runSql_upsertFeed]
      exact (h.enforced_upsertFeed f generation).foreignKeys h
  | deleteFeed id => exact (h.enforced_deleteFeed id).foreignKeys h
  | upsertEntry e generation arrival => exact h.upsertEntry e generation arrival
  | deleteEntry id => exact (h.outbox _).deleteEntriesWhere _
  | pruneEntries cutoff => exact h.deleteEntriesWhere _
  | storeScraped id content => exact h.updateEntries
  | acknowledgeArrivals ids => exact h.acknowledgeArrivals ids
  | acknowledgeAllArrivals => exact h.updateEntries
  | upsertIcon icon => exact h.of_eq rfl rfl rfl rfl
  | recordIconFailure feedId => exact h.updateFeed fun _ _ hc => .inl hc
  | clearIconFailures feedId => exact h.updateFeed fun _ _ hc => .inl hc
  | applyFeedPatch feedId update => exact h.applyFeedPatch feedId update
  | setSyncState state => exact h.of_eq rfl rfl rfl rfl

end ForeignKeys

theorem Reachable.foreignKeys {db : Db} (h : Reachable db) : ForeignKeys db := by
  induction h with
  | fresh => exact .empty
  | commit body _ ih =>
      exact Transaction.exec_invariant (fun s _ _ hdb => hdb.exec s) ih

end Vuo
