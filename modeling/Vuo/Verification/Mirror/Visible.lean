import Vuo.Model.Announcer
import Vuo.Verification.Mirror.Equations

/-!
# What the pages see of the mirror

Four of the tables are shown, and of their rows every column but those that
only the client's own bookkeeping reads.
-/

namespace Vuo

open Foundation

def EntryRow.visible (e : EntryRow) : EntryRow :=
  { e with
    commentsUrl := none
    createdAt := none
    changedAt := none
    lastSeenSync := 0
    contentScraped := false
    arrived := false }

def FeedRow.visible (f : FeedRow) : FeedRow :=
  { f with
    siteUrl := none
    feedUrl := none
    checkedAt := none
    parsingErrorCount := 0
    iconFailures := 0
    lastSeenSync := 0 }

def CategoryRow.visible (c : CategoryRow) : CategoryRow :=
  { c with lastSeenSync := 0 }

/-- The pages would show the same. -/
structure SameShown (db db' : Db) : Prop where
  entries : ∀ id, (db'.entries.find? id).map EntryRow.visible =
    (db.entries.find? id).map EntryRow.visible
  feeds : ∀ id, (db'.feeds.find? id).map FeedRow.visible =
    (db.feeds.find? id).map FeedRow.visible
  categories : ∀ id, (db'.categories.find? id).map CategoryRow.visible =
    (db.categories.find? id).map CategoryRow.visible
  icons : ∀ id, db'.icons.find? id = db.icons.find? id

namespace SameShown

theorem refl (db : Db) : SameShown db db :=
  ⟨fun _ => rfl, fun _ => rfl, fun _ => rfl, fun _ => rfl⟩

theorem trans {db₁ db₂ db₃ : Db} (h₁ : SameShown db₁ db₂) (h₂ : SameShown db₂ db₃) :
    SameShown db₁ db₃ where
  entries id := (h₂.entries id).trans (h₁.entries id)
  feeds id := (h₂.feeds id).trans (h₁.feeds id)
  categories id := (h₂.categories id).trans (h₁.categories id)
  icons id := (h₂.icons id).trans (h₁.icons id)

/-- An update of entries in columns no page shows. -/
theorem of_entries {db : Db} {p : EntryRow → Bool} {f : EntryRow → EntryRow}
    (hf : ∀ e, (f e).id = e.id) (h : ∀ e, (f e).visible = e.visible) :
    SameShown db { db with entries := db.entries.update p f hf } where
  entries id := by
    rw [Table.find?_update, Option.map_map]
    congr 1
    funext e
    by_cases hp : p e <;> simp [hp, h]
  feeds _ := rfl
  categories _ := rfl
  icons _ := rfl

/-- The same for feeds. -/
theorem of_feeds {db : Db} {p : FeedRow → Bool} {f : FeedRow → FeedRow}
    (hf : ∀ r, (f r).id = r.id) (h : ∀ r, (f r).visible = r.visible) :
    SameShown db { db with feeds := db.feeds.update p f hf } where
  entries _ := rfl
  feeds id := by
    rw [Table.find?_update, Option.map_map]
    congr 1
    funext r
    by_cases hp : p r <;> simp [hp, h]
  categories _ := rfl
  icons _ := rfl

end SameShown

/-! ## Statements no page sees -/

namespace Statement

/-- The statements about the outbox, the marks of arrivals and the
bookkeeping. -/
def unseen : Statement → Bool
  | .confirm .. | .recordFailure .. | .discard .. | .acknowledgeArrivals ..
  | .acknowledgeAllArrivals | .recordIconFailure .. | .clearIconFailures ..
  | .setSyncState .. => true
  | _ => false

end Statement

open Store Outbox

theorem sameShown_acknowledgeArrivals (ids : List EntryId) (db : Db) :
    SameShown db (acknowledgeArrivals ids db) := by
  induction ids generalizing db with
  | nil => exact .refl db
  | cons id ids ih =>
      have hfirst : SameShown db
          (db.updateEntry id (fun e => { e with arrived := false }) fun _ => rfl) :=
        .of_entries _ fun _ => rfl
      exact hfirst.trans (ih _)

theorem sameShown_of_unseen {s : Statement} (h : s.unseen = true) (db : Db) :
    SameShown db (s.exec db) := by
  cases s <;> cases h
  case confirm batch =>
      have hexec : (Statement.confirm batch).exec db = (confirm batch db).2 := rfl
      rw [hexec, confirm_db]
      exact ⟨fun _ => rfl, fun _ => rfl, fun _ => rfl, fun _ => rfl⟩
  case discard batch =>
      have hexec : (Statement.discard batch).exec db = (confirm batch db).2 := rfl
      rw [hexec, confirm_db]
      exact ⟨fun _ => rfl, fun _ => rfl, fun _ => rfl, fun _ => rfl⟩
  case recordFailure batch error =>
      have hexec : (Statement.recordFailure batch error).exec db = recordFailure batch error db :=
        rfl
      rw [hexec, recordFailure_db]
      exact ⟨fun _ => rfl, fun _ => rfl, fun _ => rfl, fun _ => rfl⟩
  case acknowledgeArrivals ids => exact sameShown_acknowledgeArrivals ids db
  case acknowledgeAllArrivals => exact .of_entries _ fun _ => rfl
  case recordIconFailure feedId => exact .of_feeds _ fun _ => rfl
  case clearIconFailures feedId => exact .of_feeds _ fun _ => rfl
  case setSyncState state => exact ⟨fun _ => rfl, fun _ => rfl, fun _ => rfl, fun _ => rfl⟩

theorem sameShown_exec {body : Transaction} (h : ∀ s ∈ body, s.unseen = true) (db : Db) :
    SameShown db (body.exec db) :=
  Transaction.exec_invariant (P := SameShown db)
    (fun s hs _ hdb => hdb.trans (sameShown_of_unseen (h s hs) _)) (.refl db)

/-! ## The notification -/

namespace Notify.Arrivals

/-- Looking at the mirror, and the end of a notification, leave what the pages
show. -/
theorem sameShown_decide (active enabled readable written : Bool) (a : Arrivals) :
    SameShown a.db (a.decide active enabled readable written).2.db := by
  have hall : SameShown a.db (acknowledgeEverything readable written a.db) := by
    simp only [acknowledgeEverything]
    split
    · exact .of_entries _ fun _ => rfl
    · exact .refl _
  cases active <;> cases enabled <;> cases readable <;> first | exact hall | exact .refl _

theorem sameShown_dismissed (written : Bool) (a : Arrivals) :
    SameShown a.db (a.dismissed written).db := by
  simp only [Arrivals.dismissed]
  split
  · exact .refl _
  · split
    · exact sameShown_acknowledgeArrivals _ _
    · exact .refl _

end Notify.Arrivals

/-! ## Marking a feed read -/

theorem entries_queueRead (ids : List EntryId) (now : ℤ) (db : Db) (j : EntryId) :
    (queueRead ids now db).entries.find? j =
      (db.entries.find? j).map fun e => if j ∈ ids then { e with status := .read } else e := by
  induction ids generalizing db with
  | nil => simp [queueRead]
  | cons id ids ih =>
      have hfold : queueRead (id :: ids) now db =
          queueRead ids now (queue id (.status .read) now db) := rfl
      rw [hfold, ih, queue_entries, Option.map_map]
      congr 1
      funext e
      by_cases hj : j = id <;> by_cases hmem : j ∈ ids <;>
        simp [hj, hmem, DesiredValue.applyTo]

theorem mem_unreadOfFeed {feedId : FeedId} {db : Db} {id : EntryId} :
    id ∈ unreadOfFeed feedId db ↔
      ∃ e, db.entries.find? id = some e ∧ e.feedId = feedId ∧ e.status = .unread := by
  simp only [unreadOfFeed, List.mem_map, List.mem_filter, Bool.and_eq_true, decide_eq_true_eq]
  constructor
  · rintro ⟨e, ⟨he, hfeed, hstatus⟩, rfl⟩
    exact ⟨e, Table.find?_of_mem he, hfeed, hstatus⟩
  · rintro ⟨e, he, hfeed, hstatus⟩
    exact ⟨e, ⟨Table.mem_of_find? he, hfeed, hstatus⟩, Table.key_of_find? he⟩

/-- Marking a feed read shows exactly if something in it was unread. -/
theorem sameShown_queueMarkFeedRead {feedId : FeedId} {now : ℤ} {db : Db} :
    SameShown db (queueMarkFeedRead feedId now db).2 ↔ unreadOfFeed feedId db = [] := by
  constructor
  · intro hsame
    refine List.eq_nil_iff_forall_not_mem.2 fun id hid => ?_
    obtain ⟨e, he, -, hstatus⟩ := mem_unreadOfFeed.1 hid
    have hentry := hsame.entries id
    rw [queueMarkFeedRead, entries_queueRead, he] at hentry
    simp only [Option.map_some, if_pos hid, Option.some.injEq] at hentry
    have hread : EntryStatus.read = e.status := congrArg EntryRow.status hentry
    rw [hstatus] at hread
    cases hread
  · intro hnone
    rw [queueMarkFeedRead, hnone]
    exact .refl db

end Vuo
