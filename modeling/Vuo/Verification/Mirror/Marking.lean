import Vuo.Model.Shim.App
import Vuo.Verification.Mirror.Visible

/-!
# Bulk marking

"Mark all as read" takes one of two paths: the unread entries of a feed or of
a category, or whatever the filter of the scope selects. Both queue one intent
an entry; what an intent does to a row does not depend on the path.
-/

namespace Vuo

open Foundation Outbox

/-! ## Queueing one value for several entries -/

/-- `apply_local_status_bulk`, for any value. -/
def queueEach (ids : List EntryId) (value : DesiredValue) (now : ℤ) (db : Db) : Db :=
  ids.foldl (fun db id => queue id value now db) db

section QueueEach

variable (ids : List EntryId) (value : DesiredValue) (now : ℤ) (db : Db)

theorem queueEach_cons (id : EntryId) :
    queueEach (id :: ids) value now db = queueEach ids value now (queue id value now db) :=
  rfl

theorem queueRead_eq : queueRead ids now db = queueEach ids (.status .read) now db :=
  rfl

theorem outbox_queueEach (k : EntryId × String) :
    (queueEach ids value now db).outbox.find? k =
      if k.1 ∈ ids ∧ k.2 = value.field.asStr then some (intentRow k.1 value now)
      else db.outbox.find? k := by
  induction ids generalizing db with
  | nil => simp [queueEach]
  | cons id ids ih =>
      rw [queueEach_cons, ih, queue_outbox]
      obtain ⟨j, field⟩ := k
      by_cases hfield : field = value.field.asStr
      · by_cases hj : j = id
        · subst hj
          simp [hfield]
        · simp [hfield, hj]
      · simp [hfield]

theorem entries_queueEach (j : EntryId) :
    (queueEach ids value now db).entries.find? j =
      (db.entries.find? j).map fun e => if j ∈ ids then value.applyTo e else e := by
  induction ids generalizing db with
  | nil => simp [queueEach]
  | cons id ids ih =>
      have htwice : ∀ e : EntryRow, value.applyTo (value.applyTo e) = value.applyTo e := by
        intro e
        cases value <;> rfl
      rw [queueEach_cons, ih, queue_entries, Option.map_map]
      congr 1
      funext e
      by_cases hj : j = id <;> by_cases hmem : j ∈ ids <;> simp [hj, hmem, htwice]

/-- Queueing reaches no other table. -/
theorem tables_queueEach :
    queueEach ids value now db =
      { db with
        entries := (queueEach ids value now db).entries
        outbox := (queueEach ids value now db).outbox } := by
  induction ids generalizing db with
  | nil => rfl
  | cons id ids ih =>
      rw [queueEach_cons]
      exact ih (queue id value now db)

end QueueEach

namespace Store.EntryFilter

/-- The scopes marked through the list of their unread entries. -/
def listsUnread : EntryFilter → Bool
  | .unread | .feed _ | .category _ => true
  | .starred | .all => false

/-- What a filter selects of the entries depends on the feeds and the categories
only. -/
theorem selects_congr {db db' : Db} (hfeeds : db'.feeds = db.feeds)
    (hcategories : db'.categories = db.categories) (filter : EntryFilter) (e : EntryRow) :
    selects filter db' e = selects filter db e := by
  cases filter <;> simp [selects, hidden, hfeeds, hcategories]

end Store.EntryFilter

open Store.EntryFilter

/-! ## Marking a scope -/

/-- The entries a filter selects, by id. -/
def inScope (filter : EntryFilter) (db : Db) (id : EntryId) : Prop :=
  ∃ e, db.entries.find? id = some e ∧ selects filter db e = true

/-- What marking a scope read comes to. What becomes of the rows of entries
that were read before is left open where the scope is not listed by its unread
entries. -/
structure ScopeMarked (filter : EntryFilter) (now : ℤ) (db db' : Db) : Prop where
  queued : ∀ id e, db.entries.find? id = some e → selects filter db e = true →
    e.status = .unread →
    db'.outbox.find? (id, OutboxField.status.asStr) = some (intentRow id (.status .read) now)
  others : ∀ k, ¬(k.2 = OutboxField.status.asStr ∧ inScope filter db k.1) →
    db'.outbox.find? k = db.outbox.find? k
  read : listsUnread filter = true → ∀ k e, db.entries.find? k.1 = some e →
    e.status = .read → db'.outbox.find? k = db.outbox.find? k
  inside : ∀ id e, db.entries.find? id = some e → selects filter db e = true →
    db'.entries.find? id = some { e with status := .read }
  outside : ∀ id, ¬inScope filter db id → db'.entries.find? id = db.entries.find? id
  noneUnread : ∀ e ∈ db'.entries, selects filter db' e = true → e.status = .read
  rest : db' = { db with entries := db'.entries, outbox := db'.outbox }

/-- The ids a path lists are as good as the scope's unread entries. -/
structure ListsUnread (filter : EntryFilter) (db : Db) (ids : List EntryId) : Prop where
  unread : ∀ id e, db.entries.find? id = some e → selects filter db e = true →
    e.status = .unread → id ∈ ids
  within : ∀ id ∈ ids, inScope filter db id
  only : listsUnread filter = true → ∀ id ∈ ids, ∀ e, db.entries.find? id = some e →
    e.status = .unread

theorem unread_of_ne_read {s : EntryStatus} (h : s ≠ .read) : s = .unread := by
  cases s
  · rfl
  · exact absurd rfl h

/-- Whatever the path, queueing the ids it lists marks the scope. -/
theorem ListsUnread.scopeMarked {filter : EntryFilter} {db : Db} {ids : List EntryId}
    (h : ListsUnread filter db ids) (now : ℤ) :
    ScopeMarked filter now db (queueRead ids now db) := by
  have hentry : ∀ id e, db.entries.find? id = some e → selects filter db e = true →
      (queueRead ids now db).entries.find? id = some { e with status := .read } := by
    intro id e he hsel
    rw [entries_queueRead, he, Option.map_some]
    by_cases hid : id ∈ ids
    · rw [if_pos hid]
    · have hread : e.status = .read := by
        by_contra hne
        exact hid (h.unread id e he hsel (unread_of_ne_read hne))
      rw [if_neg hid, ← hread]
  have hrest : queueRead ids now db =
      { db with
        entries := (queueRead ids now db).entries
        outbox := (queueRead ids now db).outbox } := tables_queueEach ids (.status .read) now db
  constructor
  case queued =>
    intro id e he hsel hunread
    rw [queueRead_eq, outbox_queueEach, if_pos ⟨h.unread id e he hsel hunread, rfl⟩]
  case others =>
    intro k hk
    rw [queueRead_eq, outbox_queueEach, if_neg]
    rintro ⟨hid, hfield⟩
    exact hk ⟨hfield, h.within _ hid⟩
  case read =>
    intro hlists k e he hread
    rw [queueRead_eq, outbox_queueEach, if_neg]
    rintro ⟨hid, -⟩
    have hunread := h.only hlists _ hid e he
    rw [hread] at hunread
    cases hunread
  case inside => exact hentry
  case outside =>
    intro id hid
    have hnot : id ∉ ids := fun hmem => hid (h.within id hmem)
    rw [entries_queueRead]
    simp [hnot]
  case noneUnread =>
    intro e he hsel
    have hfound := Table.find?_of_mem he
    rw [entries_queueRead] at hfound
    obtain ⟨old, hold, hnew⟩ := Option.map_eq_some_iff.1 hfound
    by_cases hid : e.id ∈ ids
    · rw [if_pos hid] at hnew
      rw [← hnew]
    · rw [if_neg hid] at hnew
      subst hnew
      have hfeeds : (queueRead ids now db).feeds = db.feeds := by rw [hrest]
      have hcategories : (queueRead ids now db).categories = db.categories := by rw [hrest]
      rw [selects_congr hfeeds hcategories] at hsel
      by_contra hne
      exact hid (h.unread _ _ hold hsel (unread_of_ne_read hne))
  case rest => exact hrest

/-! ## The paths -/

theorem mem_entryIdsMatching {filter : EntryFilter} {db : Db} {id : EntryId} :
    id ∈ Store.entryIdsMatching filter db ↔ inScope filter db id := by
  simp only [Store.entryIdsMatching, List.mem_map, List.mem_insertionSort, List.mem_filter]
  constructor
  · rintro ⟨e, ⟨he, hsel⟩, rfl⟩
    exact ⟨e, Table.find?_of_mem he, hsel⟩
  · rintro ⟨e, he, hsel⟩
    exact ⟨e, ⟨Table.mem_of_find? he, hsel⟩, Table.key_of_find? he⟩

theorem mem_unreadOfCategory {categoryId : CategoryId} {db : Db} {id : EntryId} :
    id ∈ unreadOfCategory categoryId db ↔
      ∃ e, db.entries.find? id = some e ∧ e.status = .unread ∧
        selects (.category categoryId) db e = true := by
  have hfeed : ∀ e : EntryRow, ((db.feeds.find? e.feedId).map fun f =>
      decide (f.categoryId = some categoryId)).getD false =
        selects (.category categoryId) db e := by
    intro e
    rw [selects, Bool.eq_iff_iff, List.any_eq_true]
    constructor
    · intro h
      cases hf : db.feeds.find? e.feedId with
      | none => simp [hf] at h
      | some f =>
          refine ⟨f, Table.mem_of_find? hf, ?_⟩
          simpa [hf, Table.key_of_find? hf] using h
    · rintro ⟨f, hf, h⟩
      rw [Bool.and_eq_true, decide_eq_true_eq, decide_eq_true_eq] at h
      rw [← h.1, Table.find?_of_mem hf]
      simp [h.2]
  simp only [unreadOfCategory, hfeed, List.mem_map, List.mem_filter, Bool.and_eq_true,
    decide_eq_true_eq]
  constructor
  · rintro ⟨e, ⟨he, hstatus, hsel⟩, rfl⟩
    exact ⟨e, Table.find?_of_mem he, hstatus, hsel⟩
  · rintro ⟨e, he, hstatus, hsel⟩
    exact ⟨e, ⟨Table.mem_of_find? he, hstatus, hsel⟩, Table.key_of_find? he⟩

theorem lists_entryIdsMatching {filter : EntryFilter} {db : Db}
    (h : listsUnread filter = true → filter = .unread) :
    ListsUnread filter db (Store.entryIdsMatching filter db) where
  unread id e he hsel _ := mem_entryIdsMatching.2 ⟨e, he, hsel⟩
  within _ hid := mem_entryIdsMatching.1 hid
  only hlists id hid e he := by
    obtain ⟨e', he', hsel⟩ := mem_entryIdsMatching.1 hid
    obtain rfl : e' = e := Option.some.inj (he'.symm.trans he)
    rw [h hlists, selects, Bool.and_eq_true, decide_eq_true_eq] at hsel
    exact hsel.1

theorem lists_unreadOfFeed (feedId : FeedId) (db : Db) :
    ListsUnread (.feed feedId) db (unreadOfFeed feedId db) where
  unread id e he hsel hunread := mem_unreadOfFeed.2 ⟨e, he, of_decide_eq_true hsel, hunread⟩
  within id hid := by
    obtain ⟨e, he, hfeed, -⟩ := mem_unreadOfFeed.1 hid
    exact ⟨e, he, decide_eq_true hfeed⟩
  only _ id hid e he := by
    obtain ⟨e', he', -, hunread⟩ := mem_unreadOfFeed.1 hid
    rwa [Option.some.inj (he'.symm.trans he)] at hunread

theorem lists_unreadOfCategory (categoryId : CategoryId) (db : Db) :
    ListsUnread (.category categoryId) db (unreadOfCategory categoryId db) where
  unread id e he hsel hunread := mem_unreadOfCategory.2 ⟨e, he, hunread, hsel⟩
  within id hid := by
    obtain ⟨e, he, -, hsel⟩ := mem_unreadOfCategory.1 hid
    exact ⟨e, he, hsel⟩
  only _ id hid e he := by
    obtain ⟨e', he', hunread, -⟩ := mem_unreadOfCategory.1 hid
    rwa [Option.some.inj (he'.symm.trans he)] at hunread

namespace Shim

open App

theorem markScopeRead_scopeMarked {scope : Scope} {filter : EntryFilter}
    (h : scope.toFilter = some filter) (now : ℤ) (db : Db) :
    ∃ db', markScopeRead scope now db = some db' ∧ ScopeMarked filter now db db' := by
  cases scope <;> cases h
  case unread => exact ⟨_, rfl, (lists_entryIdsMatching fun _ => rfl).scopeMarked now⟩
  case starred => exact ⟨_, rfl, (lists_entryIdsMatching fun h => by cases h).scopeMarked now⟩
  case all => exact ⟨_, rfl, (lists_entryIdsMatching fun h => by cases h).scopeMarked now⟩
  case feed id => exact ⟨_, rfl, (lists_unreadOfFeed id db).scopeMarked now⟩
  case category id => exact ⟨_, rfl, (lists_unreadOfCategory id db).scopeMarked now⟩

/-- The status the reader asks for. -/
def statusOf (read : Bool) : EntryStatus :=
  if read then .read else .unread

theorem db_setReadMany (i : ℕ) (ids : List ℤ) (read : Bool) (now : ℤ) (a : App) :
    (setReadMany i ids read now a).db = queueEach ids (.status (statusOf read)) now a.db := by
  unfold setReadMany
  split
  case isTrue h => rw [List.isEmpty_iff.1 h, queueEach, List.foldl_nil]
  case isFalse => rfl

/-- A starred entry in no feed of the mirror. -/
def starredRow (status : EntryStatus) : Vuo.EntryRow where
  id := 1
  feedId := 3
  status := status
  starred := true
  title := ""
  url := none
  commentsUrl := none
  author := ""
  content := ""
  publishedAt := none
  createdAt := none
  changedAt := none
  readingTime := 0
  tags := []
  lastSeenSync := 0
  contentScraped := false
  arrived := false

def mirrorOf (status : EntryStatus) : Db :=
  { Db.empty with entries := Table.empty.put (starredRow status) }

end Shim

end Vuo
