import Vuo.Verification.Mirror.View

/-!
# Pending intent wins

Whatever transactions a fresh database has seen, the mirror shows every queued
value, and an upsert takes the server's value of a field exactly where nothing
is queued for it.
-/

namespace Vuo

open Foundation Outbox Store

/-- The mirror shows every queued value of the entries it holds. -/
def PendingWins (db : Db) : Prop :=
  ∀ id f v w, pendingFor id f db = some v → shown id f db = some w → w = v

/-- Every outbox row is one this build understands. -/
def Understood (db : Db) : Prop :=
  ∀ r ∈ db.outbox, ∃ v, DesiredValue.parse r.field r.value = some v

/-! ## Steps that only forget -/

/-- Nothing is queued or shown that was not before. -/
structure Forgets (db db' : Db) : Prop where
  intents : ∀ id f v, pendingFor id f db' = some v → pendingFor id f db = some v
  values : ∀ id f w, shown id f db' = some w → shown id f db = some w

theorem Store.SameView.forgets {db db' : Db} (h : SameView db db') : Forgets db db' :=
  ⟨fun id f _ hv => h.intents id f ▸ hv, fun id f _ hw => h.values id f ▸ hw⟩

theorem Forgets.pendingWins {db db' : Db} (h : Forgets db db') (hdb : PendingWins db) :
    PendingWins db' :=
  fun id f v w hv hw => hdb id f v w (h.intents id f v hv) (h.values id f w hw)

theorem forgets_confirm (batch : Batch) (db : Db) :
    Forgets db (confirm batch db).2 := by
  constructor
  · intro id f v hv
    rw [pendingFor_confirm] at hv
    exact (Option.filter_eq_some_iff.1 hv).1
  · intro id f w hw
    rwa [shown_confirm] at hw

theorem forgets_deleteFeed (id : FeedId) (db : Db) : Forgets db (deleteFeed id db) := by
  constructor
  · intro j f v hv
    rw [pendingFor_deleteFeed] at hv
    split at hv
    · cases hv
    · exact hv
  · intro j f w hw
    rw [shown_deleteFeed] at hw
    split at hw
    · cases hw
    · exact hw

theorem forgets_deleteEntry (id : EntryId) (db : Db) : Forgets db (deleteEntry id db) := by
  constructor
  · intro j f v hv
    rw [pendingFor_deleteEntry] at hv
    split at hv
    · cases hv
    · exact hv
  · intro j f w hw
    rw [shown_deleteEntry] at hw
    split at hw
    · cases hw
    · exact hw

theorem forgets_pruneEntries (cutoff : ℤ) (db : Db) :
    Forgets db (pruneEntries cutoff db).2 := by
  constructor
  · intro j f v hv
    exact hv
  · intro j f w hw
    rw [shown_pruneEntries] at hw
    split at hw
    · cases hw
    · exact hw

/-! ## Steps that write -/

theorem pendingWins_queue (id : EntryId) (v : DesiredValue) (now : ℤ) {db : Db}
    (hdb : PendingWins db) : PendingWins (queue id v now db) := by
  intro j f p w hp hw
  rw [pendingFor_queue] at hp
  rw [shown_queue] at hw
  obtain ⟨w', hw', rfl⟩ := Option.map_eq_some_iff.1 hw
  split at hp
  case isTrue h =>
    rw [if_pos h]
    exact Option.some.inj hp
  case isFalse h =>
    rw [if_neg h]
    exact hdb j f p w' hp hw'

theorem pendingWins_queueRead (ids : List EntryId) (now : ℤ) {db : Db}
    (hdb : PendingWins db) : PendingWins (queueRead ids now db) := by
  induction ids generalizing db with
  | nil => exact hdb
  | cons id ids ih => exact ih (pendingWins_queue id _ now hdb)

theorem pendingWins_upsertEntry (e : Entry) (generation : ℤ) (arrival : Arrival)
    {db : Db} (hdb : PendingWins db) :
    PendingWins (upsertEntry e generation arrival db) := by
  intro j f v w hv hw
  rw [pendingFor_upsertEntry] at hv
  rw [shown_upsertEntry] at hw
  split at hw
  · rw [hv] at hw
    exact (Option.some.inj hw).symm
  · exact hdb j f v w hv hw

theorem pendingWins_exec (s : Statement) {db : Db} (hdb : PendingWins db) :
    PendingWins (s.exec db) := by
  have hkeep : bookkeeping s = true → PendingWins (s.exec db) := fun h =>
    (sameView_of_bookkeeping h db).forgets.pendingWins hdb
  cases s with
  | queue id v now => exact pendingWins_queue id v now hdb
  | queueMarkFeedRead feedId now => exact pendingWins_queueRead _ now hdb
  | queueMarkCategoryRead categoryId now => exact pendingWins_queueRead _ now hdb
  | confirm batch => exact (forgets_confirm batch db).pendingWins hdb
  | discard batch => exact (forgets_confirm batch db).pendingWins hdb
  | deleteFeed id => exact (forgets_deleteFeed id db).pendingWins hdb
  | upsertEntry e generation arrival => exact pendingWins_upsertEntry e generation arrival hdb
  | deleteEntry id => exact (forgets_deleteEntry id db).pendingWins hdb
  | pruneEntries cutoff => exact (forgets_pruneEntries cutoff db).pendingWins hdb
  | _ => exact hkeep rfl

/-! ## Rows stay understood -/

theorem understood_of_find? {db db' : Db} (hdb : Understood db)
    (h : ∀ k r', db'.outbox.find? k = some r' →
      (∃ r, db.outbox.find? k = some r ∧ r'.field = r.field ∧ r'.value = r.value) ∨
        ∃ v, DesiredValue.parse r'.field r'.value = some v) :
    Understood db' := by
  intro r' hr'
  rcases h _ r' (Table.find?_of_mem hr') with ⟨r, hr, hfield, hvalue⟩ | hparse
  · rw [hfield, hvalue]
    exact hdb r (Table.mem_of_find? hr)
  · exact hparse

theorem understood_queue (id : EntryId) (v : DesiredValue) (now : ℤ) {db : Db}
    (hdb : Understood db) : Understood (queue id v now db) := by
  refine understood_of_find? hdb fun k r' hr' => ?_
  rw [queue_outbox] at hr'
  split at hr'
  · cases hr'
    exact .inr ⟨v, DesiredValue.parse_asStr v⟩
  · exact .inl ⟨r', hr', rfl, rfl⟩

theorem understood_queueRead (ids : List EntryId) (now : ℤ) {db : Db}
    (hdb : Understood db) : Understood (queueRead ids now db) := by
  induction ids generalizing db with
  | nil => exact hdb
  | cons id ids ih => exact ih (understood_queue id _ now hdb)

theorem understood_of_filter {db db' : Db} (hdb : Understood db)
    (h : ∀ k, ∃ p, db'.outbox.find? k = (db.outbox.find? k).filter p) :
    Understood db' := by
  refine understood_of_find? hdb fun k r' hr' => ?_
  obtain ⟨p, hp⟩ := h k
  rw [hp] at hr'
  exact .inl ⟨r', (Option.filter_eq_some_iff.1 hr').1, rfl, rfl⟩

theorem understood_of_outbox {db db' : Db} (hdb : Understood db)
    (h : db'.outbox = db.outbox) : Understood db' := by
  intro r hr
  rw [h] at hr
  exact hdb r hr

theorem understood_recordFailure (batch : Batch) (error : String) {db : Db}
    (hdb : Understood db) : Understood (recordFailure batch error db) := by
  refine understood_of_find? hdb fun k r' hr' => ?_
  rw [recordFailure_outbox] at hr'
  obtain ⟨r, hr, rfl⟩ := Option.map_eq_some_iff.1 hr'
  exact .inl ⟨r, hr, rfl, rfl⟩

theorem outbox_of_bookkeeping {s : Statement} (h : bookkeeping s = true) (db : Db) :
    (∃ batch error, s = .recordFailure batch error) ∨ (s.exec db).outbox = db.outbox := by
  cases s <;> cases h
  case recordFailure batch error => exact .inl ⟨batch, error, rfl⟩
  case upsertFeed f generation =>
    refine .inr ?_
    simp only [Statement.exec, Statement.run, upsertFeed]
    split
    · exact (outbox_placeholderCategory _ db).1
    · rfl
  case acknowledgeArrivals ids => exact .inr (acknowledgeArrivals_outbox ids db)
  case applyFeedPatch feedId update =>
    refine .inr ?_
    obtain ⟨title, categoryId, crawler, disabled, hideGlobally⟩ := update
    cases categoryId with
    | none =>
        cases title <;> cases crawler <;> cases disabled <;> cases hideGlobally <;> rfl
    | some category =>
        have hplace : ∀ db, (placeholderCategory category db).outbox = db.outbox :=
          fun db => (outbox_placeholderCategory category db).1
        cases title <;> cases crawler <;> cases disabled <;> cases hideGlobally <;>
          exact hplace _
  all_goals exact .inr rfl

theorem understood_exec (s : Statement) {db : Db} (hdb : Understood db) :
    Understood (s.exec db) := by
  have hkeep : bookkeeping s = true → Understood (s.exec db) := by
    intro h
    rcases outbox_of_bookkeeping h db with ⟨batch, error, rfl⟩ | hout
    · exact understood_recordFailure batch error hdb
    · exact understood_of_outbox hdb hout
  cases s with
  | queue id v now => exact understood_queue id v now hdb
  | queueMarkFeedRead feedId now => exact understood_queueRead _ now hdb
  | queueMarkCategoryRead categoryId now => exact understood_queueRead _ now hdb
  | confirm batch => exact understood_of_filter hdb fun k => ⟨_, confirm_outbox batch db k⟩
  | discard batch => exact understood_of_filter hdb fun k => ⟨_, confirm_outbox batch db k⟩
  | deleteFeed id => exact understood_of_filter hdb fun k => ⟨_, outbox_deleteFeed id db k⟩
  | upsertEntry e generation arrival => exact understood_of_outbox hdb rfl
  | deleteEntry id =>
      exact understood_of_filter hdb fun k => ⟨_, Table.find?_remove _ db.outbox k⟩
  | pruneEntries cutoff => exact understood_of_outbox hdb rfl
  | _ => exact hkeep rfl

/-! ## Every reachable database -/

/-- The databases some sequence of committed transactions makes of a fresh
one. -/
inductive Reachable : Db → Prop
  | fresh : Reachable Db.empty
  | commit {db : Db} (body : Transaction) (h : Reachable db) :
      Reachable (body.exec db)

theorem Reachable.pendingWins {db : Db} (h : Reachable db) : PendingWins db := by
  induction h with
  | fresh =>
      intro id f v w hv
      cases hv
  | commit body _ ih =>
      exact Transaction.exec_invariant (fun s _ _ hdb => pendingWins_exec s hdb) ih

theorem Reachable.understood {db : Db} (h : Reachable db) : Understood db := by
  induction h with
  | fresh =>
      intro r hr
      exact absurd hr (Table.notMem_empty r)
  | commit body _ ih =>
      exact Transaction.exec_invariant (fun s _ _ hdb => understood_exec s hdb) ih

/-- In every reachable database the mirror shows what is queued, and an upsert
resolves each field for itself: by its outbox row where it has one, and by the
server's value where it has none. -/
theorem pending_intent_wins {db : Db} (h : Reachable db) :
    (∀ r ∈ db.outbox, ∀ v, DesiredValue.parse r.field r.value = some v →
      ∀ e ∈ db.entries, e.id = r.entryId → DesiredValue.held v.field e = v) ∧
    ∀ (e : Entry) (generation : ℤ) (arrival : Arrival), ∃ row,
      (upsertEntry e generation arrival db).entries.find? e.id = some row ∧
      ∀ f : OutboxField,
        (∀ r, db.outbox.find? (e.id, f.asStr) = some r →
          DesiredValue.parse r.field r.value = some (DesiredValue.held f row)) ∧
        (db.outbox.find? (e.id, f.asStr) = none →
          DesiredValue.held f row = offered f e) := by
  constructor
  · intro r hr v hparse e he hid
    obtain ⟨hfield, -⟩ := DesiredValue.parse_eq_some.1 hparse
    have hrow : db.outbox.find? (e.id, v.field.asStr) = some r := by
      rw [hid, ← hfield]
      exact Table.find?_of_mem hr
    have hpending : pendingFor e.id v.field db = some v := by
      rw [pendingFor, hrow]
      exact hparse
    have hshown : shown e.id v.field db = some (DesiredValue.held v.field e) := by
      rw [shown, Table.find?_of_mem he]
      rfl
    exact h.pendingWins e.id v.field v _ hpending hshown
  · intro e generation arrival
    refine ⟨upserted e generation arrival db, ?_, ?_⟩
    · rw [entries_upsertEntry, if_pos rfl]
    · intro f
      constructor
      · intro r hr
        obtain ⟨v, hv⟩ := h.understood r (Table.mem_of_find? hr)
        rw [held_upserted, pendingFor, hr, Option.bind_some, hv]
        rfl
      · intro hnone
        rw [held_upserted, pendingFor, hnone]
        rfl

/-- A mirror in which nothing happened but that entry 7 was starred. -/
def starredDb : Db :=
  Transaction.exec [.queue 7 (.starred true) 0] Db.empty

/-- Entry 7 as the server sends it: unread and not starred. -/
def unstarredEntry : Entry where
  id := 7
  feedId := 1
  status := .unread
  starred := false
  title := ""
  url := none
  commentsUrl := none
  author := ""
  content := ""
  publishedAt := none
  createdAt := none
  changedAt := none
  readingTime := 0
  tags := []
  enclosures := []

/-- The star stays, the read state is the server's. -/
theorem pending_intent_wins_starred :
    ∃ row, (upsertEntry unstarredEntry 1 .quiet starredDb).entries.find? 7 = some row ∧
      row.starred = true ∧ row.status = .unread := by
  have hreach : Reachable starredDb := .commit _ .fresh
  obtain ⟨row, hrow, hheld⟩ := (pending_intent_wins hreach).2 unstarredEntry 1 .quiet
  have hstarred := (hheld .starred).1 (intentRow 7 (.starred true) 0) rfl
  have hstatus := (hheld .status).2 rfl
  refine ⟨row, hrow, ?_, ?_⟩
  · have hval : DesiredValue.starred true = .starred row.starred := Option.some.inj hstarred
    exact (DesiredValue.starred.inj hval).symm
  · exact DesiredValue.status.inj hstatus

end Vuo
