import Vuo.Verification.Mirror.PendingWins

/-!
# Who takes what away

The statements that leave every entry and every intent in place, and what the
transactions of deletions remove.
-/

namespace Vuo

open Foundation Outbox

namespace Store

/-- Every entry and every intent is still there. -/
structure Spares (db db' : Db) : Prop where
  entries : ∀ id ∈ heldIds db, id ∈ heldIds db'
  intents : ∀ k r, db.outbox.find? k = some r →
    ∃ r', db'.outbox.find? k = some r' ∧ r'.value = r.value

theorem Spares.refl (db : Db) : Spares db db :=
  ⟨fun _ h => h, fun _ r h => ⟨r, h, rfl⟩⟩

theorem Spares.trans {db₁ db₂ db₃ : Db} (h₁ : Spares db₁ db₂) (h₂ : Spares db₂ db₃) :
    Spares db₁ db₃ where
  entries := fun id hid => h₂.entries id (h₁.entries id hid)
  intents := by
    intro k r hr
    obtain ⟨r', hr', hvalue⟩ := h₁.intents k r hr
    obtain ⟨r'', hr'', hvalue'⟩ := h₂.intents k r' hr'
    exact ⟨r'', hr'', hvalue'.trans hvalue⟩

theorem mem_heldIds_iff_shown {db : Db} {id : EntryId} (f : OutboxField) :
    id ∈ heldIds db ↔ (shown id f db).isSome = true := by
  rw [mem_heldIds, shown, Option.isSome_map]

theorem spares_of_bookkeeping {s : Statement} (h : bookkeeping s = true) (db : Db) :
    Spares db (s.exec db) where
  entries := by
    intro id hid
    rw [mem_heldIds_iff_shown .status] at hid ⊢
    rwa [(sameView_of_bookkeeping h db).values]
  intents := by
    intro k r hr
    rcases outbox_of_bookkeeping h db with ⟨batch, error, rfl⟩ | hout
    · refine ⟨chargedFor batch batch.entryIds error r, ?_, rfl⟩
      have hexec : (Statement.recordFailure batch error).exec db =
          recordFailure batch error db := rfl
      rw [hexec, recordFailure_outbox, hr]
      rfl
    · exact ⟨r, hout ▸ hr, rfl⟩

theorem spares_upsertEntry (e : Entry) (generation : ℤ) (arrival : Arrival) (db : Db) :
    Spares db (upsertEntry e generation arrival db) where
  entries := by
    intro id hid
    rw [mem_heldIds, entries_upsertEntry]
    split
    · rfl
    · exact hid
  intents := fun k r hr => ⟨r, hr, rfl⟩

end Store

open Store

/-- The statements that take nothing away. -/
def Statement.RemovesNothing : Statement → Prop
  | .upsertEntry .. => True
  | s => bookkeeping s = true

theorem spares_exec {s : Statement} (h : s.RemovesNothing) (db : Db) : Spares db (s.exec db) := by
  cases s with
  | upsertEntry e generation arrival => exact spares_upsertEntry e generation arrival db
  | _ => exact spares_of_bookkeeping h db

theorem spares_transaction {body : Transaction} (h : ∀ s ∈ body, s.RemovesNothing) (db : Db) :
    Spares db (body.exec db) :=
  Transaction.exec_invariant (P := fun db' => Spares db db')
    (fun s hs db' hdb => hdb.trans (spares_exec (h s hs) db')) (.refl db)

namespace Store

/-! ## Deletions of several entries or feeds -/

theorem outbox_deleteEntries (ids : List EntryId) (db : Db) (k : EntryId × String) :
    (Transaction.exec (ids.map .deleteEntry) db).outbox.find? k =
      if k.1 ∈ ids then none else db.outbox.find? k := by
  induction ids generalizing db with
  | nil => simp
  | cons id ids ih =>
      have hexec : Statement.exec (.deleteEntry id) db = deleteEntry id db := rfl
      rw [List.map_cons, Transaction.exec_cons, ih, hexec, outbox_deleteEntry]
      by_cases hk : k.1 = id <;> simp [hk]

theorem entries_deleteFeeds (ids : List FeedId) (db : Db) (j : EntryId) :
    (Transaction.exec (ids.map .deleteFeed) db).entries.find? j =
      (db.entries.find? j).filter fun e => !decide (e.feedId ∈ ids) := by
  induction ids generalizing db with
  | nil => cases he : db.entries.find? j <;> simp [Option.filter, he]
  | cons id ids ih =>
      have hexec : Statement.exec (.deleteFeed id) db = deleteFeed id db := rfl
      rw [List.map_cons, Transaction.exec_cons, ih, hexec, entries_deleteFeed, Option.filter_filter]
      congr 1
      funext e
      by_cases he : e.feedId = id <;> simp [he]

/-- An intent goes with the entry of a deleted feed, and with no other. -/
theorem outbox_deleteFeeds (ids : List FeedId) (db : Db) (k : EntryId × String) :
    (Transaction.exec (ids.map .deleteFeed) db).outbox.find? k =
      (db.outbox.find? k).filter fun r =>
        !((db.entries.find? r.entryId).map fun e => decide (e.feedId ∈ ids)).getD false := by
  induction ids generalizing db with
  | nil =>
      cases hr : db.outbox.find? k with
      | none => simpa using hr
      | some r => cases he : db.entries.find? r.entryId <;> simp [Option.filter, hr, he]
  | cons id ids ih =>
      have hexec : Statement.exec (.deleteFeed id) db = deleteFeed id db := rfl
      rw [List.map_cons, Transaction.exec_cons, ih, hexec, outbox_deleteFeed, Option.filter_filter]
      congr 1
      funext r
      rw [entries_deleteFeed]
      cases db.entries.find? r.entryId with
      | none => rfl
      | some e => by_cases he : e.feedId = id <;> simp [Option.filter, he]

end Store

end Vuo
