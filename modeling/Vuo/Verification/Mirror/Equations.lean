import Mathlib.Data.Set.Defs
import Vuo.Model.Effects

/-!
# What the mirror's statements leave behind

Each statement by what a lookup in the entries and in the outbox finds after
it. `held` is what an entry's row shows of a field, `offered` what the server
sent for it.
-/

namespace Vuo

open Foundation

namespace Store

/-- What the server sent for a field of an entry. -/
def offered (f : OutboxField) (e : Entry) : DesiredValue :=
  match f with
  | .status => .status e.status
  | .starred => .starred e.starred

/-- The entries in the mirror. -/
def heldIds (db : Db) : Set EntryId :=
  {id | (db.entries.find? id).isSome = true}

theorem mem_heldIds {db : Db} {id : EntryId} :
    id ∈ heldIds db ↔ (db.entries.find? id).isSome = true :=
  Iff.rfl

instance (db : Db) (id : EntryId) : Decidable (id ∈ heldIds db) :=
  decidable_of_iff _ mem_heldIds.symm

theorem mem_localEntryIds {db : Db} {id : EntryId} :
    id ∈ localEntryIds db ↔ id ∈ heldIds db := by
  simp only [localEntryIds, List.mem_map, mem_heldIds, Option.isSome_iff_exists,
    Table.find?_eq_some, Table.mem_def]

/-! ## Deletions -/

theorem entries_deleteEntriesWhere (p : EntryRow → Bool) (db : Db) (id : EntryId) :
    (db.deleteEntriesWhere p).entries.find? id =
      (db.entries.find? id).filter fun e => !p e :=
  Table.find?_remove p db.entries id

theorem entries_deleteEntry (id : EntryId) (db : Db) (j : EntryId) :
    (deleteEntry id db).entries.find? j =
      if j = id then none else db.entries.find? j := by
  rw [deleteEntry, entries_deleteEntriesWhere]
  cases he : db.entries.find? j with
  | none => simp
  | some e =>
      have hid := Table.key_of_find? he
      by_cases hj : j = id <;> simp_all

theorem mem_heldIds_deleteEntry {id : EntryId} {db : Db} {j : EntryId} :
    j ∈ heldIds (deleteEntry id db) ↔ j ∈ heldIds db ∧ j ≠ id := by
  rw [mem_heldIds, entries_deleteEntry]
  by_cases hj : j = id <;> simp [mem_heldIds, hj]

/-- A transaction of deletions takes away the entries it names and no other. -/
theorem mem_heldIds_deleteEntries {ids : List EntryId} {db : Db} {j : EntryId} :
    j ∈ heldIds (Transaction.exec (ids.map .deleteEntry) db) ↔
      j ∈ heldIds db ∧ j ∉ ids := by
  induction ids generalizing db with
  | nil => simp
  | cons id ids ih =>
      have hexec : Statement.exec (.deleteEntry id) db = deleteEntry id db := rfl
      rw [List.map_cons, Transaction.exec_cons, ih, hexec, mem_heldIds_deleteEntry]
      simp [and_assoc]

theorem outbox_deleteEntry (id : EntryId) (db : Db) (k : EntryId × String) :
    (deleteEntry id db).outbox.find? k =
      if k.1 = id then none else db.outbox.find? k := by
  have hout : (deleteEntry id db).outbox = db.outbox.remove fun r => r.entryId = id := rfl
  rw [hout, Table.find?_remove]
  cases hr : db.outbox.find? k with
  | none => simp
  | some r =>
      have hk := Table.key_of_find? hr
      simp only [OutboxRow.key] at hk
      subst hk
      by_cases hid : r.entryId = id <;> simp [hid]

theorem entries_deleteFeed (id : FeedId) (db : Db) (j : EntryId) :
    (deleteFeed id db).entries.find? j =
      (db.entries.find? j).filter fun e => !decide (e.feedId = id) :=
  entries_deleteEntriesWhere _ _ j

theorem outbox_deleteFeed (id : FeedId) (db : Db) (k : EntryId × String) :
    (deleteFeed id db).outbox.find? k =
      (db.outbox.find? k).filter fun r =>
        !((db.entries.find? r.entryId).map fun e => decide (e.feedId = id)).getD false :=
  Table.find?_remove _ db.outbox k

theorem entries_pruneEntries (cutoff : ℤ) (db : Db) (id : EntryId) :
    (pruneEntries cutoff db).2.entries.find? id =
      (db.entries.find? id).filter fun e => !prunable cutoff db e :=
  entries_deleteEntriesWhere _ db id

theorem outbox_pruneEntries (cutoff : ℤ) (db : Db) :
    (pruneEntries cutoff db).2.outbox = db.outbox :=
  rfl

/-- What retention may forget. -/
theorem prunable_iff {cutoff : ℤ} {db : Db} {e : EntryRow} :
    prunable cutoff db e = true ↔
      e.status = .read ∧ e.starred = false ∧
        (e.publishedAt.or e.createdAt).getD 0 < cutoff ∧
        ∀ r ∈ db.outbox, r.entryId ≠ e.id := by
  simp [prunable, Table.mem_def, and_assoc]

/-! ## Upserts -/

/-- The row an upsert would insert. -/
def insertedRow (e : Entry) (generation : ℤ) (arrival : Arrival) (db : Db) : EntryRow :=
  entryRow e (resolveStatus e db) (resolveStarred e db) generation
    (arrival = .announce && resolveStatus e db = .unread)

/-- The row an upsert leaves for its own entry. -/
def upserted (e : Entry) (generation : ℤ) (arrival : Arrival) (db : Db) : EntryRow :=
  let row := insertedRow e generation arrival db
  (db.entries.find? e.id).elim row (refreshed row)

theorem entries_upsertEntry (e : Entry) (generation : ℤ) (arrival : Arrival)
    (db : Db) (j : EntryId) :
    (upsertEntry e generation arrival db).entries.find? j =
      if e.id = j then some (upserted e generation arrival db)
      else db.entries.find? j := by
  have hentries := Table.find?_upsert (insertedRow e generation arrival db)
    (refreshed (insertedRow e generation arrival db)) (refreshed_id _) db.entries j
  refine hentries.trans ?_
  have hid : (insertedRow e generation arrival db).id = e.id := rfl
  rw [hid]
  by_cases hj : e.id = j
  · subst hj
    rfl
  · rw [if_neg hj, if_neg hj]

theorem outbox_upsertEntry (e : Entry) (generation : ℤ) (arrival : Arrival) (db : Db) :
    (upsertEntry e generation arrival db).outbox = db.outbox :=
  rfl

theorem pendingFor_field {id : EntryId} {f : OutboxField} {db : Db} {v : DesiredValue}
    (h : Outbox.pendingFor id f db = some v) : v.field = f := by
  obtain ⟨r, hr, hparse⟩ := Option.bind_eq_some_iff.1 h
  have hkey := Table.key_of_find? hr
  simp only [OutboxRow.key, Prod.mk.injEq] at hkey
  refine OutboxField.asStr_injective ?_
  rw [← hkey.2, (DesiredValue.parse_eq_some.1 hparse).1]

/-- An upsert takes the server's value exactly where nothing is pending. -/
theorem held_upserted (e : Entry) (generation : ℤ) (arrival : Arrival) (db : Db)
    (f : OutboxField) :
    DesiredValue.held f (upserted e generation arrival db) =
      (Outbox.pendingFor e.id f db).getD (offered f e) := by
  have hrefreshed : ∀ row : EntryRow,
      DesiredValue.held f ((db.entries.find? e.id).elim row (refreshed row)) =
        DesiredValue.held f row := by
    intro row
    cases db.entries.find? e.id <;> cases f <;> rfl
  rw [upserted, hrefreshed]
  cases f with
  | status =>
      cases hp : Outbox.pendingFor e.id .status db with
      | none => simp [DesiredValue.held, insertedRow, entryRow, resolveStatus, hp, offered]
      | some v =>
          have hv := pendingFor_field hp
          cases v with
          | status s => simp [DesiredValue.held, insertedRow, entryRow, resolveStatus, hp]
          | starred b => cases hv
  | starred =>
      cases hp : Outbox.pendingFor e.id .starred db with
      | none => simp [DesiredValue.held, insertedRow, entryRow, resolveStarred, hp, offered]
      | some v =>
          have hv := pendingFor_field hp
          cases v with
          | status s => cases hv
          | starred b => simp [DesiredValue.held, insertedRow, entryRow, resolveStarred, hp]

/-! ## Updates -/

theorem entries_updateEntry (id : EntryId) (f : EntryRow → EntryRow)
    (hf : ∀ e, (f e).id = e.id) (db : Db) (j : EntryId) :
    (db.updateEntry id f hf).entries.find? j =
      (db.entries.find? j).map fun e => if j = id then f e else e := by
  rw [Db.updateEntry, Table.find?_update]
  cases he : db.entries.find? j with
  | none => rfl
  | some e => simp [Table.key_of_find? he]

theorem acknowledgeArrivals_outbox (ids : List EntryId) (db : Db) :
    (acknowledgeArrivals ids db).outbox = db.outbox := by
  induction ids generalizing db with
  | nil => rfl
  | cons id ids ih => exact ih _

theorem outbox_placeholderCategory (id : CategoryId) (db : Db) :
    (placeholderCategory id db).outbox = db.outbox ∧
      (placeholderCategory id db).entries = db.entries := by
  unfold placeholderCategory
  split <;> exact ⟨rfl, rfl⟩

end Store

end Vuo
