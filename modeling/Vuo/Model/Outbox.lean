import Mathlib.Data.List.Sort
import Vuo.Model.Database

/-!
# The offline write path

Queued intents are a map from an entry and a field to the value the reader
wants there. Queueing writes the mirror as well; replay clears a row only where
it still holds the value that was sent.
-/

namespace Vuo

open Foundation

inductive OutboxField
  | status
  | starred
  deriving DecidableEq

namespace OutboxField

def asStr : OutboxField → String
  | status => "status"
  | starred => "starred"

theorem asStr_injective : Function.Injective asStr := by
  intro f g h
  cases f <;> cases g <;> first | rfl | simp [asStr] at h

end OutboxField

/-- A desired absolute value. -/
inductive DesiredValue
  | status (s : EntryStatus)
  | starred (b : Bool)
  deriving DecidableEq

namespace DesiredValue

def field : DesiredValue → OutboxField
  | status _ => .status
  | starred _ => .starred

def asStr : DesiredValue → String
  | status .read => "read"
  | status .unread => "unread"
  | starred true => "true"
  | starred false => "false"

def parse (field value : String) : Option DesiredValue :=
  match field, value with
  | "status", "read" => some (status .read)
  | "status", "unread" => some (status .unread)
  | "starred", "true" => some (starred true)
  | "starred", "false" => some (starred false)
  | _, _ => none

@[simp]
theorem parse_asStr (v : DesiredValue) : parse v.field.asStr v.asStr = some v := by
  rcases v with (_ | _) | (_ | _) <;> rfl

theorem parse_eq_some {field value : String} {v : DesiredValue} :
    parse field value = some v ↔ field = v.field.asStr ∧ value = v.asStr := by
  constructor
  · intro h
    unfold parse at h
    split at h <;> cases h <;> exact ⟨rfl, rfl⟩
  · rintro ⟨rfl, rfl⟩
    exact parse_asStr v

theorem asStr_inj {v w : DesiredValue} (hfield : v.field = w.field)
    (h : v.asStr = w.asStr) : v = w := by
  have hv := parse_asStr v
  rw [hfield, h, parse_asStr] at hv
  exact (Option.some.inj hv).symm

/-- In the order of the source's derived comparison. -/
def all : List DesiredValue :=
  [status .unread, status .read, starred false, starred true]

theorem mem_all (v : DesiredValue) : v ∈ all := by
  rcases v with (_ | _) | (_ | _) <;> simp [all]

/-- The value written into an entry's row. -/
def applyTo (v : DesiredValue) (e : EntryRow) : EntryRow :=
  match v with
  | status s => { e with status := s }
  | starred b => { e with starred := b }

theorem applyTo_id (v : DesiredValue) (e : EntryRow) : (v.applyTo e).id = e.id := by
  cases v <;> rfl

/-- What an entry's row holds in a field. -/
def held (f : OutboxField) (e : EntryRow) : DesiredValue :=
  match f with
  | .status => status e.status
  | .starred => starred e.starred

@[simp]
theorem held_field (f : OutboxField) (e : EntryRow) : (held f e).field = f := by
  cases f <;> rfl

theorem held_applyTo (v : DesiredValue) (e : EntryRow) (f : OutboxField) :
    held f (v.applyTo e) = if v.field = f then v else held f e := by
  cases v <;> cases f <;> rfl

end DesiredValue

structure PendingMutation where
  entryId : EntryId
  value : DesiredValue
  attempts : ℕ

/-- Intents sharing a field and a value: one request. -/
structure Batch where
  value : DesiredValue
  entryIds : List EntryId
  deriving DecidableEq

namespace Outbox

def maxIdsPerRequest : ℕ := 500

/-! ## Queueing -/

/-- The row a queued intent is stored as. -/
def intentRow (entryId : EntryId) (value : DesiredValue) (now : ℤ) : OutboxRow where
  entryId := entryId
  field := value.field.asStr
  value := value.asStr
  queuedAt := now
  attempts := 0
  lastError := none

/-- A held row taken over by a newer intent for the same field: a fresh retry
budget. -/
def requeued (intent held : OutboxRow) : OutboxRow :=
  { held with
    value := intent.value
    queuedAt := intent.queuedAt
    attempts := 0
    lastError := none }

theorem requeued_key (intent held : OutboxRow) : (requeued intent held).key = held.key :=
  rfl

/-- Queue an intent and apply it locally. -/
def queue (entryId : EntryId) (value : DesiredValue) (now : ℤ) (db : Db) : Db :=
  let intent := intentRow entryId value now
  { db with
    outbox := db.outbox.upsert intent (requeued intent) (requeued_key intent)
    : Db }.updateEntry entryId value.applyTo value.applyTo_id

/-- Queue `read` for each of the entries named. -/
def queueRead (ids : List EntryId) (now : ℤ) (db : Db) : Db :=
  ids.foldl (fun db id => queue id (.status .read) now db) db

/-- The unread entries of one feed. -/
def unreadOfFeed (feedId : FeedId) (db : Db) : List EntryId :=
  (db.entries.rows.filter fun e =>
    e.feedId = feedId && e.status = .unread).map EntryRow.id

/-- The unread entries of the feeds of one category. -/
def unreadOfCategory (categoryId : CategoryId) (db : Db) : List EntryId :=
  (db.entries.rows.filter fun e =>
    e.status = .unread &&
      ((db.feeds.find? e.feedId).map fun f =>
        decide (f.categoryId = some categoryId)).getD false).map EntryRow.id

def queueMarkFeedRead (feedId : FeedId) (now : ℤ) (db : Db) : ℕ × Db :=
  let ids := unreadOfFeed feedId db
  (ids.length, queueRead ids now db)

def queueMarkCategoryRead (categoryId : CategoryId) (now : ℤ) (db : Db) :
    ℕ × Db :=
  let ids := unreadOfCategory categoryId db
  (ids.length, queueRead ids now db)

/-! ## Reading -/

/-- Oldest first, then by entry. -/
def queuedBefore (r s : OutboxRow) : Prop :=
  r.queuedAt < s.queuedAt ∨ r.queuedAt = s.queuedAt ∧ r.entryId ≤ s.entryId

instance : DecidableRel queuedBefore := fun r s =>
  inferInstanceAs (Decidable
    (r.queuedAt < s.queuedAt ∨ r.queuedAt = s.queuedAt ∧ r.entryId ≤ s.entryId))

/-- Every pending intent this build understands, oldest first. -/
def pending (db : Db) : List PendingMutation :=
  (db.outbox.rows.insertionSort queuedBefore).filterMap fun r =>
    (DesiredValue.parse r.field r.value).map fun value =>
      { entryId := r.entryId, value := value, attempts := r.attempts }

/-- The pending intent for one entry and field. -/
def pendingFor (entryId : EntryId) (field : OutboxField) (db : Db) :
    Option DesiredValue :=
  (db.outbox.find? (entryId, field.asStr)).bind fun r =>
    DesiredValue.parse r.field r.value

/-- One request per value, chunked. -/
def batches (pending : List PendingMutation) : List Batch :=
  DesiredValue.all.flatMap fun value =>
    (chunks maxIdsPerRequest
      ((pending.filter fun item => item.value = value).map
        PendingMutation.entryId)).map fun ids =>
      { value := value, entryIds := ids }

def len (db : Db) : ℕ :=
  db.outbox.rows.length

/-! ## Recording what became of a batch -/

/-- Whether a row is the intent a batch sent for entry `id`. -/
def sent (batch : Batch) (id : EntryId) (r : OutboxRow) : Bool :=
  r.entryId = id && r.field = batch.value.field.asStr &&
    r.value = batch.value.asStr

/-- Clear a batch after the server confirmed it: compare and delete. -/
def confirm (batch : Batch) (db : Db) : ℕ × Db :=
  batch.entryIds.foldl
    (fun (cleared, db) id =>
      (cleared + (db.outbox.rows.filter (sent batch id)).length,
        { db with outbox := db.outbox.remove (sent batch id) }))
    (0, db)

/-- A row charged with one failed attempt. -/
def charged (error : String) (r : OutboxRow) : OutboxRow :=
  { r with attempts := r.attempts + 1, lastError := some error }

theorem charged_key (error : String) (r : OutboxRow) : (charged error r).key = r.key :=
  rfl

/-- Record a failed attempt and keep the intent. -/
def recordFailure (batch : Batch) (error : String) (db : Db) : Db :=
  batch.entryIds.foldl
    (fun db id =>
      { db with outbox := db.outbox.update (sent batch id) (charged error) (charged_key error) })
    db

/-- Drop a batch whose failure is permanent. -/
def discard (batch : Batch) (db : Db) : ℕ × Db :=
  confirm batch db

/-! ## What a lookup finds afterwards -/

theorem queue_outbox (id : EntryId) (v : DesiredValue) (now : ℤ) (db : Db)
    (k : EntryId × String) :
    (queue id v now db).outbox.find? k =
      if k = (id, v.field.asStr) then some (intentRow id v now)
      else db.outbox.find? k := by
  have hkey : (intentRow id v now).key = (id, v.field.asStr) := rfl
  rw [queue, Db.updateEntry, Table.find?_upsert, hkey]
  by_cases hk : k = (id, v.field.asStr)
  · subst hk
    rw [if_pos rfl, if_pos rfl]
    cases hold : db.outbox.find? (id, v.field.asStr) with
    | none => rfl
    | some old =>
        have hold_key := Table.key_of_find? hold
        simp only [OutboxRow.key, Prod.mk.injEq] at hold_key
        simp [requeued, intentRow, ← hold_key.1, ← hold_key.2]
  · rw [if_neg (fun h => hk h.symm), if_neg hk]

theorem queue_entries (id : EntryId) (v : DesiredValue) (now : ℤ) (db : Db)
    (j : EntryId) :
    (queue id v now db).entries.find? j =
      (db.entries.find? j).map fun e => if j = id then v.applyTo e else e := by
  rw [queue, Db.updateEntry, Table.find?_update]
  cases he : db.entries.find? j with
  | none => rfl
  | some e => simp [Table.key_of_find? he]

/-- Whether a batch sent the intent a row holds. -/
def covers (batch : Batch) (r : OutboxRow) : Bool :=
  batch.entryIds.any (sent batch · r)

theorem covers_iff {batch : Batch} {r : OutboxRow} :
    covers batch r = true ↔
      r.entryId ∈ batch.entryIds ∧ r.field = batch.value.field.asStr ∧
        r.value = batch.value.asStr := by
  simp [covers, sent, and_assoc]

/-- Confirming a batch removes the rows it sent and changes nothing else. -/
theorem confirm_db (batch : Batch) (db : Db) :
    (confirm batch db).2 = { db with outbox := db.outbox.remove (covers batch) } := by
  have hfold : ∀ (ids : List EntryId) (n : ℕ) (db : Db),
      (ids.foldl
        (fun (cleared, db) id =>
          (cleared + (db.outbox.rows.filter (sent batch id)).length,
            { db with outbox := db.outbox.remove (sent batch id) }))
        (n, db)).2 =
        { db with
          outbox := db.outbox.remove fun r => ids.any (sent batch · r) } := by
    intro ids
    induction ids with
    | nil =>
        intro n db
        have hsame : db.outbox.remove (fun _ => false) = db.outbox := by
          ext1
          simp [Table.remove]
        simp [hsame]
    | cons id ids ih =>
        intro n db
        rw [List.foldl_cons, ih]
        congr 1
        ext1
        simp only [Table.remove, List.filter_filter, List.any_cons]
        congr 1
        funext r
        simp [Bool.and_comm]
  exact hfold batch.entryIds 0 db

theorem confirm_outbox (batch : Batch) (db : Db) (k : EntryId × String) :
    (confirm batch db).2.outbox.find? k =
      (db.outbox.find? k).filter fun r => !covers batch r := by
  rw [confirm_db, Table.find?_remove]

/-- A row after the failures of the requests for `ids` were recorded on it. -/
def chargedFor (batch : Batch) (ids : List EntryId) (error : String)
    (r : OutboxRow) : OutboxRow :=
  { r with
    attempts := r.attempts + ids.countP (sent batch · r)
    lastError := if ids.any (sent batch · r) then some error else r.lastError }

theorem chargedFor_key (batch : Batch) (ids : List EntryId) (error : String)
    (r : OutboxRow) : (chargedFor batch ids error r).key = r.key :=
  rfl

/-- Recording a failure touches nothing but the failure fields of rows. -/
theorem recordFailure_db (batch : Batch) (error : String) (db : Db) :
    recordFailure batch error db =
      { db with
        outbox := db.outbox.update (fun _ => true)
          (chargedFor batch batch.entryIds error)
          (chargedFor_key batch batch.entryIds error) } := by
  have hfold : ∀ (ids : List EntryId) (db : Db),
      ids.foldl
        (fun db id =>
          { db with
            outbox := db.outbox.update (sent batch id) (charged error)
              (charged_key error) })
        db =
        { db with
          outbox := db.outbox.update (fun _ => true)
            (chargedFor batch ids error) (chargedFor_key batch ids error) } := by
    intro ids
    induction ids with
    | nil =>
        intro db
        have hsame : db.outbox.update (fun _ => true) (chargedFor batch [] error)
            (chargedFor_key batch [] error) = db.outbox := by
          ext1
          simp [Table.update, chargedFor]
        rw [hsame]
        rfl
    | cons id ids ih =>
        intro db
        rw [List.foldl_cons, ih]
        congr 1
        ext1
        simp only [Table.update, List.map_map, if_true]
        congr 1
        funext r
        -- what a row was charged before does not change which requests it answers
        have hsent : ∀ j, sent batch j (charged error r) = sent batch j r :=
          fun _ => rfl
        by_cases h : sent batch id r = true
        · have hattempts : (charged error r).attempts = r.attempts + 1 := rfl
          simp only [Function.comp, h, if_true, chargedFor, hsent, hattempts,
            List.countP_cons, List.any_cons, Bool.true_or]
          simp [charged, Nat.add_assoc, Nat.add_comm 1]
        · simp [chargedFor, h]
  exact hfold batch.entryIds db

theorem recordFailure_outbox (batch : Batch) (error : String) (db : Db)
    (k : EntryId × String) :
    (recordFailure batch error db).outbox.find? k =
      (db.outbox.find? k).map (chargedFor batch batch.entryIds error) := by
  rw [recordFailure_db, Table.find?_update]
  simp

/-- A row the batch did not send is left as it was. -/
theorem chargedFor_of_not_covers {batch : Batch} {error : String} {r : OutboxRow}
    (h : covers batch r = false) : chargedFor batch batch.entryIds error r = r := by
  have hzero : batch.entryIds.countP (sent batch · r) = 0 := by
    rw [List.countP_eq_zero]
    intro id hid hsent
    have hcovers : covers batch r = true := List.any_eq_true.2 ⟨id, hid, hsent⟩
    simp [h] at hcovers
  have hany : batch.entryIds.any (sent batch · r) = false := h
  simp [chargedFor, hzero, hany]

end Outbox

end Vuo
