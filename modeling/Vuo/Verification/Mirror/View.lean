import Vuo.Verification.Mirror.Equations

/-!
# The mirror by entry and field

For every entry and field the mirror shows at most one value and the outbox
holds at most one intent. Each statement is described by what it does to these
two maps.
-/

namespace Vuo

open Foundation Outbox

namespace Store

/-- What the mirror shows of a field of an entry it holds. -/
def shown (id : EntryId) (f : OutboxField) (db : Db) : Option DesiredValue :=
  (db.entries.find? id).map (DesiredValue.held f)

/-- Both maps are as they were. -/
structure SameView (db db' : Db) : Prop where
  intents : ∀ id f, pendingFor id f db' = pendingFor id f db
  values : ∀ id f, shown id f db' = shown id f db

namespace SameView

theorem refl (db : Db) : SameView db db :=
  ⟨fun _ _ => rfl, fun _ _ => rfl⟩

theorem trans {db₁ db₂ db₃ : Db} (h₁ : SameView db₁ db₂) (h₂ : SameView db₂ db₃) :
    SameView db₁ db₃ :=
  ⟨fun id f => (h₂.intents id f).trans (h₁.intents id f),
    fun id f => (h₂.values id f).trans (h₁.values id f)⟩

theorem of_eq {db db' : Db} (hout : db'.outbox = db.outbox)
    (hent : db'.entries = db.entries) : SameView db db' :=
  ⟨fun id f => by simp [pendingFor, hout], fun id f => by simp [shown, hent]⟩

end SameView

/-! ## Queueing -/

theorem pendingFor_queue (id : EntryId) (v : DesiredValue) (now : ℤ) (db : Db)
    (j : EntryId) (f : OutboxField) :
    pendingFor j f (queue id v now db) =
      if j = id ∧ f = v.field then some v else pendingFor j f db := by
  rw [pendingFor, queue_outbox]
  by_cases h : j = id ∧ f = v.field
  · obtain ⟨rfl, rfl⟩ := h
    simp [intentRow]
  · have hkey : (j, f.asStr) ≠ (id, v.field.asStr) := by
      intro hk
      obtain ⟨hj, hf⟩ := Prod.mk.inj hk
      exact h ⟨hj, OutboxField.asStr_injective hf⟩
    rw [if_neg hkey, if_neg h]
    rfl

theorem shown_queue (id : EntryId) (v : DesiredValue) (now : ℤ) (db : Db)
    (j : EntryId) (f : OutboxField) :
    shown j f (queue id v now db) =
      (shown j f db).map fun w => if j = id ∧ f = v.field then v else w := by
  rw [shown, queue_entries, shown, Option.map_map, Option.map_map]
  congr 1
  funext e
  by_cases hj : j = id
  · by_cases hf : f = v.field
    · simp [hj, hf, DesiredValue.held_applyTo]
    · simp [hj, hf, DesiredValue.held_applyTo, Ne.symm hf]
  · simp [hj]

/-! ## Recording what became of a batch -/

theorem pendingFor_confirm (batch : Batch) (db : Db) (j : EntryId) (f : OutboxField) :
    pendingFor j f (confirm batch db).2 =
      (pendingFor j f db).filter fun v =>
        !(decide (j ∈ batch.entryIds) && decide (v = batch.value)) := by
  rw [pendingFor, confirm_outbox, pendingFor]
  cases hr : db.outbox.find? (j, f.asStr) with
  | none => rfl
  | some r =>
      have hkey := Table.key_of_find? hr
      simp only [OutboxRow.key, Prod.mk.injEq] at hkey
      cases hparse : DesiredValue.parse r.field r.value with
      | none =>
          simp only [Option.bind_some, hparse, Option.filter_none]
          cases hc : covers batch r <;> simp [Option.filter, hc, hparse]
      | some v =>
          obtain ⟨hfield, hvalue⟩ := DesiredValue.parse_eq_some.1 hparse
          have hcovers : covers batch r = true ↔ j ∈ batch.entryIds ∧ v = batch.value := by
            rw [covers_iff, hkey.1, hfield, hvalue]
            constructor
            · rintro ⟨hj, hf, hv⟩
              exact ⟨hj, DesiredValue.asStr_inj (OutboxField.asStr_injective hf) hv⟩
            · rintro ⟨hj, rfl⟩
              exact ⟨hj, rfl, rfl⟩
          by_cases hc : covers batch r = true
          · have hboth := hcovers.1 hc
            simp [Option.filter, hc, hparse, hboth.1, hboth.2]
          · have hnot := mt hcovers.2 hc
            simp only [Bool.not_eq_true] at hc
            simp only [Option.filter, hc, Option.bind_some, hparse, Bool.not_false, if_true]
            rw [if_pos]
            simpa using not_and_or.1 hnot

theorem shown_confirm (batch : Batch) (db : Db) (j : EntryId) (f : OutboxField) :
    shown j f (confirm batch db).2 = shown j f db := by
  rw [confirm_db]
  rfl

theorem sameView_recordFailure (batch : Batch) (error : String) (db : Db) :
    SameView db (recordFailure batch error db) := by
  constructor
  · intro id f
    rw [pendingFor, recordFailure_outbox, pendingFor]
    cases db.outbox.find? (id, f.asStr) <;> rfl
  · intro id f
    rw [recordFailure_db]
    rfl

/-! ## Upserts and deletions -/

theorem shown_upsertEntry (e : Entry) (generation : ℤ) (arrival : Arrival) (db : Db)
    (j : EntryId) (f : OutboxField) :
    shown j f (upsertEntry e generation arrival db) =
      if j = e.id then some ((pendingFor j f db).getD (offered f e))
      else shown j f db := by
  rw [shown, entries_upsertEntry]
  by_cases hj : j = e.id
  · subst hj
    simp [held_upserted]
  · rw [if_neg (Ne.symm hj), if_neg hj, shown]

theorem pendingFor_upsertEntry (e : Entry) (generation : ℤ) (arrival : Arrival)
    (db : Db) (j : EntryId) (f : OutboxField) :
    pendingFor j f (upsertEntry e generation arrival db) = pendingFor j f db :=
  rfl

theorem pendingFor_deleteEntry (id : EntryId) (db : Db) (j : EntryId) (f : OutboxField) :
    pendingFor j f (deleteEntry id db) = if j = id then none else pendingFor j f db := by
  rw [pendingFor, outbox_deleteEntry]
  by_cases hj : j = id <;> simp [hj, pendingFor]

theorem shown_deleteEntry (id : EntryId) (db : Db) (j : EntryId) (f : OutboxField) :
    shown j f (deleteEntry id db) = if j = id then none else shown j f db := by
  rw [shown, entries_deleteEntry]
  by_cases hj : j = id <;> simp [hj, shown]

/-- Whether the mirror files an entry under a feed. -/
def inFeed (feedId : FeedId) (db : Db) (id : EntryId) : Bool :=
  ((db.entries.find? id).map fun e => decide (e.feedId = feedId)).getD false

theorem pendingFor_deleteFeed (id : FeedId) (db : Db) (j : EntryId) (f : OutboxField) :
    pendingFor j f (deleteFeed id db) =
      if inFeed id db j then none else pendingFor j f db := by
  rw [pendingFor, outbox_deleteFeed, pendingFor]
  cases hr : db.outbox.find? (j, f.asStr) with
  | none => simp
  | some r =>
      have hkey := Table.key_of_find? hr
      simp only [OutboxRow.key, Prod.mk.injEq] at hkey
      rw [← hkey.1]
      change Option.bind (Option.filter (fun r => !inFeed id db r.entryId) (some r)) _ = _
      cases hin : inFeed id db r.entryId <;> simp [Option.filter, hin]

theorem shown_deleteFeed (id : FeedId) (db : Db) (j : EntryId) (f : OutboxField) :
    shown j f (deleteFeed id db) = if inFeed id db j then none else shown j f db := by
  rw [shown, entries_deleteFeed, shown, inFeed]
  cases db.entries.find? j with
  | none => rfl
  | some e => by_cases he : e.feedId = id <;> simp [Option.filter, he]

theorem pendingFor_pruneEntries (cutoff : ℤ) (db : Db) (j : EntryId) (f : OutboxField) :
    pendingFor j f (pruneEntries cutoff db).2 = pendingFor j f db :=
  rfl

theorem shown_pruneEntries (cutoff : ℤ) (db : Db) (j : EntryId) (f : OutboxField) :
    shown j f (pruneEntries cutoff db).2 =
      if ((db.entries.find? j).map (prunable cutoff db)).getD false then none
      else shown j f db := by
  rw [shown, entries_pruneEntries, shown]
  cases db.entries.find? j with
  | none => rfl
  | some e => cases hp : prunable cutoff db e <;> simp [Option.filter, hp]

/-! ## Statements that leave both maps alone -/

theorem sameView_updateEntry (id : EntryId) (g : EntryRow → EntryRow)
    (hid : ∀ e, (g e).id = e.id)
    (hheld : ∀ f e, DesiredValue.held f (g e) = DesiredValue.held f e) (db : Db) :
    SameView db (db.updateEntry id g hid) := by
  refine ⟨fun _ _ => rfl, ?_⟩
  intro j f
  rw [shown, entries_updateEntry, shown, Option.map_map]
  congr 1
  funext e
  by_cases hj : j = id <;> simp [hj, hheld]

theorem sameView_storeScraped (id : EntryId) (content : String) (db : Db) :
    SameView db (storeScraped id content db) :=
  sameView_updateEntry id _ _ (fun f _ => by cases f <;> rfl) db

theorem sameView_acknowledgeArrivals (ids : List EntryId) (db : Db) :
    SameView db (acknowledgeArrivals ids db) := by
  induction ids generalizing db with
  | nil => exact .refl db
  | cons id ids ih =>
      exact (sameView_updateEntry id _ _ (fun f _ => by cases f <;> rfl) db).trans (ih _)

theorem sameView_acknowledgeAllArrivals (db : Db) :
    SameView db (acknowledgeAllArrivals db) := by
  refine ⟨fun _ _ => rfl, ?_⟩
  intro j f
  rw [shown, acknowledgeAllArrivals, Table.find?_update, shown, Option.map_map]
  congr 1
  funext e
  by_cases he : e.arrived = true <;> cases f <;> simp [he, DesiredValue.held]

theorem sameView_upsertFeed (f : Feed) (generation : ℤ) (db : Db) :
    SameView db (upsertFeed f generation db) := by
  unfold upsertFeed
  split
  · next category _ =>
      obtain ⟨hout, hent⟩ := outbox_placeholderCategory category db
      exact .of_eq hout hent
  · exact .of_eq rfl rfl

theorem sameView_applyFeedPatch (feedId : FeedId) (update : FeedPatch) (db : Db) :
    SameView db (applyFeedPatch feedId update db) := by
  obtain ⟨title, categoryId, crawler, disabled, hideGlobally⟩ := update
  cases categoryId with
  | none => cases title <;> cases crawler <;> cases disabled <;> cases hideGlobally <;>
      exact .of_eq rfl rfl
  | some category =>
      have hplace : ∀ db, (placeholderCategory category db).outbox = db.outbox ∧
          (placeholderCategory category db).entries = db.entries :=
        outbox_placeholderCategory category
      cases title <;> cases crawler <;> cases disabled <;> cases hideGlobally <;>
        exact .of_eq (hplace _).1 (hplace _).2

/-- The statements that neither queue, nor clear, nor write or delete
entries. -/
def bookkeeping : Statement → Bool
  | .recordFailure .. | .upsertCategory .. | .upsertFeed .. | .storeScraped ..
  | .acknowledgeArrivals .. | .acknowledgeAllArrivals | .upsertIcon ..
  | .recordIconFailure .. | .clearIconFailures .. | .applyFeedPatch ..
  | .setSyncState .. => true
  | _ => false

theorem sameView_of_bookkeeping {s : Statement} (h : bookkeeping s = true) (db : Db) :
    SameView db (s.exec db) := by
  cases s <;> cases h
  case recordFailure batch error => exact sameView_recordFailure batch error db
  case upsertFeed f generation => exact sameView_upsertFeed f generation db
  case storeScraped id content => exact sameView_storeScraped id content db
  case acknowledgeArrivals ids => exact sameView_acknowledgeArrivals ids db
  case acknowledgeAllArrivals => exact sameView_acknowledgeAllArrivals db
  case applyFeedPatch feedId update => exact sameView_applyFeedPatch feedId update db
  all_goals exact .of_eq rfl rfl

end Store

end Vuo
