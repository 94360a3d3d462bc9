import Vuo.Verification.Mirror.Equations

/-!
# Who writes the bookkeeping

Only one statement touches the row of sync bookkeeping.
-/

namespace Vuo

open Foundation Outbox Store

/-- Every statement but the one that stores it leaves the bookkeeping alone. -/
def Statement.KeepsState : Statement → Prop
  | .setSyncState _ => False
  | _ => True

theorem syncState_queueRead (ids : List EntryId) (now : ℤ) (db : Db) :
    (queueRead ids now db).syncState = db.syncState := by
  induction ids generalizing db with
  | nil => rfl
  | cons id ids ih => exact ih _

theorem syncState_acknowledgeArrivals (ids : List EntryId) (db : Db) :
    (acknowledgeArrivals ids db).syncState = db.syncState := by
  induction ids generalizing db with
  | nil => rfl
  | cons id ids ih => exact ih _

theorem syncState_placeholderCategory (id : CategoryId) (db : Db) :
    (placeholderCategory id db).syncState = db.syncState := by
  unfold placeholderCategory
  split <;> rfl

theorem syncState_exec {s : Statement} (h : s.KeepsState) (db : Db) :
    (s.exec db).syncState = db.syncState := by
  cases s with
  | queueMarkFeedRead feedId now => exact syncState_queueRead _ _ _
  | queueMarkCategoryRead categoryId now => exact syncState_queueRead _ _ _
  | confirm batch => simp [Statement.exec, Statement.run, confirm_db]
  | discard batch =>
      have hdiscard : (Statement.discard batch).exec db = (confirm batch db).2 := rfl
      rw [hdiscard, confirm_db]
  | recordFailure batch error => simp [Statement.exec, Statement.run, recordFailure_db]
  | acknowledgeArrivals ids => exact syncState_acknowledgeArrivals ids db
  | upsertFeed f generation =>
      simp only [Statement.exec, Statement.run, upsertFeed]
      split
      · exact syncState_placeholderCategory _ db
      · rfl
  | applyFeedPatch feedId update =>
      obtain ⟨title, categoryId, crawler, disabled, hideGlobally⟩ := update
      cases categoryId with
      | none =>
          cases title <;> cases crawler <;> cases disabled <;> cases hideGlobally <;> rfl
      | some category =>
          have hplace := syncState_placeholderCategory category
          cases title <;> cases crawler <;> cases disabled <;> cases hideGlobally <;>
            exact hplace _
  | setSyncState state => exact absurd h id
  | _ => rfl

theorem syncState_transaction {body : Transaction} (h : ∀ s ∈ body, s.KeepsState) (db : Db) :
    (body.exec db).syncState = db.syncState :=
  Transaction.exec_invariant (P := fun db' => db'.syncState = db.syncState)
    (fun s hs db' hdb => (syncState_exec (h s hs) db').trans hdb) rfl

end Vuo
