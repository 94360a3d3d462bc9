import Vuo.Verification.Mirror.PendingWins
import Vuo.Verification.Pull.Partition
import Vuo.Verification.World

/-!
# The columns the server decides

Of an entry's row the read state, the star, the body and two marks may change
here; everything else is as the server sent it. Only four statements write the
rest, or take a row away.
-/

namespace Vuo

open Foundation Outbox

/-- A row with the columns that may change here blanked out. -/
def EntryRow.base (row : EntryRow) : EntryRow :=
  { row with
    status := .unread
    starred := false
    content := ""
    lastSeenSync := 0
    contentScraped := false
    arrived := false }

/-- The row an entry has as the server sent it. -/
def Entry.asSent (e : Entry) : EntryRow :=
  Store.entryRow e e.status e.starred 0 false

/-- The row holds what the server sent, but for what may change here; its body
is the server's, or one that was scraped. -/
structure Copies (e : Entry) (row : EntryRow) : Prop where
  base : row.base = e.asSent.base
  body : row.contentScraped = true ∨ row.content = e.content

namespace EntryRow

variable {row other : EntryRow}

theorem id_eq_of_base (h : row.base = other.base) : row.id = other.id := by
  have hid := congrArg EntryRow.id h
  exact hid

theorem feedId_eq_of_base (h : row.base = other.base) : row.feedId = other.feedId := by
  have hfeed := congrArg EntryRow.feedId h
  exact hfeed

theorem dates_eq_of_base (h : row.base = other.base) :
    row.publishedAt.or row.createdAt = other.publishedAt.or other.createdAt := by
  have hdates := congrArg (fun r : EntryRow => r.publishedAt.or r.createdAt) h
  exact hdates

end EntryRow

namespace Store

theorem Mirrors.copies {e : Entry} {generation : ℤ} {db : Db} {row : EntryRow}
    (h : Mirrors e generation db row) (hbody : row.contentScraped = true ∨ row.content = e.content) :
    Copies e row where
  base := by
    rw [h.fields]
    rfl
  body := hbody

/-- The same rows, but for the columns that may change here. -/
structure SameRows (db db' : Db) : Prop where
  base : ∀ id, (db'.entries.find? id).map EntryRow.base = (db.entries.find? id).map EntryRow.base
  body : ∀ id row row', db.entries.find? id = some row → db'.entries.find? id = some row' →
    row'.contentScraped = true ∨
      row.contentScraped = false ∧ row'.content = row.content

namespace SameRows

variable {db db₁ db₂ db' : Db}

theorem of_eq (h : db'.entries = db.entries) : SameRows db db' where
  base := fun id => by rw [h]
  body := by
    intro id row row' hrow hrow'
    rw [h, hrow] at hrow'
    cases hrow'
    cases row.contentScraped <;> simp

theorem refl (db : Db) : SameRows db db :=
  .of_eq rfl

theorem find? (h : SameRows db db') {id : EntryId} {row' : EntryRow}
    (hrow' : db'.entries.find? id = some row') :
    ∃ row, db.entries.find? id = some row ∧ row'.base = row.base := by
  have hbase := h.base id
  rw [hrow', Option.map_some] at hbase
  obtain ⟨row, hrow, heq⟩ := Option.map_eq_some_iff.1 hbase.symm
  exact ⟨row, hrow, heq.symm⟩

theorem exists_find? (h : SameRows db db') {id : EntryId} {row : EntryRow}
    (hrow : db.entries.find? id = some row) :
    ∃ row', db'.entries.find? id = some row' ∧ row'.base = row.base := by
  have hbase := h.base id
  rw [hrow, Option.map_some] at hbase
  exact Option.map_eq_some_iff.1 hbase

theorem trans (h₁ : SameRows db db₁) (h₂ : SameRows db₁ db₂) : SameRows db db₂ where
  base := fun id => (h₂.base id).trans (h₁.base id)
  body := by
    intro id row row₂ hrow hrow₂
    obtain ⟨row₁, hrow₁, -⟩ := h₂.find? hrow₂
    rcases h₂.body id row₁ row₂ hrow₁ hrow₂ with hscraped | ⟨hplain, hsame⟩
    · exact .inl hscraped
    · rcases h₁.body id row row₁ hrow hrow₁ with hscraped | ⟨hplain', hsame'⟩
      · simp [hplain] at hscraped
      · exact .inr ⟨hplain', hsame.trans hsame'⟩

/-- Rows changed one by one, each in the columns that may change. -/
theorem of_map {f : EntryId → EntryRow → EntryRow}
    (hfind : ∀ id, db'.entries.find? id = (db.entries.find? id).map (f id))
    (hbase : ∀ id row, (f id row).base = row.base)
    (hbody : ∀ id row, (f id row).contentScraped = true ∨
      row.contentScraped = false ∧ (f id row).content = row.content) : SameRows db db' where
  base := by
    intro id
    rw [hfind, Option.map_map]
    exact congrArg (Option.map · _) (funext (hbase id))
  body := by
    intro id row row' hrow hrow'
    rw [hfind, hrow] at hrow'
    cases hrow'
    exact hbody id row

theorem mem_heldIds (h : SameRows db db') {id : EntryId} :
    id ∈ heldIds db' ↔ id ∈ heldIds db := by
  have hsome := congrArg Option.isSome (h.base id)
  rw [Option.isSome_map, Option.isSome_map] at hsome
  rw [Store.mem_heldIds, Store.mem_heldIds, hsome]

theorem copies (h : SameRows db db') {id : EntryId} {row : EntryRow} {e : Entry}
    (hrow : db.entries.find? id = some row) (hcopies : Copies e row) :
    ∃ row', db'.entries.find? id = some row' ∧ Copies e row' := by
  obtain ⟨row', hrow', hbase⟩ := h.exists_find? hrow
  refine ⟨row', hrow', hbase.trans hcopies.base, ?_⟩
  rcases h.body id row row' hrow hrow' with hscraped | ⟨hplain, hsame⟩
  · exact .inl hscraped
  · rcases hcopies.body with hscraped | hbody
    · simp [hplain] at hscraped
    · exact .inr (hsame.trans hbody)

end SameRows

/-! ## The statements that keep the rows -/

theorem sameRows_updateEntry (id : EntryId) (f : EntryRow → EntryRow)
    (hf : ∀ row, (f row).id = row.id) (hbase : ∀ row, (f row).base = row.base)
    (hbody : ∀ row, (f row).contentScraped = true ∨
      row.contentScraped = false ∧ (f row).content = row.content) (db : Db) :
    SameRows db (db.updateEntry id f hf) := by
  refine .of_map (fun j => entries_updateEntry id f hf db j) (fun j row => ?_) fun j row => ?_
  · by_cases hj : j = id
    · rw [if_pos hj, hbase]
    · rw [if_neg hj]
  · by_cases hj : j = id
    · rw [if_pos hj]
      exact hbody row
    · rw [if_neg hj]
      cases row.contentScraped <;> simp

theorem sameRows_queue (id : EntryId) (v : DesiredValue) (now : ℤ) (db : Db) :
    SameRows db (queue id v now db) := by
  refine .of_map (fun j => queue_entries id v now db j) (fun j row => ?_) fun j row => ?_
  · by_cases hj : j = id
    · rw [if_pos hj]
      cases v <;> rfl
    · rw [if_neg hj]
  · by_cases hj : j = id
    · rw [if_pos hj]
      cases v <;> cases h : row.contentScraped <;> simp [DesiredValue.applyTo, h]
    · rw [if_neg hj]
      cases row.contentScraped <;> simp

theorem sameRows_queueRead (ids : List EntryId) (now : ℤ) (db : Db) :
    SameRows db (queueRead ids now db) := by
  induction ids generalizing db with
  | nil => exact .refl db
  | cons id ids ih => exact (sameRows_queue id _ now db).trans (ih _)

theorem sameRows_acknowledgeArrivals (ids : List EntryId) (db : Db) :
    SameRows db (acknowledgeArrivals ids db) := by
  induction ids generalizing db with
  | nil => exact .refl db
  | cons id ids ih =>
      have hone := sameRows_updateEntry id (fun row => { row with arrived := false })
        (fun _ => rfl) (fun _ => rfl) (fun row => by cases row.contentScraped <;> simp) db
      exact hone.trans (ih _)

theorem sameRows_acknowledgeAllArrivals (db : Db) : SameRows db (acknowledgeAllArrivals db) := by
  refine .of_map (f := fun _ row => if row.arrived then { row with arrived := false } else row)
    (fun id => ?_) (fun _ row => ?_) fun _ row => ?_
  · rw [acknowledgeAllArrivals, Table.find?_update]
  · by_cases h : row.arrived = true <;> simp [h, EntryRow.base]
  · by_cases h : row.arrived = true <;> cases hs : row.contentScraped <;> simp [h, hs]

end Store

open Store

/-- Every statement but the four that write or delete rows of entries. -/
def Statement.KeepsRows : Statement → Prop
  | .deleteFeed _ | .upsertEntry .. | .deleteEntry _ | .pruneEntries _ => False
  | _ => True

theorem Statement.ByReader.keepsRows {s : Statement} (h : s.ByReader) : s.KeepsRows := by
  cases s <;> trivial

theorem sameRows_exec {s : Statement} (h : s.KeepsRows) (db : Db) : SameRows db (s.exec db) := by
  cases s with
  | queue id value now => exact sameRows_queue id value now db
  | queueMarkFeedRead feedId now => exact sameRows_queueRead _ now db
  | queueMarkCategoryRead categoryId now => exact sameRows_queueRead _ now db
  | confirm batch => exact .of_eq (by simp [Statement.exec, Statement.run, confirm_db])
  | discard batch =>
      have hdiscard : (Statement.discard batch).exec db = (confirm batch db).2 := rfl
      rw [hdiscard, confirm_db]
      exact .of_eq rfl
  | recordFailure batch error =>
      exact .of_eq (by simp [Statement.exec, Statement.run, recordFailure_db])
  | storeScraped id content =>
      exact sameRows_updateEntry id
        (fun row => { row with content := content, contentScraped := true })
        (fun _ => rfl) (fun _ => rfl) (fun _ => .inl rfl) db
  | acknowledgeArrivals ids => exact sameRows_acknowledgeArrivals ids db
  | acknowledgeAllArrivals => exact sameRows_acknowledgeAllArrivals db
  | upsertFeed f generation =>
      simp only [Statement.exec, Statement.run, upsertFeed]
      split
      · exact .of_eq (outbox_placeholderCategory _ db).2
      · exact .of_eq rfl
  | applyFeedPatch feedId update =>
      obtain ⟨title, categoryId, crawler, disabled, hideGlobally⟩ := update
      cases categoryId with
      | none =>
          cases title <;> cases crawler <;> cases disabled <;> cases hideGlobally <;>
            exact .of_eq rfl
      | some category =>
          have hplace : ∀ db, (placeholderCategory category db).entries = db.entries :=
            fun db => (outbox_placeholderCategory category db).2
          cases title <;> cases crawler <;> cases disabled <;> cases hideGlobally <;>
            exact .of_eq (hplace _)
  | deleteFeed id => exact h.elim
  | upsertEntry e generation arrival => exact h.elim
  | deleteEntry id => exact h.elim
  | pruneEntries cutoff => exact h.elim
  | _ => exact .of_eq rfl

theorem sameRows_transaction {body : Transaction} (h : ∀ s ∈ body, s.KeepsRows) (db : Db) :
    SameRows db (body.exec db) :=
  Transaction.exec_invariant (P := fun db' => SameRows db db')
    (fun s hs db' hdb => hdb.trans (sameRows_exec (h s hs) db')) (.refl db)

end Vuo
