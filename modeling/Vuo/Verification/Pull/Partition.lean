import Mathlib.Data.List.Induction
import Vuo.Model.Pull
import Vuo.Verification.Mirror.Removals

/-!
# A page, shared out and written

A row of a page is removed, usable or bad. What its transaction leaves of an
entry is decided by the last usable row of the entry, unless a row removes it.
-/

namespace Vuo

open Foundation

namespace Convert

/-! ## Sharing out -/

/-- The values of a list of results and its failures, each in order. -/
inductive Splits {ε α : Type} : List (Except ε α) → List α → List ε → Prop
  | nil : Splits [] [] []
  | ok {a : α} {results : List (Except ε α)} {values : List α} {failures : List ε}
      (h : Splits results values failures) :
      Splits (.ok a :: results) (a :: values) failures
  | error {e : ε} {results : List (Except ε α)} {values : List α} {failures : List ε}
      (h : Splits results values failures) :
      Splits (.error e :: results) values (e :: failures)

/-- What a page decodes into, row by row. -/
structure Partitioned [UrlLibrary] (page : List Wire.Entry) (decoded : Page) : Prop where
  once : decoded.removed.Nodup
  removed : ∀ id, id ∈ decoded.removed ↔ ∃ w ∈ page, w.status = "removed" ∧ w.id = id
  valid : ∀ e ∈ decoded.valid, e.id ∉ decoded.removed
  rejected : ∀ error ∈ decoded.rejected, ∃ id reason,
    error = .item "entry" (some id) reason ∧ id ∉ decoded.removed
  rest : Splits ((page.filter fun w => w.id ∉ decoded.removed).map entry) decoded.valid
    decoded.rejected

section Page

variable [UrlLibrary]

theorem entry_eq_error {w : Wire.Entry} {error : Error} (h : entry w = .error error) :
    ∃ reason, error = .item "entry" (some w.id) reason := by
  unfold entry status at h
  split_ifs at h with hu hr hd <;> cases h
  · exact ⟨_, rfl⟩
  · exact ⟨_, rfl⟩

theorem mem_rejected {page : List Wire.Entry} {error : Error} :
    error ∈ (entries page).rejected ↔
      ∃ w ∈ page, w.id ∉ removedIds page ∧ entry w = .error error := by
  simp only [entries, List.mem_filterMap, List.mem_filter]
  constructor
  · rintro ⟨w, ⟨hw, hkept⟩, he⟩
    refine ⟨w, hw, by simpa using hkept, ?_⟩
    cases hentry : entry w with
    | ok e => simp [hentry] at he
    | error err => simp_all
  · rintro ⟨w, hw, hkept, he⟩
    exact ⟨w, ⟨hw, by simpa using hkept⟩, by simp [he]⟩

/-- Every row that is kept goes to the one list or to the other. -/
theorem splits_entries (page : List Wire.Entry) :
    Splits ((page.filter fun w => w.id ∉ (entries page).removed).map entry)
      (entries page).valid (entries page).rejected := by
  have hrows : ∀ failure : Wire.Entry → Option Error,
      (∀ w e, entry w = .ok e → failure w = none) →
      (∀ w error, entry w = .error error → failure w = some error) →
      ∀ rows : List Wire.Entry, Splits (rows.map entry)
        (rows.filterMap fun w => (entry w).toOption) (rows.filterMap failure) := by
    intro failure hok herror rows
    induction rows with
    | nil => exact .nil
    | cons w rows ih =>
        rw [List.map_cons, List.filterMap_cons, List.filterMap_cons]
        cases hentry : entry w with
        | ok e =>
            rw [hok w e hentry]
            exact .ok ih
        | error error =>
            rw [herror w error hentry]
            exact .error ih
  have hkept : (page.filter fun w => w.id ∉ (entries page).removed) =
      page.filter fun w => !(removedIds page).contains w.id :=
    List.filter_congr fun w _ => by simp [entries]
  rw [hkept]
  refine hrows _ (fun w e hentry => ?_) (fun w error hentry => ?_) _
  · simp only [hentry]
  · simp only [hentry]

theorem partitioned_entries (page : List Wire.Entry) : Partitioned page (entries page) where
  once := List.nodup_dedup _
  removed := fun _ => mem_removedIds
  valid := fun _ he => notMem_removed_of_mem_valid he
  rejected := by
    intro error herror
    obtain ⟨w, -, hkept, hentry⟩ := mem_rejected.1 herror
    obtain ⟨reason, hreason⟩ := entry_eq_error hentry
    exact ⟨w.id, reason, hreason, hkept⟩
  rest := splits_entries page

/-- What a page removes does not hang on its order. -/
theorem mem_removed_perm {page page' : List Wire.Entry} (h : page'.Perm page) (id : EntryId) :
    id ∈ (entries page').removed ↔ id ∈ (entries page).removed := by
  have hrows : ∀ w, w ∈ page' ↔ w ∈ page := fun _ => h.mem_iff
  rw [(partitioned_entries page').removed, (partitioned_entries page).removed]
  simp only [hrows]

end Page

end Convert

namespace Store

/-! ## Several upserts -/

/-- The body scraped for an entry, if there is one. -/
def scrapedBody (id : EntryId) (db : Db) : Option String :=
  (db.entries.find? id).bind fun row => if row.contentScraped then some row.content else none

/-- A row as the server sent the entry, save for what is pending and for a
scraped body. -/
structure Mirrors (e : Entry) (generation : ℤ) (db : Db) (row : EntryRow) : Prop where
  fields : row =
    { entryRow e row.status row.starred generation row.arrived with
      content := row.content
      contentScraped := row.contentScraped }
  pending : ∀ f, DesiredValue.held f row = (Outbox.pendingFor e.id f db).getD (offered f e)
  content : row.content = (scrapedBody e.id db).getD e.content

theorem mirrors_upserted (e : Entry) (generation : ℤ) (arrival : Arrival) (db : Db) :
    Mirrors e generation db (upserted e generation arrival db) where
  fields := by
    unfold upserted
    cases hold : db.entries.find? e.id with
    | none => rfl
    | some old =>
        have hid : old.id = e.id := Table.key_of_find? hold
        simp [refreshed, insertedRow, entryRow, hid]
  pending := held_upserted e generation arrival db
  content := by
    unfold upserted scrapedBody
    cases hold : db.entries.find? e.id with
    | none => rfl
    | some old =>
        by_cases hscraped : old.contentScraped = true <;>
          simp [refreshed, insertedRow, entryRow, hscraped]

/-- An upsert neither scrapes a body nor loses one. -/
theorem scrapedBody_upsertEntry (e : Entry) (generation : ℤ) (arrival : Arrival) (db : Db)
    (id : EntryId) :
    scrapedBody id (upsertEntry e generation arrival db) = scrapedBody id db := by
  unfold scrapedBody
  rw [entries_upsertEntry]
  split
  case isTrue h =>
    subst h
    unfold upserted
    cases hold : db.entries.find? e.id with
    | none => rfl
    | some old =>
        by_cases hscraped : old.contentScraped = true <;>
          simp [refreshed, insertedRow, entryRow, hscraped]
  case isFalse h => rfl

section Upserts

variable (generation : ℤ) (arrival : Entry → Arrival)

/-- Upserts one after the other. -/
def upserts (entries : List Entry) : Transaction :=
  entries.map fun e => .upsertEntry e generation (arrival e)

theorem exec_upserts_concat (entries : List Entry) (e : Entry) (db : Db) :
    (upserts generation arrival (entries ++ [e])).exec db =
      upsertEntry e generation (arrival e) ((upserts generation arrival entries).exec db) := by
  rw [upserts, List.map_append, Transaction.exec_append]
  rfl

theorem outbox_upserts (entries : List Entry) (db : Db) :
    ((upserts generation arrival entries).exec db).outbox = db.outbox := by
  induction entries using List.reverseRecOn with
  | nil => rfl
  | append_singleton entries e ih => rw [exec_upserts_concat, outbox_upsertEntry, ih]

theorem scrapedBody_upserts (entries : List Entry) (db : Db) (id : EntryId) :
    scrapedBody id ((upserts generation arrival entries).exec db) = scrapedBody id db := by
  induction entries using List.reverseRecOn with
  | nil => rfl
  | append_singleton entries e ih => rw [exec_upserts_concat, scrapedBody_upsertEntry, ih]

/-- An entry none of the upserts is of is left as it was. -/
theorem entries_upserts_none {entries : List Entry} {id : EntryId}
    (h : Table.lastOf Entry.id id entries = none) (db : Db) :
    ((upserts generation arrival entries).exec db).entries.find? id = db.entries.find? id := by
  induction entries using List.reverseRecOn with
  | nil => rfl
  | append_singleton entries e ih =>
      rw [Table.lastOf_concat] at h
      by_cases hid : e.id = id
      · simp [hid] at h
      · rw [if_neg hid] at h
        rw [exec_upserts_concat, entries_upsertEntry, if_neg hid, ih h]

/-- The last upsert of an entry decides its row. -/
theorem entries_upserts_some {entries : List Entry} {id : EntryId} {e : Entry}
    (h : Table.lastOf Entry.id id entries = some e) (db : Db) :
    ∃ row, ((upserts generation arrival entries).exec db).entries.find? id = some row ∧
      Mirrors e generation db row := by
  induction entries using List.reverseRecOn with
  | nil => cases h
  | append_singleton entries e' ih =>
      rw [Table.lastOf_concat] at h
      rw [exec_upserts_concat, entries_upsertEntry]
      by_cases hid : e'.id = id
      · rw [if_pos hid] at h
        cases h
        have hlast := mirrors_upserted e generation (arrival e)
          ((upserts generation arrival entries).exec db)
        rw [if_pos hid]
        -- neither what is pending nor what was scraped is touched by the upserts before
        refine ⟨_, rfl, hlast.fields, fun f => ?_, ?_⟩
        · rw [hlast.pending, Outbox.pendingFor, outbox_upserts]
          rfl
        · rw [hlast.content, scrapedBody_upserts]
      · rw [if_neg hid] at h
        rw [if_neg hid]
        exact ih h

end Upserts

theorem entries_deleteEntries (ids : List EntryId) (db : Db) (j : EntryId) :
    (Transaction.exec (ids.map .deleteEntry) db).entries.find? j =
      if j ∈ ids then none else db.entries.find? j := by
  induction ids generalizing db with
  | nil => simp
  | cons id ids ih =>
      have hexec : Statement.exec (.deleteEntry id) db = deleteEntry id db := rfl
      rw [List.map_cons, Transaction.exec_cons, ih, hexec, entries_deleteEntry]
      by_cases hj : j = id <;> simp [hj]

end Store

namespace Pull

open Store

variable [UrlLibrary]

/-! ## The page's transaction -/

/-- What writing a page leaves of the entries and of the intents. -/
structure Written (page : List Wire.Entry) (generation : ℤ) (db db' : Db) : Prop where
  removed : ∀ id ∈ (Convert.entries page).removed,
    db'.entries.find? id = none ∧ ∀ field, db'.outbox.find? (id, field) = none
  valid : ∀ id ∈ (Convert.entries page).valid.map Entry.id,
    ∃ e row, Table.lastOf Entry.id id (Convert.entries page).valid = some e ∧
      db'.entries.find? id = some row ∧ Mirrors e generation db row
  others : ∀ id, (∀ w ∈ page, w.id ≠ id) →
    db'.entries.find? id = db.entries.find? id ∧
      ∀ field, db'.outbox.find? (id, field) = db.outbox.find? (id, field)

section Exec

variable (page : List Wire.Entry) (cursor : Option ℤ) (generation : ℤ) (db : Db)

theorem exec_pageTx :
    (pageTx (Convert.entries page) cursor generation).exec db =
      Transaction.exec ((Convert.entries page).removed.map .deleteEntry)
        ((upserts generation (arrivalFor · cursor) (Convert.entries page).valid).exec db) :=
  Transaction.exec_append _ _ db

theorem written_pageTx :
    Written page generation db
      ((pageTx (Convert.entries page) cursor generation).exec db) := by
  have hparts := Convert.partitioned_entries page
  rw [exec_pageTx]
  constructor
  case removed =>
    intro id hid
    refine ⟨by rw [entries_deleteEntries, if_pos hid], fun field => ?_⟩
    rw [outbox_deleteEntries, if_pos hid]
  case valid =>
    intro id hid
    obtain ⟨e, he⟩ := Option.isSome_iff_exists.1 (Table.isSome_lastOf.2 hid)
    obtain ⟨row, hrow, hmirrors⟩ := entries_upserts_some generation (arrivalFor · cursor) he db
    have hkept : id ∉ (Convert.entries page).removed :=
      Table.key_of_lastOf he ▸ hparts.valid e (Table.mem_of_lastOf he)
    exact ⟨e, row, he, by rw [entries_deleteEntries, if_neg hkept, hrow], hmirrors⟩
  case others =>
    intro id hid
    have hkept : id ∉ (Convert.entries page).removed := by
      intro hremoved
      obtain ⟨w, hw, -, hwid⟩ := (hparts.removed id).1 hremoved
      exact hid w hw hwid
    have hnone : Table.lastOf Entry.id id (Convert.entries page).valid = none := by
      rw [Table.lastOf_eq_none]
      intro hvalid
      obtain ⟨e, he, rfl⟩ := List.mem_map.1 hvalid
      obtain ⟨w, hw, -, hentry⟩ := Convert.mem_valid.1 he
      exact hid w hw (Convert.entry_eq_ok hentry).1.symm
    refine ⟨?_, fun field => ?_⟩
    · rw [entries_deleteEntries, if_neg hkept, entries_upserts_none _ _ hnone]
    · rw [outbox_deleteEntries, if_neg hkept, outbox_upserts]

/-- A page is shared out without loss, a removal wins wherever it stands, and
the page's transaction writes just that. -/
theorem page_partitioned :
    Convert.Partitioned page (Convert.entries page) ∧
      (∀ page', page'.Perm page → ∀ id,
        id ∈ (Convert.entries page').removed ↔ id ∈ (Convert.entries page).removed) ∧
      Written page generation db
        ((pageTx (Convert.entries page) cursor generation).exec db) :=
  ⟨Convert.partitioned_entries page, fun _ h => Convert.mem_removed_perm h,
    written_pageTx page cursor generation db⟩

end Exec

end Pull

end Vuo
