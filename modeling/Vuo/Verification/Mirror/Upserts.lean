import Vuo.Verification.Mirror.PendingWins
import Vuo.Verification.Requests

/-!
# Upserting an entry

What an upsert writes twice it has written once; what it leaves alone; and what
it does to the enclosures, whose keys are the server's: those of an entry are
stored as they came exactly when no key is used twice.
-/

namespace Vuo

open Foundation

namespace Store

/-- The rows the enclosures of an entry are stored as. -/
def enclosureRows (e : Entry) : List EnclosureRow :=
  e.enclosures.map fun enc => enclosureRow enc e.id

theorem map_id_enclosureRows (e : Entry) :
    (enclosureRows e).map EnclosureRow.id = e.enclosures.map Enclosure.id := by
  simp [enclosureRows, enclosureRow]

theorem entryId_of_mem_enclosureRows {e : Entry} {row : EnclosureRow}
    (h : row ∈ enclosureRows e) : row.entryId = e.id := by
  obtain ⟨enc, -, rfl⟩ := List.mem_map.1 h
  rfl

theorem enclosures_upsertEntry (e : Entry) (generation : ℤ) (arrival : Arrival) (db : Db) :
    (upsertEntry e generation arrival db).enclosures =
      (db.enclosures.remove fun enc => enc.entryId = e.id).putAll (enclosureRows e) := by
  rw [Table.putAll, enclosureRows, List.foldl_map]
  rfl

/-! ## Twice is once -/

theorem refreshed_refreshed (new old : EntryRow) :
    refreshed new (refreshed new old) = refreshed new old := by
  by_cases h : old.contentScraped = true <;> simp [refreshed, h]

theorem refreshed_self (row : EntryRow) : refreshed row row = row := by
  simp [refreshed]

theorem upsertEntry_upsertEntry (e : Entry) (generation : ℤ) (arrival : Arrival) (db : Db) :
    upsertEntry e generation arrival (upsertEntry e generation arrival db) =
      upsertEntry e generation arrival db := by
  have hentries :
      (upsertEntry e generation arrival (upsertEntry e generation arrival db)).entries =
        (upsertEntry e generation arrival db).entries :=
    -- the intents are untouched, so both upserts write the same row
    Table.upsert_upsert (refreshed_refreshed (insertedRow e generation arrival db))
      (refreshed_self _) db.entries
  have henclosures :
      (upsertEntry e generation arrival (upsertEntry e generation arrival db)).enclosures =
        (upsertEntry e generation arrival db).enclosures := by
    rw [enclosures_upsertEntry, enclosures_upsertEntry]
    refine Table.remove_putAll (fun row hrow => ?_) db.enclosures
    simpa using entryId_of_mem_enclosureRows hrow
  calc upsertEntry e generation arrival (upsertEntry e generation arrival db)
      = { upsertEntry e generation arrival db with
          entries := (upsertEntry e generation arrival
            (upsertEntry e generation arrival db)).entries
          enclosures := (upsertEntry e generation arrival
            (upsertEntry e generation arrival db)).enclosures } := rfl
    _ = upsertEntry e generation arrival db := by rw [hentries, henclosures]

/-! ## The row of an entry already held -/

theorem upserted_of_held {e : Entry} {generation : ℤ} {arrival : Arrival} {db : Db}
    {old : EntryRow} (h : db.entries.find? e.id = some old) :
    upserted e generation arrival db = refreshed (insertedRow e generation arrival db) old := by
  rw [upserted, h]
  rfl

/-! ## The enclosures -/

/-- The enclosures of an entry stored are the ones it came with. -/
def StoresEnclosures (e : Entry) (db : Db) : Prop :=
  (db.enclosures.rows.filter fun row => row.entryId = e.id).Perm (enclosureRows e)

/-- The enclosures of the other entries are the same in both. -/
def SameOtherEnclosures (id : EntryId) (db db' : Db) : Prop :=
  ∀ row, row.entryId ≠ id → (row ∈ db'.enclosures ↔ row ∈ db.enclosures)

/-- No enclosure of another entry has the key of one of these. -/
def FreeEnclosureIds (e : Entry) (db : Db) : Prop :=
  ∀ row ∈ db.enclosures, row.entryId ≠ e.id → row.id ∉ e.enclosures.map Enclosure.id

theorem filter_enclosures_upsertEntry (e : Entry) (generation : ℤ) (arrival : Arrival)
    (db : Db) :
    ((upsertEntry e generation arrival db).enclosures.rows.filter
      fun row => row.entryId = e.id) =
      Table.lastOfEach EnclosureRow.id (enclosureRows e) := by
  have hheld : ∀ row ∈ (db.enclosures.remove fun enc => enc.entryId = e.id).rows,
      row.entryId ≠ e.id := by
    intro row hrow
    simpa using (Table.mem_remove.1 (Table.mem_def.2 hrow)).2
  rw [enclosures_upsertEntry, Table.rows_putAll, List.filter_append, List.filter_eq_nil_iff.2,
    List.nil_append, List.filter_eq_self]
  · intro row hrow
    simpa using entryId_of_mem_enclosureRows (Table.lastOfEach_subset _ hrow)
  · intro row hrow
    simpa using hheld row (List.mem_filter.1 hrow).1

/-- They are stored as they came exactly when no two share a key. -/
theorem storesEnclosures_iff {e : Entry} {generation : ℤ} {arrival : Arrival} {db : Db} :
    StoresEnclosures e (upsertEntry e generation arrival db) ↔
      (e.enclosures.map Enclosure.id).Nodup := by
  rw [StoresEnclosures, filter_enclosures_upsertEntry, ← map_id_enclosureRows]
  constructor
  · intro h
    have hlast : (Table.lastOfEach EnclosureRow.id (enclosureRows e)).Sublist (enclosureRows e) :=
      List.pwFilter_sublist _
    exact Table.lastOfEach_eq_self.1 (hlast.eq_of_length h.length_eq)
  · intro h
    rw [Table.lastOfEach_eq_self.2 h]

/-- Those of the others stay exactly when none has the key of one that comes. -/
theorem sameOtherEnclosures_iff {e : Entry} {generation : ℤ} {arrival : Arrival} {db : Db} :
    SameOtherEnclosures e.id db (upsertEntry e generation arrival db) ↔
      FreeEnclosureIds e db := by
  have hmem : ∀ row : EnclosureRow, row.entryId ≠ e.id →
      (row ∈ (upsertEntry e generation arrival db).enclosures ↔
        row ∈ db.enclosures ∧ row.id ∉ e.enclosures.map Enclosure.id) := by
    intro row hrow
    have hnot : row ∉ Table.lastOfEach EnclosureRow.id (enclosureRows e) := fun hlast =>
      hrow (entryId_of_mem_enclosureRows (Table.lastOfEach_subset _ hlast))
    rw [enclosures_upsertEntry, Table.mem_putAll, Table.mem_remove, map_id_enclosureRows]
    simp [hnot, hrow]
  constructor
  · intro h row hrow hother
    exact ((hmem row hother).1 ((h row hother).2 hrow)).2
  · intro h row hother
    rw [hmem row hother]
    exact and_iff_left_of_imp fun hrow => h row hrow hother

/-! ## The whole of it -/

/-- What an upsert of an entry promises. -/
structure UpsertSound (e : Entry) (generation : ℤ) (arrival : Arrival) (db : Db) : Prop where
  twice : upsertEntry e generation arrival (upsertEntry e generation arrival db) =
    upsertEntry e generation arrival db
  entries : ∀ id, id ≠ e.id →
    (upsertEntry e generation arrival db).entries.find? id = db.entries.find? id
  others : SameOtherEnclosures e.id db (upsertEntry e generation arrival db)
  outbox : (upsertEntry e generation arrival db).outbox = db.outbox
  own : StoresEnclosures e (upsertEntry e generation arrival db)
  scraped : ∀ old, db.entries.find? e.id = some old → old.contentScraped = true →
    ∃ row, (upsertEntry e generation arrival db).entries.find? e.id = some row ∧
      row.content = old.content ∧ row.contentScraped = true
  arrived : ∀ old, db.entries.find? e.id = some old →
    ∃ row, (upsertEntry e generation arrival db).entries.find? e.id = some row ∧
      row.arrived = old.arrived

theorem find?_upsertEntry_self (e : Entry) (generation : ℤ) (arrival : Arrival) (db : Db) :
    (upsertEntry e generation arrival db).entries.find? e.id =
      some (upserted e generation arrival db) := by
  rw [entries_upsertEntry, if_pos rfl]

/-- An upsert keeps all its promises exactly where the server's enclosure keys
are free: none twice in the entry, and none of them with another entry. -/
theorem upsertSound_iff (e : Entry) (generation : ℤ) (arrival : Arrival) (db : Db) :
    UpsertSound e generation arrival db ↔
      (e.enclosures.map Enclosure.id).Nodup ∧ FreeEnclosureIds e db := by
  constructor
  · intro h
    exact ⟨storesEnclosures_iff.1 h.own, sameOtherEnclosures_iff.1 h.others⟩
  · rintro ⟨hnodup, hfree⟩
    exact {
      twice := upsertEntry_upsertEntry e generation arrival db
      entries := by
        intro id hid
        rw [entries_upsertEntry, if_neg (Ne.symm hid)]
      others := sameOtherEnclosures_iff.2 hfree
      outbox := outbox_upsertEntry e generation arrival db
      own := storesEnclosures_iff.2 hnodup
      scraped := by
        intro old hold hscraped
        refine ⟨_, find?_upsertEntry_self e generation arrival db, ?_, ?_⟩
        · rw [upserted_of_held hold, refreshed, if_pos hscraped]
        · rw [upserted_of_held hold]
          exact hscraped
      arrived := by
        intro old hold
        refine ⟨_, find?_upsertEntry_self e generation arrival db, ?_⟩
        rw [upserted_of_held hold]
        rfl }

section Reader

open scoped Reader

/-- An entry with one enclosure the server gave no id. -/
def unnumbered (id : EntryId) : Wire.Entry :=
  { wireEntry id with enclosures := [{ id := 0, url := "", mimeType := "", size := 0 }] }

/-- The entry it is read as. -/
def unnumberedEntry (id : EntryId) : Entry :=
  { unstarredEntry with
    id := id
    enclosures := [{ id := 0, entryId := id, url := none, mimeType := "", size := 0 }] }

/-- The row of that enclosure. -/
def unnumberedRow (id : EntryId) : EnclosureRow where
  id := 0
  entryId := id
  url := none
  mimeType := ""
  size := 0

/-- Two entries, each with an enclosure that came without an id: the second
takes the enclosure of the first. -/
theorem enclosure_stolen :
    ¬∀ w e, Convert.entry w = .ok e → ∀ generation arrival db,
      UpsertSound e generation arrival db := by
  intro h
  have hsound := h (unnumbered 2) (unnumberedEntry 2) rfl 1 .quiet
    (upsertEntry (unnumberedEntry 1) 1 .quiet Db.empty)
  have hheld : unnumberedRow 1 ∈ (upsertEntry (unnumberedEntry 1) 1 .quiet Db.empty).enclosures :=
    List.mem_singleton_self _
  have hkept := (hsound.others (unnumberedRow 1) (by decide)).2 hheld
  have hentry : (1 : EntryId) = 2 := congrArg EnclosureRow.entryId (List.mem_singleton.1 hkept)
  exact absurd hentry (by decide)

end Reader

end Store

end Vuo
