import Vuo.Verification.Mirror.ReadPaths
import Vuo.Verification.Requests
import Vuo.Verification.Search.Folding
import Vuo.Verification.Shim.Views

/-!
# Rows kept on screen

A list read again keeps the rows it shows and the mirror still has. They belong
where the mirror lists them; the model sorts by the times it shows, and an
unknown time is shown as the beginning of 1970.
-/

namespace Vuo.Shim.Lists

open Foundation Foundation.Sql Queries Search

/-! ## The order of the rows -/

theorem rowBefore_iff {a b : EntryRow} :
    EntryModel.rowBefore a b ↔
      b.published < a.published ∨ a.published = b.published ∧ b.id ≤ a.id :=
  Iff.rfl

instance : IsTrans EntryRow EntryModel.rowBefore where
  trans a b c hab hbc := by
    rw [rowBefore_iff] at hab hbc ⊢
    omega

instance : Std.Total EntryModel.rowBefore where
  total a b := by
    rw [rowBefore_iff, rowBefore_iff]
    omega

theorem id_eq_of_rowBefore {a b : EntryRow} (hab : EntryModel.rowBefore a b)
    (hba : EntryModel.rowBefore b a) : a.id = b.id := by
  rw [rowBefore_iff] at hab hba
  omega

theorem hasMore_setHasMore (m : EntryModel) (fullWindow : Bool) :
    (m.setHasMore fullWindow).hasMore = fullWindow := by
  unfold EntryModel.setHasMore
  split_ifs with h
  · rfl
  · exact (not_ne_iff.1 h).symm

theorem showRead_reset (m : EntryModel) (before : SearchCounts × SearchGroups)
    (fresh : List EntryRow) (fullWindow chromeMoved : Bool) :
    (m.showRead before fresh fullWindow .reset chromeMoved).1.rows = fresh ∧
      (m.showRead before fresh fullWindow .reset chromeMoved).1.hasMore = fullWindow := by
  unfold EntryModel.showRead
  dsimp only
  split_ifs
  · exact ⟨(rows_redrawAllRows _).trans (rows_publishRowsAs_reset _ fresh),
      hasMore_setHasMore _ fullWindow⟩
  · exact ⟨rows_publishRowsAs_reset _ fresh, hasMore_setHasMore _ fullWindow⟩

section Entries

variable {db : Db} {filter : EntryFilter} {window : ℤ} {held : List ℤ}

/-- The entries a window reads. -/
def windowEntries (db : Db) (filter : EntryFilter) (window : ℤ) : List Vuo.EntryRow :=
  limitOffset window 0 ((Store.inListOrder db).filter (Store.EntryFilter.selects filter db))

theorem windowEntries_sublist : (windowEntries db filter window).Sublist (Store.inListOrder db) :=
  (limitOffset_sublist _ _ _).trans List.filter_sublist

/-- The entries held that the window does not read. -/
def keptEntries (db : Db) (listed : List ℤ) (held : List ℤ) : List Vuo.EntryRow :=
  (held.filter fun id => id ∉ listed).filterMap db.entries.find?

theorem mem_keptEntries {listed : List ℤ} {e : Vuo.EntryRow} :
    e ∈ keptEntries db listed held ↔ e ∈ db.entries ∧ e.id ∈ held ∧ e.id ∉ listed := by
  simp only [keptEntries, List.mem_filterMap, List.mem_filter, decide_eq_true_eq,
    Table.find?_eq_some]
  constructor
  · rintro ⟨id, h, he, rfl⟩
    exact ⟨he, h⟩
  · rintro ⟨he, h⟩
    exact ⟨e.id, h, he, rfl⟩

theorem nodup_keptEntries {listed : List ℤ} (hheld : held.Nodup) :
    (keptEntries db listed held).Nodup := by
  refine (hheld.filter _).filterMap fun id id' e he he' => ?_
  rw [Option.mem_def] at he he'
  rw [← Table.key_of_find? he, ← Table.key_of_find? he']

end Entries

section Kept

variable [UrlLibrary] {db : Db} {filter : EntryFilter} {window : ℤ} {held : List ℤ}

/-- The row an entry is shown as. -/
def pageRow (e : Vuo.EntryRow) : EntryRow :=
  .ofListRow (Store.listRow e)

/-- The entries of a window, and those held that the mirror still has, as the
mirror lists entries. -/
def keptInOrder (db : Db) (filter : EntryFilter) (window : ℤ) (held : List ℤ) :
    List Vuo.EntryRow :=
  (Store.inListOrder db).filter fun e =>
    e.id ∈ (listEntries db filter window 0).map EntryListRow.id ∨ e.id ∈ held

theorem mem_keptInOrder {e : Vuo.EntryRow} : e ∈ keptInOrder db filter window held ↔
    e ∈ db.entries ∧
      (e.id ∈ (listEntries db filter window 0).map EntryListRow.id ∨ e.id ∈ held) := by
  simp [keptInOrder, Store.mem_inListOrder]

theorem nodup_keptInOrder :
    ((keptInOrder db filter window held).map Vuo.EntryRow.id).Nodup :=
  (Store.nodup_inListOrder db).sublist (List.filter_sublist.map _)

theorem keptInOrder_pairwise : (keptInOrder db filter window held).Pairwise Store.newestFirst :=
  (List.pairwise_insertionSort _ _).filter _

theorem listEntries_eq_map :
    listEntries db filter window 0 = (windowEntries db filter window).map Store.listRow := by
  rw [listEntries_eq, windowEntries, map_limitOffset]

theorem keptRows_eq_map (listed : List EntryListRow) :
    EntryModel.keptRows db listed held =
      (keptEntries db (listed.map EntryListRow.id) held).map Store.listRow := by
  rw [EntryModel.keptRows, keptEntries, List.map_filterMap]
  rfl

/-- What the model reads, sorted or not, are the entries in order. -/
theorem perm_keptInOrder (hheld : held.Nodup) :
    (windowEntries db filter window ++ keptEntries db
      ((listEntries db filter window 0).map EntryListRow.id) held).Perm
        (keptInOrder db filter window held) := by
  have hids : (listEntries db filter window 0).map EntryListRow.id =
      (windowEntries db filter window).map Vuo.EntryRow.id := by
    rw [listEntries_eq_map, List.map_map]
    rfl
  have hwindow : ∀ e ∈ windowEntries db filter window, e ∈ db.entries := fun e he =>
    Store.mem_inListOrder.1 (windowEntries_sublist.subset he)
  refine (List.perm_ext_iff_of_nodup ?_ nodup_keptInOrder.of_map).2 fun e => ?_
  · refine List.nodup_append.2 ⟨?_, nodup_keptEntries hheld, ?_⟩
    · exact (Store.nodup_inListOrder db).of_map.sublist windowEntries_sublist
    · rintro e he _ hkept rfl
      refine (mem_keptEntries.1 hkept).2.2 ?_
      rw [hids]
      exact List.mem_map_of_mem he
  · rw [List.mem_append, mem_keptEntries, mem_keptInOrder, hids]
    constructor
    · rintro (he | ⟨he, hid, -⟩)
      · exact ⟨hwindow e he, .inl (List.mem_map_of_mem he)⟩
      · exact ⟨he, .inr hid⟩
    · rintro ⟨he, hid⟩
      by_cases hlisted : e.id ∈ (windowEntries db filter window).map Vuo.EntryRow.id
      · obtain ⟨f, hf, hfe⟩ := List.mem_map.1 hlisted
        rw [← Table.eq_of_key_eq (hwindow f hf) he hfe]
        exact .inl hf
      · exact .inr ⟨he, hid.resolve_left hlisted, hlisted⟩

theorem windowRows_eq : EntryModel.windowRows db filter window held =
    ((windowEntries db filter window ++ keptEntries db
      ((listEntries db filter window 0).map EntryListRow.id) held).map pageRow).insertionSort
        EntryModel.rowBefore := by
  simp only [EntryModel.windowRows, keptRows_eq_map, listEntries_eq_map, List.map_append,
    List.map_map]
  rfl

theorem eq_of_rowBefore {a b : EntryRow}
    (ha : a ∈ (keptInOrder db filter window held).map pageRow)
    (hb : b ∈ (keptInOrder db filter window held).map pageRow)
    (hab : EntryModel.rowBefore a b) (hba : EntryModel.rowBefore b a) : a = b := by
  obtain ⟨e, he, rfl⟩ := List.mem_map.1 ha
  obtain ⟨f, hf, rfl⟩ := List.mem_map.1 hb
  rw [Table.eq_of_key_eq (mem_keptInOrder.1 he).1 (mem_keptInOrder.1 hf).1
    (id_eq_of_rowBefore hab hba)]

/-- A set of rows is read again as one. -/
theorem nodup_windowRows (hheld : held.Nodup) :
    ((EntryModel.windowRows db filter window held).map EntryRow.id).Nodup := by
  have hkept : (windowEntries db filter window ++ keptEntries db
      ((listEntries db filter window 0).map EntryListRow.id) held).Perm
        (keptInOrder db filter window held) := perm_keptInOrder hheld
  have hperm := (List.perm_insertionSort EntryModel.rowBefore _).trans (hkept.map pageRow)
  rw [windowRows_eq, (hperm.map EntryRow.id).nodup_iff, List.map_map]
  exact nodup_keptInOrder

/-! ## Times unknown and times before 1970 -/

/-- An entry of no known time that is shown above one of a known time. -/
def Misdated (a b : Vuo.EntryRow) : Prop :=
  a.publishedAt = none ∧ ∃ t : ℤ, b.publishedAt = some t ∧ (t < 0 ∨ t = 0 ∧ b.id < a.id)

/-- The model sorts two entries as the mirror lists them, unless they are
misdated. -/
theorem rowBefore_pageRow_iff {a b : Vuo.EntryRow} (hba : Store.newestFirst b a) :
    EntryModel.rowBefore (pageRow b) (pageRow a) ↔ ¬Misdated a b := by
  have hids : (pageRow a).id = a.id ∧ (pageRow b).id = b.id := ⟨rfl, rfl⟩
  have htimes : (pageRow a).published = a.publishedAt.getD 0 ∧
      (pageRow b).published = b.publishedAt.getD 0 := ⟨rfl, rfl⟩
  rw [rowBefore_iff, hids.1, hids.2, htimes.1, htimes.2, Misdated]
  unfold Store.newestFirst Store.laterPublished at hba
  cases ha : a.publishedAt with
  | none =>
      cases hb : b.publishedAt with
      | none =>
          rw [ha, hb] at hba
          simp at hba ⊢
          exact hba
      | some t =>
          have horder (t i j : ℤ) : 0 < t ∨ t = 0 ∧ i ≤ j ↔ ¬(t < 0 ∨ t = 0 ∧ j < i) := by
            omega
          simp only [Option.getD_none, Option.getD_some, true_and, Option.some.injEq,
            exists_eq_left']
          exact horder t a.id b.id
  | some s =>
      cases hb : b.publishedAt with
      | none =>
          rw [ha, hb] at hba
          simp at hba
      | some t =>
          rw [ha, hb] at hba
          simp at hba ⊢
          omega

theorem windowRows_eq_iff (hheld : held.Nodup) :
    EntryModel.windowRows db filter window held =
        (keptInOrder db filter window held).map pageRow ↔
      ∀ a ∈ keptInOrder db filter window held, ∀ b ∈ keptInOrder db filter window held,
        ¬Misdated a b := by
  have htell : ∀ e ∈ keptInOrder db filter window held,
      ∀ f ∈ keptInOrder db filter window held,
        Store.newestFirst e f → Store.newestFirst f e → e = f := by
    intro e he f hf hef hfe
    exact Table.eq_of_key_eq (mem_keptInOrder.1 he).1 (mem_keptInOrder.1 hf).1
      (Store.Later.id_eq (Store.newestFirst_iff.1 hef) (Store.newestFirst_iff.1 hfe))
  rw [windowRows_eq, insertionSort_eq_iff ((perm_keptInOrder hheld).map pageRow)
    (fun a ha b hb => eq_of_rowBefore ha hb), List.pairwise_map,
    pairwise_iff_of_pairwise nodup_keptInOrder.of_map keptInOrder_pairwise htell]
  constructor
  · intro h a ha b hb hmisdated
    have hba : Store.newestFirst b a := by
      obtain ⟨hnone, t, hsome, -⟩ := hmisdated
      refine .inl ?_
      rw [hnone, hsome]
      rfl
    have hne : b ≠ a := by
      rintro rfl
      obtain ⟨hnone, t, hsome, -⟩ := hmisdated
      rw [hnone] at hsome
      cases hsome
    exact (rowBefore_pageRow_iff hba).1 (h b hb a ha hne hba) hmisdated
  · intro h a ha b hb _ hab
    exact (rowBefore_pageRow_iff hab).2 (h b hb a ha)

/-! ## A reload -/

/-- What a reload that keeps rows makes of a model, where the mirror and the rows
shown before are these. -/
structure KeepsShown (db : Db) (filter : EntryFilter) (window : ℤ) (held : List ℤ)
    (m : EntryModel) : Prop where
  rows : m.rows = (keptInOrder db filter window held).map pageRow
  once : (m.rows.map EntryRow.id).Nodup
  fresh : ((listEntries db filter window 0).map EntryRow.ofListRow).Sublist m.rows
  more : m.hasMore = true ↔ window ≤ (listEntries db filter window 0).length

theorem listEntries_sublist :
    ((listEntries db filter window 0).map EntryRow.ofListRow).Sublist
      ((keptInOrder db filter window held).map pageRow) := by
  have hwindow : (windowEntries db filter window).Sublist (keptInOrder db filter window held) := by
    have hlisted : ∀ e ∈ windowEntries db filter window, decide
        (e.id ∈ (listEntries db filter window 0).map EntryListRow.id ∨ e.id ∈ held) = true := by
      intro e he
      rw [decide_eq_true_eq, listEntries_eq_map, List.map_map]
      exact .inl (List.mem_map_of_mem he)
    rw [← List.filter_eq_self.2 hlisted]
    exact windowEntries_sublist.filter _
  rw [listEntries_eq_map, List.map_map]
  exact hwindow.map pageRow

variable [Unicode] {m : EntryModel} {scope : Scope}

/-- A reload of a list that is not a search. -/
theorem reloadKeeping_filter (hscope : m.scope = some scope)
    (hfilter : scope.toFilter = some filter) (chromeMoved : Bool) :
    (m.reloadKeeping db m.seenRefreshEpoch chromeMoved true).1.rows =
        EntryModel.windowRows db filter m.window (m.rows.map EntryRow.id) ∧
      (m.reloadKeeping db m.seenRefreshEpoch chromeMoved true).1.hasMore =
        decide (m.window ≤ ((listEntries db filter m.window 0).length : ℤ)) := by
  have hsearch : scope ≠ .search := by
    rintro rfl
    cases hfilter
  have hsame : m.sawRefresh m.seenRefreshEpoch = m := rfl
  have hread : m.readAgain db scope true =
      (m, EntryModel.windowRows db filter m.window (m.rows.map EntryRow.id),
        decide (m.window ≤ ((listEntries db filter m.window 0).length : ℤ))) := by
    simp only [EntryModel.readAgain, hfilter, if_true]
  unfold EntryModel.reloadKeeping
  simp only [hscope, hsame, decide_true, Bool.and_true, hread, if_neg hsearch]
  exact showRead_reset m _ _ _ chromeMoved

end Kept

section Runs

open scoped Vuo.Reader Search.Letters

/-- An entry of no known time, and one of 1969. -/
def oldMirror : Db :=
  { Db.empty with
    entries := (Table.empty.put (unreadRow 1)).put { unreadRow 2 with publishedAt := some (-1) } }

/-- A list of all entries that shows none yet. -/
def allEntries : EntryModel where
  list := ⟨[], []⟩
  hasMore := false
  searchFound := []
  searchFeeds := []
  counts := .zero
  groups := {}
  scope := some .all
  search := ""
  limit := 0
  seenRefreshEpoch := 0

end Runs

end Vuo.Shim.Lists
