import Vuo.Model.Queries

/-!
# The read paths agree

Every statement selects what the filter of its list says, and every list is
part of one sequence: all entries, newest first.
-/

namespace Vuo.Queries

open Foundation Foundation.Sql Foundation.Sql.Truth Store.EntryFilter

variable (db : Db)

/-! ## What the statements select -/

theorem holds_isIn_hiddenCategories (id : Option CategoryId) :
    (isIn id (hiddenCategories db)).holds =
      db.categories.rows.any fun c => id = some c.id && c.hideGlobally := by
  rw [holds_isIn, Bool.eq_iff_iff, decide_eq_true_eq, List.any_eq_true]
  simp only [hiddenCategories, holds_ofBool, List.mem_map, List.mem_filter, Option.some.injEq,
    Bool.and_eq_true, decide_eq_true_eq]
  constructor
  · rintro ⟨x, rfl, c, ⟨hc, hhide⟩, rfl⟩
    exact ⟨c, hc, rfl, hhide⟩
  · rintro ⟨c, hc, rfl, hhide⟩
    exact ⟨c.id, rfl, c, ⟨hc, hhide⟩, rfl⟩

/-- A feed without a category is not hidden by one, although `NULL IN (..)` is
not false. -/
theorem isIn_hiddenFeeds (id : FeedId) :
    isIn (some id) (hiddenFeeds db) = ofBool (Store.hidden id db) := by
  have hids : hiddenFeeds db = ((db.feeds.rows.filter fun f =>
      f.hideGlobally ||
        db.categories.rows.any fun c => f.categoryId = some c.id && c.hideGlobally).map
          FeedRow.id).map some := by
    simp only [hiddenFeeds, holds_or, holds_ofBool, holds_isIn_hiddenCategories, List.map_map]
    rfl
  rw [hids, isIn_some]
  congr 1
  rw [Bool.eq_iff_iff, decide_eq_true_eq, Store.hidden, List.any_eq_true, List.mem_map]
  simp only [List.mem_filter, Bool.and_eq_true, decide_eq_true_eq]
  constructor
  · rintro ⟨f, ⟨hf, hhide⟩, rfl⟩
    exact ⟨f, hf, rfl, hhide⟩
  · rintro ⟨f, hf, rfl, hhide⟩
    exact ⟨f, ⟨hf, hhide⟩, rfl⟩

theorem isIn_feedsOfCategory (e : EntryRow) (id : CategoryId) :
    (isIn (some e.feedId) (feedsOfCategory db id)).holds = selects (.category id) db e := by
  rw [holds_isIn, selects, Bool.eq_iff_iff, decide_eq_true_eq, List.any_eq_true]
  simp only [feedsOfCategory, holds_eq, List.mem_map, List.mem_filter, Option.some.injEq,
    decide_eq_true_eq, Bool.and_eq_true]
  constructor
  · rintro ⟨x, rfl, f, ⟨hf, y, hy, rfl⟩, hid⟩
    exact ⟨f, hf, hid, hy⟩
  · rintro ⟨f, hf, hid, hcategory⟩
    exact ⟨e.feedId, rfl, f, ⟨hf, id, hcategory, rfl⟩, hid⟩

/-- The condition of an unread list. -/
theorem holds_unread (e : EntryRow) :
    ((ofBool (e.status = .unread)).and (isIn (some e.feedId) (hiddenFeeds db)).not).holds =
      selects .unread db e := by
  simp [isIn_hiddenFeeds, selects]

theorem holds_all (e : EntryRow) :
    (isIn (some e.feedId) (hiddenFeeds db)).not.holds = selects .all db e := by
  simp [isIn_hiddenFeeds, selects]

theorem holds_byFeed (id : FeedId) (e : EntryRow) :
    (eq (some e.feedId) (some id)).holds = selects (.feed id) db e := by
  simp [selects, eq_comm]

/-! ## One order -/

end Vuo.Queries

namespace Vuo.Store

open Foundation

theorem laterPublished_trans {s t u : Option ℤ} (hst : laterPublished s t = true)
    (htu : laterPublished t u = true) : laterPublished s u = true := by
  cases s <;> cases t <;> cases u <;> simp [laterPublished] at hst htu ⊢
  omega

theorem laterPublished_total (s t : Option ℤ) :
    laterPublished s t = true ∨ s = t ∨ laterPublished t s = true := by
  cases s <;> cases t <;> simp [laterPublished]
  omega

theorem laterPublished_asymm {s t : Option ℤ} (hst : laterPublished s t = true) :
    laterPublished t s = false := by
  cases s <;> cases t <;> simp [laterPublished] at hst ⊢
  omega

/-- Before another in every list: by time of publication and id. -/
def Later (a b : Option ℤ × ℤ) : Prop :=
  laterPublished a.1 b.1 = true ∨ a.1 = b.1 ∧ b.2 ≤ a.2

namespace Later

variable {a b c : Option ℤ × ℤ}

theorem trans (hab : Later a b) (hbc : Later b c) : Later a c := by
  rcases hab with hab | ⟨hab, hid⟩
  · rcases hbc with hbc | ⟨hbc, -⟩
    · exact .inl (laterPublished_trans hab hbc)
    · exact .inl (hbc ▸ hab)
  · rcases hbc with hbc | ⟨hbc, hid'⟩
    · exact .inl (hab ▸ hbc)
    · exact .inr ⟨hab.trans hbc, hid'.trans hid⟩

theorem total (a b : Option ℤ × ℤ) : Later a b ∨ Later b a := by
  rcases laterPublished_total a.1 b.1 with h | h | h
  · exact .inl (.inl h)
  · rcases le_total b.2 a.2 with hid | hid
    · exact .inl (.inr ⟨h, hid⟩)
    · exact .inr (.inr ⟨h.symm, hid⟩)
  · exact .inr (.inl h)

/-- The order tells different ids apart. -/
theorem id_eq (hab : Later a b) (hba : Later b a) : a.2 = b.2 := by
  have hneither : ∀ {s t : Option ℤ}, laterPublished s t = true → t = s → False := by
    rintro s _ h rfl
    rw [laterPublished_asymm h] at h
    cases h
  rcases hab with hab | ⟨hab, hid⟩
  · rcases hba with hba | ⟨hba, -⟩
    · rw [laterPublished_asymm hab] at hba
      cases hba
    · exact (hneither hab hba).elim
  · rcases hba with hba | ⟨-, hid'⟩
    · exact (hneither hba hab).elim
    · exact le_antisymm hid' hid

end Later

theorem newestFirst_iff {e f : EntryRow} :
    newestFirst e f ↔ Later (e.publishedAt, e.id) (f.publishedAt, f.id) :=
  Iff.rfl

instance : IsTrans EntryRow newestFirst where
  trans _ _ _ hab hbc := newestFirst_iff.2 ((newestFirst_iff.1 hab).trans (newestFirst_iff.1 hbc))

instance : Std.Total newestFirst where
  total a b := Later.total (a.publishedAt, a.id) (b.publishedAt, b.id)

/-- All entries of the mirror as a list shows them. -/
def inListOrder (db : Db) : List EntryRow :=
  db.entries.rows.insertionSort newestFirst

theorem mem_inListOrder {db : Db} {e : EntryRow} : e ∈ inListOrder db ↔ e ∈ db.entries :=
  List.mem_insertionSort _

theorem nodup_inListOrder (db : Db) : ((inListOrder db).map EntryRow.id).Nodup :=
  ((List.perm_insertionSort newestFirst _).map EntryRow.id).nodup_iff.2 db.entries.nodup

theorem filter_inListOrder (db : Db) (p : EntryRow → Bool) :
    (db.entries.rows.filter p).insertionSort newestFirst = (inListOrder db).filter p := by
  have htell : ∀ e ∈ db.entries.rows, ∀ f ∈ db.entries.rows,
      newestFirst e f → newestFirst f e → e = f := by
    intro e he f hf hef hfe
    exact Table.eq_of_key_eq he hf (Later.id_eq (newestFirst_iff.1 hef) (newestFirst_iff.1 hfe))
  exact (Sql.filter_insertionSort htell p).symm

end Vuo.Store

namespace Vuo.Queries

open Foundation Foundation.Sql Foundation.Sql.Truth Store Store.EntryFilter

/-! ## What the lists hold -/

section Lists

variable [UrlLibrary] (db : Db)

theorem page_eq {condition : EntryRow → Truth} {p : EntryRow → Bool}
    (h : ∀ e, (condition e).holds = p e) (limit offset : ℤ) :
    page db condition limit offset =
      limitOffset limit offset (((inListOrder db).filter p).map listRow) := by
  simp only [page, h, filter_inListOrder, map_limitOffset]

/-- A page of any list is a piece of the entries its filter selects, in the one
order. -/
theorem listEntries_eq (filter : EntryFilter) (limit offset : ℤ) :
    listEntries db filter limit offset =
      limitOffset limit offset (((inListOrder db).filter (selects filter db)).map listRow) := by
  cases filter with
  | unread => exact page_eq db (holds_unread db) limit offset
  | starred => exact page_eq db (fun e => holds_ofBool _) limit offset
  | all => exact page_eq db (holds_all db) limit offset
  | feed id => exact page_eq db (holds_byFeed db id) limit offset
  | category id => exact page_eq db (fun e => isIn_feedsOfCategory db e id) limit offset

theorem listEntries_unlimited (filter : EntryFilter) :
    listEntries db filter (-1) 0 =
      ((inListOrder db).filter (selects filter db)).map listRow := by
  rw [listEntries_eq, limitOffset_unlimited]

theorem ids_listEntries (filter : EntryFilter) :
    (listEntries db filter (-1) 0).map EntryListRow.id =
      ((inListOrder db).filter (selects filter db)).map EntryRow.id := by
  rw [listEntries_unlimited, List.map_map]
  rfl

end Lists

section Ids

variable (db : Db)

theorem mem_ids {condition : EntryRow → Truth} {p : EntryRow → Bool}
    (h : ∀ e, (condition e).holds = p e) (id : EntryId) :
    id ∈ ids db condition ↔ id ∈ ((inListOrder db).filter p).map EntryRow.id := by
  simp only [ids, h, List.mem_map, List.mem_filter, mem_inListOrder, Table.mem_def]

theorem mem_entryIdsMatching (filter : EntryFilter) (id : EntryId) :
    id ∈ entryIdsMatching db filter ↔
      id ∈ ((inListOrder db).filter (selects filter db)).map EntryRow.id := by
  cases filter with
  | unread => exact mem_ids db (holds_unread db) id
  | starred => exact mem_ids db (fun e => holds_ofBool _) id
  | all => exact mem_ids db (holds_all db) id
  | feed feedId => exact mem_ids db (holds_byFeed db feedId) id
  | category categoryId =>
      exact mem_ids db (fun e => isIn_feedsOfCategory db e categoryId) id

theorem unreadCount_eq :
    unreadCount db = ((inListOrder db).filter (selects .unread db)).length := by
  simp only [unreadCount, holds_unread, ← filter_inListOrder, List.length_insertionSort]

theorem arrivals_eq :
    arrivals db = (((inListOrder db).filter (selects .unread db)).filter
      EntryRow.arrived).map EntryRow.id := by
  have hcondition : ∀ e : EntryRow, ((ofBool e.arrived).and ((ofBool (e.status = .unread)).and
      (isIn (some e.feedId) (hiddenFeeds db)).not)).holds =
        (e.arrived && selects .unread db e) := by
    intro e
    rw [holds_and, holds_ofBool, holds_unread]
  simp only [arrivals, hcondition, filter_inListOrder, List.filter_filter]

end Ids

/-! ## Search -/

section Search

open Search

theorem foundBefore_iff {a b : Found} :
    foundBefore a b ↔ kindRank a.kind < kindRank b.kind ∨
      a.kind = b.kind ∧ Later (a.publishedAt, a.id) (b.publishedAt, b.id) :=
  Iff.rfl

theorem kindRank_total (k l : MatchKind) :
    kindRank k < kindRank l ∨ k = l ∨ kindRank l < kindRank k := by
  cases k <;> cases l <;> decide

instance : IsTrans Found foundBefore where
  trans a b c hab hbc := by
    rw [foundBefore_iff] at *
    rcases hab with hab | ⟨hab, horder⟩
    · rcases hbc with hbc | ⟨hbc, -⟩
      · exact .inl (hab.trans hbc)
      · exact .inl (hbc ▸ hab)
    · rcases hbc with hbc | ⟨hbc, horder'⟩
      · exact .inl (hab ▸ hbc)
      · exact .inr ⟨hab.trans hbc, horder.trans horder'⟩

instance : Std.Total foundBefore where
  total a b := by
    simp only [foundBefore_iff]
    rcases kindRank_total a.kind b.kind with h | h | h
    · exact .inl (.inl h)
    · rcases Later.total (a.publishedAt, a.id) (b.publishedAt, b.id) with hab | hba
      · exact .inl (.inr ⟨h, hab⟩)
      · exact .inr (.inr ⟨h.symm, hba⟩)
    · exact .inr (.inl h)

theorem id_eq_of_foundBefore {a b : Found} (hab : foundBefore a b) (hba : foundBefore b a) :
    a.id = b.id := by
  rw [foundBefore_iff] at hab hba
  rcases hab with hab | ⟨hkind, hab⟩
  · rcases hba with hba | ⟨hkind, -⟩
    · exact absurd hba (by omega)
    · rw [hkind] at hab
      exact absurd hab (lt_irrefl _)
  · rcases hba with hba | ⟨-, hba⟩
    · rw [hkind] at hba
      exact absurd hba (lt_irrefl _)
    · exact Later.id_eq hab hba

variable [Unicode] (db : Db)

/-- Where an article matches, if it does. -/
def kindOf (query : String) (e : EntryRow) : Option MatchKind :=
  (SearchQuery.parse query.toList).bind fun q => q.classify e.title.toList e.content.toList

/-- No article is found as a feed. -/
theorem classify_ne_feed (q : SearchQuery) (title content : List Char) :
    q.classify title content ≠ some .feed := by
  intro h
  unfold SearchQuery.classify at h
  dsimp only at h
  split_ifs at h <;> cases h

/-- Nothing is lost on the way through the number. -/
theorem fromSql_sqlMatch (query : String) (e : EntryRow) :
    MatchKind.fromSql (sqlMatch query.toList e.title.toList e.content.toList) =
      kindOf query e := by
  unfold sqlMatch kindOf
  cases SearchQuery.parse query.toList with
  | none => rfl
  | some q =>
      have hnot := classify_ne_feed q e.title.toList e.content.toList
      dsimp only [Option.bind_some]
      cases hkind : q.classify e.title.toList e.content.toList with
      | none => rfl
      | some kind =>
          cases kind with
          | title => rfl
          | feed => exact absurd hkind hnot
          | text => rfl

/-- What the search keeps of an article. -/
def asFound (kind : MatchKind) (e : EntryRow) : Found :=
  { kind := kind, publishedAt := e.publishedAt, id := e.id }

theorem found_eq (query : String) :
    found db query.toList =
      db.entries.rows.filterMap fun e => (kindOf query e).map fun kind => asFound kind e := by
  simp only [found, fromSql_sqlMatch]
  rfl

/-- One group of what is found. -/
theorem filter_found (query : String) (kind : MatchKind) :
    (found db query.toList).filter (fun f => f.kind = kind) =
      (db.entries.rows.filter fun e => kindOf query e = some kind).map (asFound kind) := by
  rw [found_eq]
  induction db.entries.rows with
  | nil => rfl
  | cons e rows ih =>
      rw [List.filterMap_cons, List.filter_cons]
      cases hkind : kindOf query e with
      | none => simpa using ih
      | some k =>
          by_cases hk : k = kind
          · subst hk
            simpa [asFound] using ih
          · simpa [asFound, hk] using ih

theorem eq_of_mem_found {query : String} {a b : Found} (ha : a ∈ found db query.toList)
    (hb : b ∈ found db query.toList) (hid : a.id = b.id) : a = b := by
  simp only [found_eq, List.mem_filterMap, Option.map_eq_some_iff] at ha hb
  obtain ⟨e, he, kind, hkind, rfl⟩ := ha
  obtain ⟨f, hf, kind', hkind', rfl⟩ := hb
  obtain rfl : e = f := Table.eq_of_key_eq he hf hid
  rw [Option.some.inj (hkind.symm.trans hkind')]

/-- A group of matches is the part of the one order that matches so. -/
theorem ids_searchMatches (query : String) (kind : MatchKind) :
    ((searchMatches db query).filter fun m => m.kind = kind).map SearchMatch.id =
      ((inListOrder db).filter fun e => kindOf query e = some kind).map EntryRow.id := by
  unfold searchMatches
  by_cases hparse : SearchQuery.parse query.toList = none
  · have hnone : ∀ e, kindOf query e = none := by
      intro e
      rw [kindOf, hparse]
      rfl
    simp [hparse, hnone]
  · rw [if_neg hparse, List.filter_map, List.map_map]
    have htell : ∀ a ∈ found db query.toList, ∀ b ∈ found db query.toList,
        foundBefore a b → foundBefore b a → a = b := by
      intro a ha b hb hab hba
      exact eq_of_mem_found db ha hb (id_eq_of_foundBefore hab hba)
    have hsorted := Sql.filter_insertionSort htell fun f => decide (f.kind = kind)
    have hgroup : (fun m : SearchMatch => decide (m.kind = kind)) ∘
        (fun f : Found => ({ kind := f.kind, id := f.id } : SearchMatch)) =
          fun f => decide (f.kind = kind) := rfl
    rw [hgroup, hsorted, filter_found, ← filter_inListOrder]
    have hmap := List.map_insertionSort newestFirst foundBefore (asFound kind)
      (db.entries.rows.filter fun e => kindOf query e = some kind)
      (fun a _ b _ => by simp [newestFirst_iff, foundBefore_iff, asFound])
    rw [← hmap, List.map_map]
    rfl

end Search

/-! ## The queries the pages ask -/

section Pages

variable (db : Db) (filter : EntryFilter)

theorem listEntries_ofNat [UrlLibrary] (limit offset : ℕ) :
    listEntries db filter limit offset = Store.listEntries filter limit offset db := by
  have hlimit : ¬(limit : ℤ) < 0 := by omega
  rw [listEntries_eq, limitOffset, if_neg hlimit, Store.listEntries, filter_inListOrder]
  simp only [Int.toNat_natCast, List.map_take, List.map_drop]

theorem perm_entryIdsMatching :
    (entryIdsMatching db filter).Perm (Store.entryIdsMatching filter db) := by
  have hperm : ∀ condition : EntryRow → Truth, (∀ e, (condition e).holds = selects filter db e) →
      (ids db condition).Perm (Store.entryIdsMatching filter db) := by
    intro condition h
    simp only [ids, h, Store.entryIdsMatching]
    exact ((List.perm_insertionSort newestFirst _).map EntryRow.id).symm
  cases filter with
  | unread => exact hperm _ (holds_unread db)
  | starred => exact hperm _ fun e => holds_ofBool _
  | all => exact hperm _ (holds_all db)
  | feed id => exact hperm _ (holds_byFeed db id)
  | category id => exact hperm _ fun e => isIn_feedsOfCategory db e id

theorem unreadCount_eq_store : unreadCount db = Store.unreadCount db := by
  rw [unreadCount_eq, ← filter_inListOrder, List.length_insertionSort,
    ← List.countP_eq_length_filter]
  rfl

theorem arrivals_eq_store : arrivals db = Store.arrivals db := by
  rw [arrivals_eq, Store.arrivals, filter_inListOrder, List.filter_filter]
  simp only [selects, Bool.and_assoc]

theorem concatPages_listEntries [UrlLibrary] (limits : List ℤ)
    (hlimits : ∀ limit ∈ limits, 0 < limit) :
    concatPages (listEntries db filter) limits 0 =
      (listEntries db filter (-1) 0).take (limits.map Int.toNat).sum := by
  have hpages : listEntries db filter = fun limit offset => limitOffset limit offset
      (((inListOrder db).filter (selects filter db)).map listRow) := by
    funext limit offset
    exact listEntries_eq db filter limit offset
  rw [hpages]
  have htake := concatPages_limitOffset (((inListOrder db).filter (selects filter db)).map listRow)
    limits (fun limit h => (hlimits limit h).le) 0
  simpa [limitOffset_unlimited] using htake

end Pages

/-! ## Agreement -/

section Agreement

open Search

variable [UrlLibrary] [Unicode]

/-- What the read paths owe each other, all lists being part of `order`. -/
structure Agree (order : List EntryId) (filter : EntryFilter) (query : String) (db : Db) :
    Prop where
  unlimited : ∀ limit : ℤ, db.entries.rows.length ≤ limit →
    listEntries db filter limit 0 = listEntries db filter (-1) 0
  matching : ∀ row, row ∈ listEntries db filter (-1) 0 ↔
    ∃ e ∈ db.entries, selects filter db e = true ∧ row = listRow e
  once : ((listEntries db filter (-1) 0).map EntryListRow.id).Nodup
  ordered : ((listEntries db filter (-1) 0).map EntryListRow.id).Sublist order
  pages : ∀ limits : List ℤ, (∀ limit ∈ limits, 0 < limit) →
    concatPages (listEntries db filter) limits 0 =
      (listEntries db filter (-1) 0).take (limits.map Int.toNat).sum
  exhausted : ∀ limits : List ℤ, (∀ limit ∈ limits, 0 < limit) → ∀ limit : ℤ, 0 < limit →
    listEntries db filter limit (concatPages (listEntries db filter) limits 0).length = [] →
    concatPages (listEntries db filter) limits 0 = listEntries db filter (-1) 0
  ids : ∀ id, id ∈ entryIdsMatching db filter ↔
    id ∈ (listEntries db filter (-1) 0).map EntryListRow.id
  count : unreadCount db = (listEntries db .unread (-1) 0).length
  arrivals : (arrivals db).Sublist ((listEntries db .unread (-1) 0).map EntryListRow.id)
  found : ∀ kind id, id ∈ ((searchMatches db query).filter (·.kind = kind)).map SearchMatch.id ↔
    ∃ e ∈ db.entries, kindOf query e = some kind ∧ e.id = id
  grouped : ∀ kind,
    (((searchMatches db query).filter (·.kind = kind)).map SearchMatch.id).Sublist order

/-- The read paths agree, whatever the mirror holds: there is one sequence of
all entries, newest first, that every list is a part of. -/
theorem read_paths_agree (db : Db) :
    ∃ order : List EntryId, order.Nodup ∧ ∀ filter query, Agree order filter query db := by
  refine ⟨(inListOrder db).map EntryRow.id, nodup_inListOrder db, fun filter query => ?_⟩
  constructor
  case unlimited =>
    intro limit hlimit
    have hlength : (((inListOrder db).filter (selects filter db)).map listRow).length ≤
        db.entries.rows.length := by
      rw [List.length_map, ← List.length_insertionSort newestFirst db.entries.rows]
      exact List.length_filter_le _ _
    rw [listEntries_eq, limitOffset_of_length_le (by omega), listEntries_unlimited]
  case matching =>
    intro row
    simp only [listEntries_unlimited, List.mem_map, List.mem_filter, mem_inListOrder]
    constructor
    · rintro ⟨e, ⟨he, hsel⟩, rfl⟩
      exact ⟨e, he, hsel, rfl⟩
    · rintro ⟨e, he, hsel, rfl⟩
      exact ⟨e, ⟨he, hsel⟩, rfl⟩
  case once =>
    rw [ids_listEntries]
    exact (nodup_inListOrder db).sublist (List.filter_sublist.map EntryRow.id)
  case ordered =>
    rw [ids_listEntries]
    exact List.filter_sublist.map EntryRow.id
  case pages => exact concatPages_listEntries db filter
  case exhausted =>
    intro limits hlimits limit hlimit hempty
    rw [concatPages_listEntries db filter limits hlimits] at hempty ⊢
    refine List.take_of_length_le (not_lt.1 fun hmore => ?_)
    -- A page from inside the list is not empty.
    have hnot : ¬limit < 0 := by omega
    rw [listEntries_eq, ← listEntries_unlimited, limitOffset, if_neg hnot, List.length_take,
      Nat.min_eq_left hmore.le, Int.toNat_natCast] at hempty
    have hzero := congrArg List.length hempty
    rw [List.length_take, List.length_drop, List.length_nil] at hzero
    omega
  case ids =>
    intro id
    rw [ids_listEntries]
    exact mem_entryIdsMatching db filter id
  case count => rw [unreadCount_eq, listEntries_unlimited, List.length_map]
  case arrivals =>
    rw [arrivals_eq, ids_listEntries]
    exact List.filter_sublist.map EntryRow.id
  case found =>
    intro kind id
    simp only [ids_searchMatches, List.mem_map, List.mem_filter, mem_inListOrder,
      decide_eq_true_eq]
    constructor
    · rintro ⟨e, ⟨he, hkind⟩, rfl⟩
      exact ⟨e, he, hkind, rfl⟩
    · rintro ⟨e, he, hkind, rfl⟩
      exact ⟨e, ⟨he, hkind⟩, rfl⟩
  case grouped =>
    intro kind
    rw [ids_searchMatches]
    exact List.filter_sublist.map EntryRow.id

end Agreement

end Vuo.Queries
