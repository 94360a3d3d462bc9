import Vuo.Model.Shim.Reads
import Vuo.Verification.Shim.Kept

/-!
# Reads that fail

What the models show after a reload, a rebuild or a mark-all in which some read
of the mirror failed. A default stands in for what was not read, so little is
left as it was, and what was read counts as read.
-/

namespace Vuo.Shim.Lists

/-! ## Publishing too many rows -/

section Publishing

variable {R : Type*} {rowId : R → ℤ} {m : ListModel R} {held fresh : List R} {how : Publish}

theorem lastRow_eq_none {rows : List R} :
    lastRow rows = none ↔ rows = [] ∨ 2147483648 < rows.length := by
  unfold lastRow
  split_ifs with hne
  · simp [hne]
  · have hpos : 0 < rows.length := List.length_pos_iff.2 hne
    unfold toI32
    split_ifs with h
    · simp only [false_iff, not_or, not_lt]
      exact ⟨hne, by omega⟩
    · simp only [true_iff]
      exact .inr (by omega)

theorem rows_removeAll :
    (removeAll m).rows = if 2147483648 < m.rows.length then m.rows else [] := by
  unfold removeAll
  split
  next hlast =>
    rcases lastRow_eq_none.1 hlast with h | h
    · simp [h]
    · rw [if_pos h]
  next last hlast =>
    have hlong : ¬2147483648 < m.rows.length := fun h => by
      rw [lastRow_eq_none.2 (.inr h)] at hlast
      cases hlast
    rw [if_neg hlong]
    rfl

theorem rows_insertAll : (insertAll m fresh).rows =
    if fresh = [] ∨ 2147483648 < fresh.length then m.rows else fresh := by
  unfold insertAll
  split
  next hlast =>
    rw [if_pos (lastRow_eq_none.1 hlast)]
  next last hlast =>
    have hshort : ¬(fresh = [] ∨ 2147483648 < fresh.length) := fun h => by
      rw [lastRow_eq_none.2 h] at hlast
      cases hlast
    rw [if_neg hshort]
    rfl

variable (rowId) in
/-- More rows than a view can be told of, where a search would have to tell it. -/
def Untellable (held fresh : List R) : Prop :=
  held.map rowId ≠ fresh.map rowId ∧ runToInsert rowId held fresh .search = none ∧
    (fresh = [] ∧ 2147483648 < held.length ∨
      2147483648 < fresh.length ∧ (held = [] ∨ 2147483648 < held.length))

theorem rows_publishAll_eq_iff (hids : m.rows.map rowId ≠ fresh.map rowId) :
    (publishAll m fresh).rows = m.rows ↔
      fresh = [] ∧ 2147483648 < m.rows.length ∨
        2147483648 < fresh.length ∧ (m.rows = [] ∨ 2147483648 < m.rows.length) := by
  have hne : m.rows ≠ fresh := fun h => hids (by rw [h])
  have hrows : (publishAll m fresh).rows = (insertAll (removeAll m) fresh).rows := rfl
  rw [hrows, rows_insertAll, rows_removeAll]
  by_cases hlong : 2147483648 < m.rows.length
  · by_cases hfresh : fresh = [] ∨ 2147483648 < fresh.length
    · rw [if_pos hfresh, if_pos hlong]
      tauto
    · rw [if_neg hfresh]
      rw [not_or] at hfresh
      simp [hfresh.1, hfresh.2, hne.symm]
  · by_cases hfresh : fresh = [] ∨ 2147483648 < fresh.length
    · rw [if_pos hfresh, if_neg hlong]
      rcases hfresh with h | h
      · have hheld : m.rows ≠ [] := fun hnil => hne (hnil.trans h.symm)
        simp [h, hlong, hheld.symm]
      · simp [h, hlong, eq_comm]
    · rw [if_neg hfresh]
      rw [not_or] at hfresh
      simp [hfresh.1, hfresh.2, hne.symm]

variable [DecidableEq R]

/-- Rows are left as they were if the fresh ones are the same, or cannot be told. -/
theorem rows_publishRowsAs_eq_iff :
    (publishRowsAs rowId m fresh how).1.rows = m.rows ↔
      m.rows = fresh ∨ how = .search ∧ Untellable rowId m.rows fresh := by
  cases how with
  | reset =>
      rw [rows_publishRowsAs_reset]
      simp [eq_comm]
  | search =>
      simp only [true_and]
      cases hrun : runToInsert rowId m.rows fresh .search with
      | some run =>
          have huntellable : ¬Untellable rowId m.rows fresh := fun h => by
            rw [h.2.1] at hrun
            cases hrun
          have hrows : (publishRowsAs rowId m fresh .search).1.rows = fresh := by
            unfold publishRowsAs
            rw [hrun]
            exact rows_publishRun m fresh _ _
          rw [hrows, or_iff_left huntellable, eq_comm]
      | none =>
          by_cases hids : m.rows.map rowId = fresh.map rowId
          · have huntellable : ¬Untellable rowId m.rows fresh := fun h => h.1 hids
            have hrows : (publishRowsAs rowId m fresh .search).1.rows = fresh := by
              simp [publishRowsAs, hrun, hids]
            rw [hrows, or_iff_left huntellable, eq_comm]
          · have hne : m.rows ≠ fresh := fun h => hids (by rw [h])
            have hrows : (publishRowsAs rowId m fresh .search).1.rows =
                (publishAll m fresh).rows := by
              simp [publishRowsAs, hrun, hids]
            rw [hrows, rows_publishAll_eq_iff hids, or_iff_right hne, Untellable]
            simp [hids, hrun]

end Publishing

namespace Reads

open Foundation Queries Search

/-! ## What is answered -/

namespace Mirror

variable {α : Type*} {mirror : Mirror} {q : Query}

/-- The read of this query is refused, or the query returns an error. -/
def Unanswered (mirror : Mirror) (q : Query) : Prop :=
  mirror.borrow = .exclusive ∨ mirror.fails q = true

instance (mirror : Mirror) (q : Query) : Decidable (mirror.Unanswered q) :=
  inferInstanceAs (Decidable (_ ∨ _))

theorem read_of_refused (h : mirror.borrow = .exclusive) (f : Db → α) : mirror.read f = none :=
  if_pos h

theorem read_of_granted (h : mirror.borrow ≠ .exclusive) (f : Db → α) :
    mirror.read f = some (f mirror.db) :=
  if_neg h

/-- The default stands in at both levels. -/
theorem getD_read_query (found : Db → α) (default : α) :
    (mirror.read fun db => (mirror.query q (found db)).getD default).getD default =
      if mirror.Unanswered q then default else found mirror.db := by
  by_cases hrefused : mirror.borrow = .exclusive
  · rw [read_of_refused hrefused, if_pos (.inl hrefused), Option.getD_none]
  · rw [read_of_granted hrefused, Option.getD_some]
    cases hfails : mirror.fails q with
    | false => simp [query, Unanswered, hfails, hrefused]
    | true => simp [query, Unanswered, hfails]

theorem query_join_eq_some {found : Option α} {a : α} :
    (mirror.query q found).join = some a ↔ mirror.fails q = false ∧ found = some a := by
  unfold query
  cases mirror.fails q <;> simp

end Mirror

/-! ## Names and icons -/

namespace Context

variable {mirror : Mirror} {ctx : Context}

/-- The cached map, if it is of this generation. -/
def current (ctx : Context) : Option Shared :=
  (ctx.chrome.filter fun cached => cached.generation = ctx.signal.generation).map
    CachedChrome.feeds

/-- The names and icons last built. -/
def heldChrome (ctx : Context) : ChromeMap :=
  (ctx.chrome.map fun cached => cached.feeds.map).getD .empty

/-- The names and icons are read, and the read fails. -/
def ChromeFails (mirror : Mirror) (ctx : Context) : Prop :=
  ctx.current = none ∧ mirror.Unanswered .feedChrome

/-- The map a model is handed is this one. -/
def ChromeStands (mirror : Mirror) (ctx : Context) (map : ChromeMap) : Prop :=
  match ctx.current with
  | some feeds => feeds.map = map
  | none => ¬mirror.Unanswered .feedChrome ∧ ChromeMap.ofMirror mirror.db = map

theorem feedChrome_of_current {feeds : Shared} (h : ctx.current = some feeds) :
    ctx.feedChrome mirror = (ctx, feeds) := by
  rw [current, Option.map_eq_some_iff] at h
  obtain ⟨cached, hcached, rfl⟩ := h
  unfold feedChrome
  dsimp only
  rw [hcached]

variable (mirror) in
/-- Whatever is built, an empty map too, is cached for the generation. -/
theorem feedChrome_of_stale (h : ctx.current = none) :
    ∃ feeds : Shared, ∃ nextAddr : ℕ,
      ctx.feedChrome mirror =
        ({ ctx with chrome := some ⟨ctx.signal.generation, feeds⟩, nextAddr := nextAddr }, feeds) ∧
      feeds.map =
        if mirror.Unanswered .feedChrome then .empty else ChromeMap.ofMirror mirror.db := by
  rw [current, Option.map_eq_none_iff] at h
  rw [← Mirror.getD_read_query]
  unfold feedChrome
  dsimp only
  rw [h]
  dsimp only
  split
  next held hheld =>
    exact ⟨held.feeds, ctx.nextAddr, rfl, of_decide_eq_true (Option.filter_eq_some_iff.1 hheld).2⟩
  next => exact ⟨⟨ctx.nextAddr, _⟩, ctx.nextAddr + 1, rfl, rfl⟩

@[simp]
theorem signal_feedChrome : (ctx.feedChrome mirror).1.signal = ctx.signal := by
  cases hcurrent : ctx.current with
  | some feeds => rw [feedChrome_of_current hcurrent]
  | none =>
      obtain ⟨feeds, nextAddr, h, -⟩ := feedChrome_of_stale mirror hcurrent
      rw [h]

variable (mirror ctx) in
/-- What is handed out is what is cached, as current. -/
theorem chrome_feedChrome : ∃ generation : ℕ,
    generation = ctx.signal.generation ∧
      (ctx.feedChrome mirror).1.chrome = some ⟨generation, (ctx.feedChrome mirror).2⟩ := by
  cases hcurrent : ctx.current with
  | some feeds =>
      rw [feedChrome_of_current hcurrent]
      rw [current, Option.map_eq_some_iff] at hcurrent
      obtain ⟨cached, hcached, rfl⟩ := hcurrent
      obtain ⟨hcached, hgeneration⟩ := Option.filter_eq_some_iff.1 hcached
      exact ⟨cached.generation, of_decide_eq_true hgeneration, hcached⟩
  | none =>
      obtain ⟨feeds, nextAddr, h, -⟩ := feedChrome_of_stale mirror hcurrent
      rw [h]
      exact ⟨_, rfl, rfl⟩

theorem current_feedChrome :
    (ctx.feedChrome mirror).1.current = some (ctx.feedChrome mirror).2 := by
  obtain ⟨generation, hgeneration, hchrome⟩ := chrome_feedChrome mirror ctx
  rw [current, hchrome, signal_feedChrome, hgeneration]
  simp

theorem heldChrome_feedChrome :
    (ctx.feedChrome mirror).1.heldChrome = (ctx.feedChrome mirror).2.map := by
  obtain ⟨generation, -, hchrome⟩ := chrome_feedChrome mirror ctx
  rw [heldChrome, hchrome]
  rfl

theorem chromeStands_iff {map : ChromeMap} :
    ChromeStands mirror ctx map ↔
      ¬ChromeFails mirror ctx ∧ (ctx.feedChrome mirror).2.map = map := by
  unfold ChromeStands ChromeFails
  cases hcurrent : ctx.current with
  | some feeds => simp [feedChrome_of_current hcurrent]
  | none =>
      obtain ⟨feeds, nextAddr, h, hmap⟩ := feedChrome_of_stale mirror hcurrent
      rw [h]
      by_cases hanswer : mirror.Unanswered .feedChrome
      · simp [hanswer]
      · simp [hanswer, hmap]

end Context

/-! ## The rows of a scope -/

section Entries

variable [UrlLibrary] {mirror : Mirror} {db : Db}

/-- A row the page holds, as the mirror still answers for it. -/
def Answered (mirror : Mirror) (r : EntryRow) : Prop :=
  mirror.fails (.entryListRow r.id) = false ∧
    (Store.entryListRow r.id mirror.db).map EntryRow.ofListRow = some r

theorem id_of_entryListRow {id : ℤ} {e : EntryListRow} (h : Store.entryListRow id db = some e) :
    e.id = id := by
  rw [Store.entryListRow, Option.map_eq_some_iff] at h
  obtain ⟨entry, hentry, rfl⟩ := h
  have hkey : entry.id = id := Table.key_of_find? hentry
  exact hkey

theorem mem_keptRows {listed : List EntryListRow} {shown : List ℤ} {e : EntryListRow} :
    e ∈ keptRows mirror db listed shown ↔
      e.id ∈ shown ∧ e.id ∉ listed.map EntryListRow.id ∧
        mirror.fails (.entryListRow e.id) = false ∧ Store.entryListRow e.id db = some e := by
  simp only [keptRows, List.mem_filterMap, List.mem_filter, decide_eq_true_eq,
    Mirror.query_join_eq_some]
  constructor
  · rintro ⟨id, ⟨hshown, hlisted⟩, hfails, hrow⟩
    have hid : e.id = id := id_of_entryListRow hrow
    subst hid
    exact ⟨hshown, hlisted, hfails, hrow⟩
  · rintro ⟨hshown, hlisted, h⟩
    exact ⟨e.id, ⟨hshown, hlisted⟩, h⟩

/-- A row whose own read fails is taken off the screen. -/
theorem not_mem_sorted_of_fails {listed : List EntryListRow} {shown : List ℤ} {r : EntryRow}
    (hlisted : r.id ∉ listed.map EntryListRow.id)
    (hfails : mirror.fails (.entryListRow r.id) = true) :
    r ∉ ((listed ++ keptRows mirror db listed shown).map
      EntryRow.ofListRow).insertionSort EntryModel.rowBefore := by
  rw [List.mem_insertionSort, List.mem_map]
  rintro ⟨e, he, rfl⟩
  rcases List.mem_append.1 he with he | he
  · exact hlisted (List.mem_map_of_mem he)
  · have hanswer : mirror.fails (.entryListRow e.id) = false := (mem_keptRows.1 he).2.2.1
    have hsame : mirror.fails (.entryListRow e.id) = true := hfails
    rw [hanswer] at hsame
    cases hsame

/-- With no window left to list, the rows are as they were if each is answered for,
and they stood in order. -/
theorem sorted_keptRows_eq_iff {rows : List EntryRow} :
    ((keptRows mirror mirror.db [] (rows.map EntryRow.id)).map
        EntryRow.ofListRow).insertionSort EntryModel.rowBefore = rows ↔
      rows.Pairwise EntryModel.rowBefore ∧ ∀ r ∈ rows, Answered mirror r := by
  constructor
  · intro h
    have hsorted := List.pairwise_insertionSort EntryModel.rowBefore
      ((keptRows mirror mirror.db [] (rows.map EntryRow.id)).map EntryRow.ofListRow)
    rw [h] at hsorted
    refine ⟨hsorted, fun r hr => ?_⟩
    rw [← h, List.mem_insertionSort, List.mem_map] at hr
    obtain ⟨e, he, rfl⟩ := hr
    obtain ⟨-, -, hfails, hrow⟩ := mem_keptRows.1 he
    refine ⟨hfails, ?_⟩
    have hid : (EntryRow.ofListRow e).id = e.id := rfl
    rw [hid, hrow, Option.map_some]
  · rintro ⟨hsorted, hanswered⟩
    have hkept : (keptRows mirror mirror.db [] (rows.map EntryRow.id)).map
        EntryRow.ofListRow = rows := by
      clear hsorted
      induction rows with
      | nil => rfl
      | cons r rows ih =>
          obtain ⟨hr, hrows⟩ := List.forall_mem_cons.1 hanswered
          obtain ⟨e, he, hshown⟩ := Option.map_eq_some_iff.1 hr.2
          have hread : (mirror.query (.entryListRow r.id)
              (Store.entryListRow r.id mirror.db)).join = some e :=
            Mirror.query_join_eq_some.2 ⟨hr.1, he⟩
          have htail := ih hrows
          simp only [keptRows, List.map_nil, List.not_mem_nil, not_false_eq_true, decide_true,
            List.filter_true] at htail ⊢
          simp only [List.map_cons, List.filterMap_cons, hread, hshown, htail]
    rw [hkept]
    exact hsorted.insertionSort_eq

end Entries

/-! ## A reload -/

section Reload

variable [UrlLibrary] [Unicode] {mirror : Mirror} {ctx : Context} {m : EntryModel}
  {scope : Scope} {keepShown : Bool}

/-- The rows on screen are kept: no manual refresh asked for fresh ones since. -/
def Keeps (ctx : Context) (m : EntryModel) (keepShown : Bool) : Prop :=
  keepShown = true ∧ ctx.signal.refreshEpoch = m.seenRefreshEpoch

instance : Decidable (Keeps ctx m keepShown) :=
  inferInstanceAs (Decidable (_ ∧ _))

omit [UrlLibrary] [Unicode] in
theorem and_eq_keeps :
    (keepShown && decide (ctx.signal.refreshEpoch = m.seenRefreshEpoch)) =
      decide (Keeps ctx m keepShown) := by
  rw [Bool.eq_iff_iff, Bool.and_eq_true, decide_eq_true_iff, decide_eq_true_iff]
  rfl

/-- The rows of what the queries of a search still answer. -/
def searchAnswered (mirror : Mirror) (ctx : Context) (m : EntryModel) (keepShown : Bool) :
    List EntryRow :=
  let groups := if Keeps ctx m keepShown then m.groups else {}
  let feeds :=
    if mirror.Unanswered .searchFeeds then [] else Queries.searchFeeds mirror.db m.search
  let hits :=
    if mirror.Unanswered .searchMatches ∨ mirror.Unanswered .searchHits then []
    else searchHits mirror.db m.search (groups.pick (searchMatches mirror.db m.search))
  rowsFound { m.toEntryModel with groups := groups, searchFeeds := feeds } hits

/-- Some query for the rows, of those that are made, is not answered. -/
def RowsFail (mirror : Mirror) (ctx : Context) (m : EntryModel) (scope : Scope)
    (keepShown : Bool) : Prop :=
  match scope.toFilter with
  | some filter => mirror.Unanswered .listEntries ∨
      Keeps ctx m keepShown ∧ ∃ r ∈ m.rows,
        r.id ∉ (listEntries mirror.db filter m.window 0).map EntryListRow.id ∧
          mirror.Unanswered (.entryListRow r.id)
  | none => mirror.Unanswered .searchMatches ∨ mirror.Unanswered .searchFeeds ∨
      mirror.Unanswered .searchHits

/-- The rows on screen are what the defaults leave of the scope. For a filter that is
no rows, or rows that are all kept; for a search the part that was answered. -/
def RowsStand (mirror : Mirror) (ctx : Context) (m : EntryModel) (scope : Scope)
    (keepShown : Bool) : Prop :=
  match scope.toFilter with
  | some _ =>
      if mirror.borrow = .exclusive ∨ ¬Keeps ctx m keepShown then m.rows = []
      else mirror.fails .listEntries = true ∧
        m.rows.Pairwise EntryModel.rowBefore ∧ ∀ r ∈ m.rows, Answered mirror r
  | none => m.rows = searchAnswered mirror ctx m keepShown ∨
      Untellable EntryRow.id m.rows (searchAnswered mirror ctx m keepShown)

theorem rows_readAgain_of_filter {lm : Lists.EntryModel} {filter : EntryFilter}
    (hfilter : scope.toFilter = some filter) :
    (readAgain mirror lm scope keepShown).2.1 =
      if mirror.borrow = .exclusive then []
      else
        let listed :=
          if mirror.fails .listEntries then []
          else listEntries mirror.db filter lm.window 0
        ((listed ++ keptRows mirror mirror.db listed
          (if keepShown then lm.rows.map EntryRow.id else [])).map
            EntryRow.ofListRow).insertionSort EntryModel.rowBefore := by
  unfold readAgain
  rw [hfilter]
  dsimp only
  by_cases hrefused : mirror.borrow = .exclusive
  · rw [if_pos hrefused, Mirror.read_of_refused hrefused]
    rfl
  · rw [if_neg hrefused, Mirror.read_of_granted hrefused]
    cases hfails : mirror.fails .listEntries <;> simp [Mirror.query, hfails]

theorem rows_readAgain_search :
    (readAgain mirror (m.toEntryModel.sawRefresh ctx.signal.refreshEpoch) .search
      (keepShown && ctx.signal.refreshEpoch = m.seenRefreshEpoch)).2.1 =
        searchAnswered mirror ctx m keepShown := by
  have hnone : ∀ query : String, searchHits mirror.db query [] = [] := fun query => by
    unfold searchHits
    split <;> rfl
  simp only [readAgain, Scope.toFilter, searchAgain, searchRows, searchAnswered, and_eq_keeps,
    Mirror.getD_read_query, decide_eq_true_eq]
  by_cases hrefused : mirror.borrow = .exclusive
  · rw [Mirror.read_of_refused hrefused]
    simp [Mirror.Unanswered, hrefused, rowsFound, EntryModel.sawRefresh]
  · rw [Mirror.read_of_granted hrefused]
    cases hmatches : mirror.fails .searchMatches <;> cases hfeeds : mirror.fails .searchFeeds <;>
      simp [Mirror.Unanswered, Mirror.query, hrefused, hmatches, hfeeds, SearchGroups.pick,
        hnone, rowsFound, EntryModel.sawRefresh]

theorem list_readAgain (lm : Lists.EntryModel) :
    (readAgain mirror lm scope keepShown).1.list = lm.list := by
  unfold readAgain
  cases scope.toFilter <;> rfl

omit [UrlLibrary] [Unicode] in
theorem rows_showRead_eq_iff {lm : Lists.EntryModel} {before : SearchCounts × SearchGroups}
    {fresh : List EntryRow} {fullWindow chromeMoved : Bool} {how : Publish} :
    (lm.showRead before fresh fullWindow how chromeMoved).1.rows = lm.rows ↔
      lm.rows = fresh ∨ how = .search ∧ Untellable EntryRow.id lm.rows fresh := by
  have htold : ((lm.tellMatches before).setHasMore fullWindow).list.rows = lm.rows := by
    unfold EntryModel.setHasMore EntryModel.tellMatches
    split_ifs <;> rfl
  have hshown : (lm.showRead before fresh fullWindow how chromeMoved).1.rows =
      (publishRowsAs EntryRow.id ((lm.tellMatches before).setHasMore fullWindow).list fresh
        how).1.rows := by
    unfold EntryModel.showRead
    dsimp only
    split_ifs
    · exact rows_redrawAllRows _
    · rfl
  rw [hshown, ← htold]
  exact rows_publishRowsAs_eq_iff

theorem rows_reloadKeeping_eq_iff (hscope : m.scope = some scope) :
    (m.reloadKeeping mirror ctx keepShown).1.rows = m.rows ↔
      let fresh := (readAgain mirror (m.toEntryModel.sawRefresh ctx.signal.refreshEpoch) scope
        (keepShown && ctx.signal.refreshEpoch = m.seenRefreshEpoch)).2.1
      m.rows = fresh ∨ scope = .search ∧ Untellable EntryRow.id m.rows fresh := by
  have hrows : (readAgain mirror (m.toEntryModel.sawRefresh ctx.signal.refreshEpoch) scope
      (keepShown && ctx.signal.refreshEpoch = m.seenRefreshEpoch)).1.rows = m.rows := by
    rw [EntryModel.rows, list_readAgain]
    rfl
  have hhow : (if scope = .search then Publish.search else .reset) = .search ↔
      scope = .search := by
    split_ifs with h <;> simp [h]
  unfold EntryModel.reloadKeeping
  rw [hscope]
  dsimp only
  refine (Eq.congr_right hrows.symm).trans ?_
  rw [rows_showRead_eq_iff, hrows, hhow]

/-- What is left of the rows when some query for them is not answered. -/
theorem rows_reloadKeeping_of_fails (hscope : m.scope = some scope)
    (hfails : RowsFail mirror ctx m scope keepShown) :
    (m.reloadKeeping mirror ctx keepShown).1.rows = m.rows ↔
      RowsStand mirror ctx m scope keepShown := by
  rw [rows_reloadKeeping_eq_iff hscope]
  unfold RowsFail at hfails
  unfold RowsStand
  cases hfilter : scope.toFilter with
  | none =>
      obtain rfl : scope = .search := by
        cases scope <;> first | rfl | cases hfilter
      simp only [rows_readAgain_search, true_and]
  | some filter =>
      have hsearch : scope ≠ .search := fun h => by
        rw [h] at hfilter
        cases hfilter
      simp only [hfilter] at hfails
      simp only [hsearch, false_and, or_false, rows_readAgain_of_filter hfilter]
      by_cases hrefused : mirror.borrow = .exclusive
      · rw [if_pos hrefused, if_pos (.inl hrefused)]
      rw [if_neg hrefused]
      by_cases hkeeps : Keeps ctx m keepShown
      · have hkeep : (keepShown && decide (ctx.signal.refreshEpoch = m.seenRefreshEpoch)) =
            true := by
          rw [and_eq_keeps, decide_eq_true hkeeps]
        have hboth : ¬(mirror.borrow = .exclusive ∨ ¬Keeps ctx m keepShown) := by
          simp [hrefused, hkeeps]
        have hheld : (m.toEntryModel.sawRefresh ctx.signal.refreshEpoch).rows = m.rows := rfl
        have hwindow : (m.toEntryModel.sawRefresh ctx.signal.refreshEpoch).window =
          m.window := rfl
        rw [if_neg hboth, hkeep, if_pos rfl, hheld, hwindow]
        cases hlist : mirror.fails .listEntries with
        | true =>
            rw [if_pos rfl, List.nil_append, eq_comm, sorted_keptRows_eq_iff]
            simp
        | false =>
            obtain ⟨r, hr, hlisted, hgone⟩ : ∃ r ∈ m.rows,
                r.id ∉ (listEntries mirror.db filter m.window 0).map EntryListRow.id ∧
                  mirror.Unanswered (.entryListRow r.id) := by
              rcases hfails with h | h
              · exact absurd h (by simp [Mirror.Unanswered, hrefused, hlist])
              · exact h.2
            have hrfails : mirror.fails (.entryListRow r.id) = true :=
              hgone.resolve_left hrefused
            simp only [Bool.false_eq_true, if_false, false_and, iff_false]
            intro h
            rw [h] at hr
            exact not_mem_sorted_of_fails hlisted hrfails hr
      · have hlist : mirror.fails .listEntries = true := by
          rcases hfails with h | h
          · exact h.resolve_left hrefused
          · exact absurd h.1 hkeeps
        have hkeep : (keepShown && decide (ctx.signal.refreshEpoch = m.seenRefreshEpoch)) =
            false := by
          rw [and_eq_keeps, decide_eq_false hkeeps]
        have heither : mirror.borrow = .exclusive ∨ ¬Keeps ctx m keepShown := .inr hkeeps
        rw [if_pos heither, hkeep, hlist]
        simp [keptRows]

variable (mirror ctx keepShown) in
theorem reloadKeeping_spec (hscope : m.scope = some scope) :
    (m.reloadKeeping mirror ctx keepShown).1.feedChrome = (ctx.feedChrome mirror).2 ∧
      (m.reloadKeeping mirror ctx keepShown).1.seenGeneration = m.seenGeneration ∧
      (m.reloadKeeping mirror ctx keepShown).2.1 = (ctx.feedChrome mirror).1 := by
  unfold EntryModel.reloadKeeping
  rw [hscope]
  exact ⟨rfl, rfl, rfl⟩

/-- With every read answered this is a reload from the mirror. -/
theorem reloadKeeping_of_answered (hborrow : mirror.borrow ≠ .exclusive)
    (hanswers : ∀ q, mirror.fails q = false) :
    (m.reloadKeeping mirror ctx keepShown).1.toEntryModel =
      (m.toEntryModel.reloadKeeping mirror.db ctx.signal.refreshEpoch
        ((ctx.feedChrome mirror).2.addr ≠ m.feedChrome.addr) keepShown).1 := by
  have hquery : ∀ {α : Type} (q : Query) (found : α), mirror.query q found = some found :=
    fun q found => by simp [Mirror.query, hanswers]
  have hread : ∀ (lm : Lists.EntryModel) (scope : Scope) (keep : Bool),
      readAgain mirror lm scope keep = lm.readAgain mirror.db scope keep := by
    intro lm scope keep
    unfold readAgain Lists.EntryModel.readAgain
    cases scope.toFilter with
    | some filter =>
        simp only [Mirror.read_of_granted hborrow, hquery, Option.getD_some]
        rw [EntryModel.windowRows]
        simp [keptRows, Lists.EntryModel.keptRows, hquery]
    | none =>
        simp only [searchAgain, searchRows, Mirror.read_of_granted hborrow, hquery,
          Option.getD_some]
        rfl
  unfold EntryModel.reloadKeeping Lists.EntryModel.reloadKeeping
  cases m.scope with
  | none => rfl
  | some scope => simp only [hread]

/-- Some read of a reload fails. -/
def EntriesFail (mirror : Mirror) (ctx : Context) (m : EntryModel) (keepShown : Bool) : Prop :=
  ∃ scope, m.scope = some scope ∧
    (ctx.ChromeFails mirror ∨ RowsFail mirror ctx m scope keepShown)

/-- A reload leaves the entry list and its chrome as they were, and the next poll reads
again. -/
structure EntriesUnharmed (mirror : Mirror) (ctx : Context) (m : EntryModel)
    (after : EntryModel) (ctx' : Context) : Prop where
  rows : after.rows = m.rows
  chrome : after.feedChrome.map = m.feedChrome.map
  shared : ctx'.heldChrome = ctx.heldChrome
  uncached : ctx.ChromeFails mirror → ctx'.current = none
  again : ctx'.signal.generation ≠ after.seenGeneration

/-- The next poll comes to a reload of its own, the names and icons are those held, and
the rows those that are left. -/
structure EntriesSpared (mirror : Mirror) (ctx : Context) (m : EntryModel)
    (keepShown : Bool) : Prop where
  unseen : ctx.signal.generation ≠ m.seenGeneration
  chrome : ctx.ChromeStands mirror m.feedChrome.map
  shared : m.feedChrome.map = ctx.heldChrome
  rows : ∀ scope, m.scope = some scope → RowsStand mirror ctx m scope keepShown

theorem entriesUnharmed_iff (hfails : EntriesFail mirror ctx m keepShown) :
    EntriesUnharmed mirror ctx m (m.reloadKeeping mirror ctx keepShown).1
      (m.reloadKeeping mirror ctx keepShown).2.1 ↔ EntriesSpared mirror ctx m keepShown := by
  obtain ⟨scope, hscope, hfails⟩ := hfails
  obtain ⟨hchrome, hseen, hctx⟩ := reloadKeeping_spec mirror ctx keepShown hscope
  constructor
  · rintro ⟨hrows, hmap, hshared, huncached, hagain⟩
    rw [hctx] at hshared huncached hagain
    rw [Context.signal_feedChrome, hseen] at hagain
    rw [hchrome] at hmap
    have hread : ¬ctx.ChromeFails mirror := fun h => by
      have hnone := huncached h
      rw [Context.current_feedChrome] at hnone
      cases hnone
    refine ⟨hagain, Context.chromeStands_iff.2 ⟨hread, hmap⟩, ?_, fun other hother => ?_⟩
    · rw [← hmap, ← hshared, Context.heldChrome_feedChrome]
    · obtain rfl : scope = other := Option.some.inj (hscope.symm.trans hother)
      exact (rows_reloadKeeping_of_fails hscope (hfails.resolve_left hread)).1 hrows
  · rintro ⟨hunseen, hstands, hshared, hrows⟩
    obtain ⟨hread, hmap⟩ := Context.chromeStands_iff.1 hstands
    have hleft := (rows_reloadKeeping_of_fails hscope (hfails.resolve_left hread)).2
      (hrows scope hscope)
    refine ⟨hleft, ?_, ?_, fun h => absurd h hread, ?_⟩
    · rw [hchrome, hmap]
    · rw [hctx, Context.heldChrome_feedChrome, hmap, hshared]
    · rw [hctx, Context.signal_feedChrome, hseen]
      exact hunseen

end Reload

/-! ## The feeds -/

section Feeds

variable [Unicode] {mirror : Mirror} {ctx : Context} {m : FeedModel}

def FeedsFail (mirror : Mirror) (ctx : Context) : Prop :=
  ctx.ChromeFails mirror ∨ mirror.Unanswered .unreadCountsByFeed ∨ mirror.Unanswered .feeds

structure FeedsUnharmed (mirror : Mirror) (ctx : Context) (m after : FeedModel)
    (ctx' : Context) : Prop where
  rows : after.rows = m.rows
  shared : ctx'.heldChrome = ctx.heldChrome
  uncached : ctx.ChromeFails mirror → ctx'.current = none
  again : ctx'.signal.generation ≠ after.seenGeneration

/-- As for the entry list; without the feeds no row is left, without the counts all of
them, each with nothing unread. -/
structure FeedsSpared (mirror : Mirror) (ctx : Context) (m : FeedModel) : Prop where
  unseen : ctx.signal.generation ≠ m.seenGeneration
  chrome : ctx.ChromeStands mirror ctx.heldChrome
  rows : m.rows =
    if mirror.Unanswered .feeds then []
    else (feedsByName mirror.db).map (feedRow ctx.heldChrome 0)

variable (mirror ctx m) in
theorem reload_feeds_spec :
    (m.reload mirror ctx).1.seenGeneration = m.seenGeneration ∧
      (m.reload mirror ctx).2.1 = (ctx.feedChrome mirror).1 :=
  ⟨rfl, rfl⟩

theorem rows_reload_feeds (hfails : mirror.Unanswered .unreadCountsByFeed ∨
    mirror.Unanswered .feeds) :
    (m.reload mirror ctx).1.rows =
      if mirror.Unanswered .feeds then []
      else (feedsByName mirror.db).map (feedRow (ctx.feedChrome mirror).2.map 0) := by
  unfold FeedModel.reload FeedModel.rows
  dsimp only
  rw [rows_publishRowsAs_reset]
  by_cases hrefused : mirror.borrow = .exclusive
  · rw [Mirror.read_of_refused hrefused, if_pos (.inl hrefused), Option.getD_none]
  · rw [Mirror.read_of_granted hrefused, Option.getD_some]
    cases hfeeds : mirror.fails .feeds with
    | true => simp [Mirror.query, Mirror.Unanswered, hfeeds]
    | false =>
        have hcounts : mirror.fails .unreadCountsByFeed = true := by
          simpa [Mirror.Unanswered, hrefused, hfeeds] using hfails
        simp [Mirror.query, Mirror.Unanswered, hfeeds, hcounts, hrefused]

theorem feedsUnharmed_iff (hfails : FeedsFail mirror ctx) :
    FeedsUnharmed mirror ctx m (m.reload mirror ctx).1 (m.reload mirror ctx).2.1 ↔
      FeedsSpared mirror ctx m := by
  obtain ⟨hseen, hctx⟩ := reload_feeds_spec mirror ctx m
  constructor
  · rintro ⟨hrows, hshared, huncached, hagain⟩
    rw [hctx] at hshared huncached hagain
    rw [Context.signal_feedChrome, hseen] at hagain
    have hread : ¬ctx.ChromeFails mirror := fun h => by
      have hnone := huncached h
      rw [Context.current_feedChrome] at hnone
      cases hnone
    rw [Context.heldChrome_feedChrome] at hshared
    refine ⟨hagain, Context.chromeStands_iff.2 ⟨hread, hshared⟩, ?_⟩
    rw [← hrows, rows_reload_feeds (hfails.resolve_left hread), hshared]
  · rintro ⟨hunseen, hstands, hrows⟩
    obtain ⟨hread, hmap⟩ := Context.chromeStands_iff.1 hstands
    refine ⟨?_, ?_, fun h => absurd h hread, ?_⟩
    · rw [rows_reload_feeds (hfails.resolve_left hread), hmap, hrows]
    · rw [hctx, Context.heldChrome_feedChrome, hmap]
    · rw [hctx, Context.signal_feedChrome, hseen]
      exact hunseen

end Feeds

/-! ## Polls -/

section Polls

variable [UrlLibrary] [Unicode] {mirror : Mirror} {ctx : Context}

omit [UrlLibrary] [Unicode] in
theorem drainNotice_generation (ctx : Context) (m : EntryModel) :
    (m.drainNotice ctx).1.seenGeneration = m.seenGeneration ∧
      (m.drainNotice ctx).2.signal.generation = ctx.signal.generation := by
  unfold EntryModel.drainNotice
  dsimp only
  split <;> exact ⟨rfl, rfl⟩

omit [UrlLibrary] [Unicode] in
theorem drainUpdateNotice_generation (ctx : Context) (m : FeedModel) :
    (m.drainUpdateNotice ctx).1.seenGeneration = m.seenGeneration ∧
      (m.drainUpdateNotice ctx).2.signal.generation = ctx.signal.generation := by
  unfold FeedModel.drainUpdateNotice
  dsimp only
  split <;> exact ⟨rfl, rfl⟩

theorem generation_reloadKeeping (m : EntryModel) (keepShown : Bool) :
    (m.reloadKeeping mirror ctx keepShown).1.seenGeneration = m.seenGeneration ∧
      (m.reloadKeeping mirror ctx keepShown).2.1.signal = ctx.signal := by
  cases hscope : m.scope with
  | none =>
      unfold EntryModel.reloadKeeping
      rw [hscope]
      exact ⟨rfl, rfl⟩
  | some scope =>
      obtain ⟨-, hseen, hctx⟩ := reloadKeeping_spec mirror ctx keepShown hscope
      rw [hctx, Context.signal_feedChrome]
      exact ⟨hseen, rfl⟩

/-- Whether a poll reloads is decided by the generation it has seen. -/
theorem pollSync_reloads (m : EntryModel) :
    (m.pollSync mirror ctx).2.2 = true ↔ ctx.signal.generation ≠ m.seenGeneration := by
  obtain ⟨hseen, hgeneration⟩ := drainNotice_generation ctx
    { m with seenRunning := ctx.signal.running }
  unfold EntryModel.pollSync
  dsimp only
  rw [hseen, hgeneration]
  split_ifs with h <;> simp [h]

omit [UrlLibrary] in
theorem pollFeeds_reloads (m : FeedModel) :
    (m.pollSync mirror ctx).2.2 = true ↔ ctx.signal.generation ≠ m.seenGeneration := by
  obtain ⟨hseen, hgeneration⟩ := drainUpdateNotice_generation ctx m
  unfold FeedModel.pollSync
  dsimp only
  rw [hseen, hgeneration]
  split_ifs with h <;> simp [h]

/-- A poll that reloads has seen the generation, whatever the reload could read. -/
theorem seenGeneration_pollSync {m : EntryModel}
    (hmoved : ctx.signal.generation ≠ m.seenGeneration) :
    (m.pollSync mirror ctx).2.1.signal.generation = (m.pollSync mirror ctx).1.seenGeneration := by
  obtain ⟨hseen, hgeneration⟩ := drainNotice_generation ctx
    { m with seenRunning := ctx.signal.running }
  unfold EntryModel.pollSync
  dsimp only
  rw [if_neg (by rw [hseen, hgeneration]; exact hmoved)]
  dsimp only [EntryModel.reload]
  rw [(generation_reloadKeeping _ _).1, (generation_reloadKeeping _ _).2]

omit [UrlLibrary] in
theorem seenGeneration_pollFeeds {m : FeedModel}
    (hmoved : ctx.signal.generation ≠ m.seenGeneration) :
    (m.pollSync mirror ctx).2.1.signal.generation = (m.pollSync mirror ctx).1.seenGeneration := by
  obtain ⟨hseen, hgeneration⟩ := drainUpdateNotice_generation ctx m
  unfold FeedModel.pollSync
  dsimp only
  rw [if_neg (by rw [hseen, hgeneration]; exact hmoved)]
  dsimp only
  rw [(reload_feeds_spec mirror _ _).1, (reload_feeds_spec mirror _ _).2,
    Context.signal_feedChrome]

end Polls

/-! ## Everything read -/

section Marking

variable {mirror : Mirror} {scope : Scope}

/-- The ids to mark are not found: within the write, or in a read before it. -/
def IdsFail (mirror : Mirror) : Scope → Prop
  | .feed _ | .category _ => mirror.borrow ≠ .free ∨ mirror.fails .unreadIds = true
  | .search => False
  | _ => mirror.Unanswered .entryIdsMatching

/-- Nothing is written then: the ids are found within the write, or it fails too. -/
def MarkSpared (mirror : Mirror) : Scope → Prop
  | .feed _ | .category _ => True
  | _ => mirror.borrow ≠ .free ∨ mirror.txFails = true

theorem write_none_iff {tx : Db → Option Db} :
    mirror.write tx = none ↔
      mirror.borrow ≠ .free ∨ mirror.txFails = true ∨ tx mirror.db = none := by
  unfold Mirror.write
  split_ifs with h
  · simp only [Bool.and_eq_true, decide_eq_true_eq, Bool.not_eq_true'] at h
    simp [h.1, h.2]
  · simp only [Bool.and_eq_true, decide_eq_true_eq, Bool.not_eq_true', not_and,
      Bool.not_eq_false] at h
    by_cases hfree : mirror.borrow = .free
    · simp [h hfree]
    · simp [hfree]

/-- Ids that are not found are no ids: the write goes through, with nothing in it. -/
theorem markScope_of_fails (now : ℤ) (hfails : IdsFail mirror scope) :
    MarkSpared mirror scope ∧ markScope mirror scope now = none ∨
      ¬MarkSpared mirror scope ∧ markScope mirror scope now = some mirror.db := by
  have hwrite : mirror.write (fun db => some (Outbox.queueRead [] now db)) =
      if mirror.borrow ≠ .free ∨ mirror.txFails = true then none else some mirror.db := by
    split_ifs with h
    · exact write_none_iff.2 (h.imp_right .inl)
    · rw [not_or, not_not] at h
      simp [Mirror.write, h.1, h.2, Outbox.queueRead]
  have hquery : ∀ tx : Db → Db, mirror.borrow ≠ .free ∨ mirror.fails .unreadIds = true →
      mirror.write (fun db => mirror.query .unreadIds (tx db)) = none := fun tx h =>
    write_none_iff.2 (h.imp_right fun h => .inr (by simp [Mirror.query, h]))
  cases scope with
  | feed id =>
      exact .inl ⟨trivial, hquery (fun db => (Outbox.queueMarkFeedRead id now db).2) hfails⟩
  | category id =>
      exact .inl ⟨trivial, hquery (fun db => (Outbox.queueMarkCategoryRead id now db).2) hfails⟩
  | search => exact hfails.elim
  | unread | starred | all =>
      have hanswer : mirror.Unanswered .entryIdsMatching := hfails
      simp only [markScope, Scope.toFilter, Option.bind_some, Mirror.getD_read_query,
        if_pos hanswer, hwrite]
      by_cases h : mirror.borrow ≠ .free ∨ mirror.txFails = true
      · exact .inl ⟨h, if_pos h⟩
      · exact .inr ⟨h, if_neg h⟩

end Marking

/-! ## Every act -/

section Acts

variable [UrlLibrary] [Unicode] {mirror : Mirror} {a : Act} {s : Screen}

/-- Some read of the act fails. -/
def Act.Fails (mirror : Mirror) (s : Screen) : Act → Prop
  | feedChrome => s.ctx.ChromeFails mirror
  | reload => EntriesFail mirror s.ctx s.entries true
  | reloadFresh => EntriesFail mirror s.ctx { s.entries with limit := pageSize } false
  | pollSync => s.ctx.signal.generation ≠ s.entries.seenGeneration ∧
      EntriesFail mirror s.ctx s.entries true
  | reloadFeeds => FeedsFail mirror s.ctx
  | pollFeeds => s.ctx.signal.generation ≠ s.feeds.seenGeneration ∧ FeedsFail mirror s.ctx
  | markAllReadIn scope _ => IdsFail mirror scope

/-- The next poll of the model an act reloaded comes to a reload again. -/
def Act.TriesAgain (s : Screen) : Act → Prop
  | reload | reloadFresh | pollSync => s.ctx.signal.generation ≠ s.entries.seenGeneration
  | reloadFeeds | pollFeeds => s.ctx.signal.generation ≠ s.feeds.seenGeneration
  | feedChrome | markAllReadIn _ _ => True

/-- A failed read changes nothing that is shown, is not taken for current, is tried
again, and nothing is reported done for which nothing was queued. -/
structure Act.Unharmed (mirror : Mirror) (s : Screen) (a : Act) : Prop where
  entries : (a.run mirror s).screen.entries.rows = s.entries.rows
  feeds : (a.run mirror s).screen.feeds.rows = s.feeds.rows
  chrome : (a.run mirror s).screen.entries.feedChrome.map = s.entries.feedChrome.map
  shared : (a.run mirror s).screen.ctx.heldChrome = s.ctx.heldChrome
  uncached : s.ctx.ChromeFails mirror → (a.run mirror s).screen.ctx.current = none
  again : a.TriesAgain (a.run mirror s).screen
  queued : (a.run mirror s).done = true → (a.run mirror s).db.outbox ≠ mirror.db.outbox

/-- A reload that no poll asked for may be spared, a mark-all if it writes nothing; a
rebuild and a poll never. -/
def Act.Spared (mirror : Mirror) (s : Screen) : Act → Prop
  | reload => EntriesSpared mirror s.ctx s.entries true
  | reloadFresh => EntriesSpared mirror s.ctx { s.entries with limit := pageSize } false
  | reloadFeeds => FeedsSpared mirror s.ctx s.feeds
  | markAllReadIn scope _ => MarkSpared mirror scope
  | feedChrome | pollSync | pollFeeds => False

theorem Act.not_unharmed_feedChrome (hfails : s.ctx.ChromeFails mirror) :
    ¬Act.feedChrome.Unharmed mirror s := fun h => by
  have hnone := h.uncached hfails
  simp only [Act.run] at hnone
  rw [Context.current_feedChrome] at hnone
  cases hnone

theorem Act.unharmed_reload_iff (m : EntryModel) (keepShown : Bool) (ha : a.run mirror s =
    let r := m.reloadKeeping mirror s.ctx keepShown
    ⟨{ s with ctx := r.2.1, entries := r.1 }, mirror.db, false⟩) (hrows : m.rows = s.entries.rows)
    (hchrome : m.feedChrome = s.entries.feedChrome)
    (hagain : ∀ t : Screen, a.TriesAgain t ↔
      t.ctx.signal.generation ≠ t.entries.seenGeneration) :
    a.Unharmed mirror s ↔ EntriesUnharmed mirror s.ctx m
      (m.reloadKeeping mirror s.ctx keepShown).1 (m.reloadKeeping mirror s.ctx keepShown).2.1 := by
  constructor
  · intro h
    obtain ⟨hentries, -, hmap, hshared, huncached, htries, -⟩ := h
    rw [ha] at hentries hmap hshared huncached htries
    rw [hagain] at htries
    exact ⟨hentries.trans hrows.symm, hmap.trans (by rw [hchrome]), hshared, huncached, htries⟩
  · rintro ⟨hentries, hmap, hshared, huncached, htries⟩
    constructor
    all_goals rw [ha]
    · exact hentries.trans hrows
    · exact hmap.trans (by rw [hchrome])
    · exact hshared
    · exact huncached
    · exact (hagain _).2 htries
    · exact fun h => by cases h

/-- A failed read is harmless exactly in an act that is spared. -/
theorem Act.unharmed_iff (hfails : a.Fails mirror s) :
    a.Unharmed mirror s ↔ a.Spared mirror s := by
  cases a with
  | feedChrome => exact iff_of_false (Act.not_unharmed_feedChrome hfails) id
  | reload =>
      exact (Act.unharmed_reload_iff s.entries true rfl rfl rfl fun _ => Iff.rfl).trans
        (entriesUnharmed_iff hfails)
  | reloadFresh =>
      exact (Act.unharmed_reload_iff { s.entries with limit := pageSize } false rfl rfl rfl
        fun _ => Iff.rfl).trans (entriesUnharmed_iff hfails)
  | pollSync =>
      exact iff_of_false (fun h => h.again (seenGeneration_pollSync hfails.1)) id
  | pollFeeds =>
      exact iff_of_false (fun h => h.again (seenGeneration_pollFeeds hfails.1)) id
  | reloadFeeds =>
      refine Iff.trans ?_ (feedsUnharmed_iff hfails)
      constructor
      · rintro ⟨-, hrows, -, hshared, huncached, hagain, -⟩
        exact ⟨hrows, hshared, huncached, hagain⟩
      · rintro ⟨hrows, hshared, huncached, hagain⟩
        exact ⟨rfl, hrows, rfl, hshared, huncached, hagain, fun h => by cases h⟩
  | markAllReadIn scope now =>
      rcases markScope_of_fails now hfails with ⟨hspared, hnone⟩ | ⟨hspared, hsome⟩
      · refine iff_of_true ?_ hspared
        have hrun : Act.run mirror s (.markAllReadIn scope now) = ⟨s, mirror.db, false⟩ := by
          simp only [Act.run, Reads.markAllReadIn, hnone]
        constructor
        all_goals rw [hrun]
        · exact fun h => h.1
        · trivial
        · exact fun h => by cases h
      · refine iff_of_false (fun h => ?_) hspared
        have hdone : (Reads.markAllReadIn mirror s.ctx scope now s.entries).done = true ∧
            (Reads.markAllReadIn mirror s.ctx scope now s.entries).db = mirror.db := by
          unfold Reads.markAllReadIn
          rw [hsome]
          exact ⟨rfl, rfl⟩
        exact h.queued hdone.1 (congrArg Db.outbox hdone.2)

end Acts

section Runs

open scoped Vuo.Reader Search.Letters

/-- A list of all entries that shows the one the mirror has. -/
def oneShown : Screen where
  ctx :=
    { signal := { SyncSignal.default with generation := 1 }
      chrome := none
      nextAddr := 1 }
  entries :=
    { allEntries with
      list := ⟨[pageRow (unreadRow 1)], []⟩
      feedChrome := ⟨0, .empty⟩
      seenGeneration := 0
      seenRunning := false
      syncError := ""
      syncErrorIsAuth := false }
  feeds :=
    { list := ⟨[], []⟩
      seenGeneration := 0
      updateOk := false
      updateError := ""
      updateSerial := 0 }

/-- A mirror some of whose queries return an error. -/
def failing (fails : Query → Bool) : Mirror where
  db := Vuo.mirrorOf 1
  borrow := .free
  fails := fails
  txFails := false

/-- Only the list cannot be read: its row is kept, being read on its own. -/
theorem unharmed_of_kept : Act.Unharmed (failing (· = .listEntries)) oneShown .reload := by
  have hfails : Act.Fails (failing (· = .listEntries)) oneShown .reload :=
    ⟨.all, rfl, .inr (.inl (.inr rfl))⟩
  refine (Act.unharmed_iff hfails).2 ⟨by decide, ?_, rfl, ?_⟩
  · exact ⟨by decide, by decide⟩
  · rintro _ ⟨⟩
    refine ⟨by decide, by decide, fun r hr => ?_⟩
    obtain rfl : r = pageRow (unreadRow 1) := List.mem_singleton.1 hr
    exact ⟨by decide, by decide⟩

/-- No read is answered in a poll: the row is gone, and is not back when the next poll
could read it. Everything is reported read, and nothing is queued. -/
theorem shown_lost :
    Act.Fails (failing fun _ => true) oneShown .pollSync ∧
      ¬Act.Unharmed (failing fun _ => true) oneShown .pollSync ∧
      (Act.run (failing fun _ => false)
        (Act.run (failing fun _ => true) oneShown .pollSync).screen .pollSync).screen.entries.rows =
          [] ∧
      Act.Fails (failing fun _ => true) oneShown (.markAllReadIn .unread 0) ∧
      ¬Act.Unharmed (failing fun _ => true) oneShown (.markAllReadIn .unread 0) ∧
      (Act.run (failing fun _ => true) oneShown (.markAllReadIn .unread 0)).done = true := by
  have hrows : (Act.run (failing fun _ => true) oneShown .pollSync).screen.entries.rows = [] := by
    decide
  have hagain : (Act.run (failing fun _ => false)
      (Act.run (failing fun _ => true) oneShown .pollSync).screen .pollSync).screen.entries.rows =
        [] := by
    decide
  have hdone : (Act.run (failing fun _ => true) oneShown (.markAllReadIn .unread 0)).done =
      true := rfl
  refine ⟨⟨by decide, .all, rfl, .inr (.inl (.inr rfl))⟩, fun h => ?_, hagain, .inr rfl,
    fun h => h.queued hdone rfl, hdone⟩
  have hkept := h.entries
  rw [hrows] at hkept
  cases hkept

end Runs

end Reads

end Vuo.Shim.Lists
