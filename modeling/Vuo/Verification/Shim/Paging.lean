import Vuo.Verification.Requests
import Vuo.Verification.Search.Folding
import Vuo.Verification.Shim.Groups
import Vuo.Verification.Shim.Views

/-!
# The pages of a search

Each request for more of a group makes its beginning longer. The rows shown
before stay where they are, and one run comes at most.
-/

namespace Vuo.Shim.Lists

open Foundation Queries Search

/-! ## A run told -/

/-- Whether it is about rows. -/
def Change.ofRows : Change → Bool
  | .countChanged | .hasMoreChanged | .matchesChanged => false
  | _ => true

/-- What is told when fresh rows grow by one run. -/
theorem publish_run {m : ListModel EntryRow} {a r b : List EntryRow} (hm : m.rows = a ++ b)
    (hids : ((a ++ (r ++ b)).map EntryRow.id).Nodup)
    (hbound : (a ++ (r ++ b)).length ≤ 2147483648) :
    ∃ news, (publishRowsAs EntryRow.id m (a ++ (r ++ b)) .search).1 =
        ⟨a ++ (r ++ b), m.told ++ news⟩ ∧
      (news.map Prod.fst).filter Change.ofRows =
        if r = [] then [] else [.inserted a.length (a.length + r.length - 1)] := by
  rw [publishRowsAs_append hm hids hbound]
  by_cases hr : r = []
  · subst hr
    refine ⟨[(.countChanged, m.rows)], ?_, rfl⟩
    rw [if_pos rfl, List.nil_append, ← hm]
    rfl
  · rw [if_neg hr, if_neg hr]
    refine ⟨[(.inserted a.length (a.length + r.length - 1), a ++ (r ++ b)),
      (.countChanged, a ++ (r ++ b))], ?_, rfl⟩
    simp [ListModel.swap, ListModel.tell]

/-- One run of rows came at most, and no other row changed. -/
def Grew (m m' : EntryModel) : Prop :=
  ∃ a r b news, m.rows = a ++ b ∧ m'.rows = a ++ (r ++ b) ∧
    m'.list.told = m.list.told ++ news ∧
      (news.map Prod.fst).filter Change.ofRows =
        if r = [] then [] else [.inserted a.length (a.length + r.length - 1)]

theorem Grew.sublist {m m' : EntryModel} (h : Grew m m') : m.rows.Sublist m'.rows := by
  obtain ⟨a, r, b, news, hrows, hrows', -⟩ := h
  rw [hrows, hrows']
  exact (List.Sublist.refl a).append (List.sublist_append_right r b)

/-! ## A search read -/

/-- What a model reads shows in it. -/
theorem showRead_eq {m : EntryModel} {fresh : List EntryRow}
    (hheld : m.rows.length ≤ 2147483648) (hfresh : fresh.length ≤ 2147483648)
    (before : SearchCounts × SearchGroups) (fullWindow chromeMoved : Bool) :
    ∃ list : ListModel EntryRow, list.rows = fresh ∧
      (m.showRead before fresh fullWindow .search chromeMoved).1 =
        { m with list := list, hasMore := fullWindow } := by
  have htold : ∃ told, (m.tellMatches before).setHasMore fullWindow =
      { m with list := ⟨m.rows, told⟩, hasMore := fullWindow } := by
    unfold EntryModel.setHasMore EntryModel.tellMatches
    split_ifs with hmatches hmore hmore
    · exact ⟨_, rfl⟩
    · obtain rfl : fullWindow = m.hasMore := not_ne_iff.1 hmore
      exact ⟨_, rfl⟩
    · exact ⟨_, rfl⟩
    · obtain rfl : fullWindow = m.hasMore := not_ne_iff.1 hmore
      exact ⟨_, rfl⟩
  obtain ⟨told, htold⟩ := htold
  have hpublish : (publishRowsAs EntryRow.id ⟨m.rows, told⟩ fresh .search).1.rows = fresh :=
    rows_publishRowsAs_search hheld hfresh
  unfold EntryModel.showRead EntryModel.publish
  rw [htold]
  dsimp only
  split_ifs
  · exact ⟨_, (rows_redrawAllRows _).trans hpublish, rfl⟩
  · exact ⟨_, hpublish, rfl⟩

theorem map_filterMap_sublist {α β κ : Type*} {f : α → Option β} {g : β → κ} {key : α → κ}
    (h : ∀ x y, f x = some y → g y = key x) (l : List α) :
    ((l.filterMap f).map g).Sublist (l.map key) := by
  induction l with
  | nil => exact List.Sublist.slnil
  | cons x l ih =>
      cases hx : f x with
      | none =>
          rw [List.filterMap_cons_none hx]
          exact ih.trans (List.sublist_cons_self _ _)
      | some y =>
          rw [List.filterMap_cons_some hx, List.map_cons, List.map_cons, h x y hx]
          exact ih.cons_cons _

/-! ## Asking for more -/

/-- How often more of a group were asked for. -/
def asked (requests : List String) (kind : MatchKind) : ℕ :=
  requests.countP fun name => matchKindFromQml name = some kind

theorem asked_append (requests : List String) (name : String) (kind : MatchKind) :
    asked (requests ++ [name]) kind =
      asked requests kind + if matchKindFromQml name = some kind then 1 else 0 := by
  rw [asked, List.countP_append, List.countP_singleton]
  simp only [decide_eq_true_eq]
  rfl

section Pages

variable [UrlLibrary] [Unicode] {db : Db} {query : String} {found : List SearchMatch}
  {feeds : List FeedMatch}

/-- One request after the other. -/
def loadAll (db : Db) (m : EntryModel) (requests : List String) : EntryModel :=
  requests.foldl (fun m name => m.loadMoreIn db name) m

/-- The model shows these matches, its groups as after these requests. -/
structure Paged (db : Db) (query : String) (found : List SearchMatch) (feeds : List FeedMatch)
    (requests : List String) (m : EntryModel) : Prop where
  scope : m.scope = some .search
  search : m.search = query
  searchFound : m.searchFound = found
  searchFeeds : m.searchFeeds = feeds
  counts : m.counts = SearchCounts.of found feeds
  groups : ∀ kind, m.groups.get kind = groupAfter (asked requests kind)
  rows : m.rows = m.searchRows db

/-- Of each group as much is shown as its requests allow. -/
def shownAfter (requests : List String) (found : List SearchMatch) (feeds : List FeedMatch)
    (kind : MatchKind) : ℕ :=
  quota (asked requests kind) (groupCount found feeds kind)

/-- A model whose groups are as after some requests lists the beginnings they
allow. -/
theorem searchRows_shownAfter {requests : List String} {m : EntryModel}
    (hmatched : Matched db m.search m.searchFound m.searchFeeds)
    (hcount : m.searchFound.length + m.searchFeeds.length ≤ usizeMax)
    (hgroups : ∀ kind, m.groups.get kind = groupAfter (asked requests kind)) :
    m.searchRows db = beginnings (groupRows db m.search m.searchFound m.searchFeeds)
      (shownAfter requests m.searchFound m.searchFeeds) := by
  rw [searchRows_eq hmatched]
  refine beginnings_congr fun kind => ?_
  have hle : groupCount m.searchFound m.searchFeeds kind ≤ usizeMax := by
    have hfilter : (m.searchFound.filter fun article => article.kind = kind).length ≤
        m.searchFound.length := List.length_filter_le _ _
    unfold groupCount
    split_ifs <;> omega
  rw [length_groupRows hmatched, hgroups, min_shown_groupAfter _ hle, shownAfter,
    min_eq_left (quota_le _ _)]

theorem length_groupRows_le (h : Matched db query found feeds) :
    (groupRows db query found feeds .title ++ (groupRows db query found feeds .feed ++
      groupRows db query found feeds .text)).length ≤ found.length + feeds.length := by
  have harticles := length_groups_le found
  have htitle : groupCount found feeds .title = _ := if_neg (by decide)
  have hfeed : groupCount found feeds .feed = feeds.length := if_pos rfl
  have htext : groupCount found feeds .text = _ := if_neg (by decide)
  simp only [List.length_append, length_groupRows h]
  omega

namespace Paged

variable {requests : List String} {m : EntryModel}

theorem rows_eq (hmatched : Matched db query found feeds)
    (hcount : found.length + feeds.length ≤ usizeMax)
    (h : Paged db query found feeds requests m) :
    m.rows = beginnings (groupRows db query found feeds) (shownAfter requests found feeds) := by
  obtain rfl := h.search
  obtain rfl := h.searchFound
  obtain rfl := h.searchFeeds
  rw [h.rows, searchRows_shownAfter hmatched hcount h.groups]

/-- One request. -/
theorem loadMoreIn (hmatched : Matched db query found feeds)
    (hbound : found.length + feeds.length < 2147483648)
    (h : Paged db query found feeds requests m) (name : String) :
    Paged db query found feeds (requests ++ [name]) (m.loadMoreIn db name) ∧
      Grew m (m.loadMoreIn db name) := by
  have hcount : found.length + feeds.length ≤ usizeMax := by
    unfold usizeMax
    omega
  have hrows := h.rows_eq hmatched hcount
  unfold EntryModel.loadMoreIn
  cases hname : matchKindFromQml name with
  | none =>
      have hasked (kind : MatchKind) : asked (requests ++ [name]) kind = asked requests kind := by
        rw [asked_append, hname]
        rfl
      refine ⟨{ h with groups := fun kind => by rw [h.groups, hasked] }, ?_⟩
      exact ⟨m.rows, [], [], [], by simp, by simp, by simp, by simp⟩
  | some kind =>
      have hasked (k : MatchKind) : asked (requests ++ [name]) k =
          asked requests k + if k = kind then 1 else 0 := by
        rw [asked_append, hname]
        simp only [Option.some.injEq, eq_comm]
      dsimp only
      rw [if_neg (not_not.2 h.scope)]
      have hgroups (k : MatchKind) :
          (m.askMore kind).groups.get k = groupAfter (asked (requests ++ [name]) k) := by
        rw [EntryModel.askMore, hasked, get_set, h.groups, h.groups]
        split_ifs with hk
        · rw [hk]
          rfl
        · rfl
      have hfresh : (m.askMore kind).searchRows db = beginnings (groupRows db query found feeds)
          (shownAfter (requests ++ [name]) found feeds) := by
        obtain rfl := h.search
        obtain rfl := h.searchFound
        obtain rfl := h.searchFeeds
        exact searchRows_shownAfter hmatched hcount hgroups
      obtain ⟨a, r, b, hold, hnew⟩ : ∃ a r b,
          beginnings (groupRows db query found feeds) (shownAfter requests found feeds) = a ++ b ∧
            beginnings (groupRows db query found feeds)
              (shownAfter (requests ++ [name]) found feeds) = a ++ (r ++ b) := by
        refine exists_run ?_ fun k (hk : k ≠ kind) => ?_
        · rw [shownAfter, shownAfter, hasked, if_pos rfl]
          exact quota_le_quota _ _
        · rw [shownAfter, shownAfter, hasked, if_neg hk, Nat.add_zero]
      have hids : ((a ++ (r ++ b)).map EntryRow.id).Nodup := by
        rw [← hnew]
        exact (nodup_groupRows hmatched).sublist (beginnings_sublist.map _)
      have hlength : (a ++ (r ++ b)).length ≤ 2147483648 := by
        have hle : found.length + feeds.length ≤ 2147483648 := by omega
        refine Nat.le_trans ?_ hle
        rw [← hnew]
        exact beginnings_sublist.length_le.trans (length_groupRows_le hmatched)
      obtain ⟨news, hpublish, hofRows⟩ := publish_run (hrows.trans hold) hids hlength
      have hmodel : ((m.askMore kind).publish ((m.askMore kind).searchRows db) .search).1.tell
          .matchesChanged =
            { m.askMore kind with
              list := ⟨a ++ (r ++ b),
                m.list.told ++ news ++ [(.matchesChanged, a ++ (r ++ b))]⟩ } := by
        have hlist : (m.askMore kind).list = m.list := rfl
        rw [hfresh, hnew]
        simp only [EntryModel.publish, hlist, hpublish]
        rfl
      have hsame : ({ m.askMore kind with
          list := ⟨a ++ (r ++ b),
            m.list.told ++ news ++ [(.matchesChanged, a ++ (r ++ b))]⟩ } :
              EntryModel).searchRows db = (m.askMore kind).searchRows db := rfl
      rw [hmodel]
      constructor
      · exact
          { scope := h.scope
            search := h.search
            searchFound := h.searchFound
            searchFeeds := h.searchFeeds
            counts := h.counts
            groups := hgroups
            rows := ((hsame.trans hfresh).trans hnew).symm }
      · refine ⟨a, r, b, news ++ [(.matchesChanged, a ++ (r ++ b))], hrows.trans hold, rfl, ?_, ?_⟩
        · exact List.append_assoc _ _ _
        · rw [List.map_append, List.filter_append, hofRows]
          exact List.append_nil _

/-- Any requests. -/
theorem loadAll (hmatched : Matched db query found feeds)
    (hbound : found.length + feeds.length < 2147483648) (h : Paged db query found feeds [] m)
    (requests : List String) :
    Paged db query found feeds requests (loadAll db m requests) := by
  induction requests using List.reverseRecOn with
  | nil => exact h
  | append_singleton requests name ih =>
      rw [Lists.loadAll, List.foldl_append]
      exact (ih.loadMoreIn hmatched hbound name).1

end Paged

/-! ## What a search reads -/

omit [UrlLibrary] in
/-- What a search finds are matches. -/
theorem matched_search (query : String) (hentries : ∀ e ∈ db.entries, 0 < e.id)
    (hfeeds : ∀ f ∈ db.feeds, 0 < f.id ∧ f.id ≤ i64Max) :
    Matched db query (searchMatches db query) (searchFeeds db query) := by
  have hmatch (m : SearchMatch) (hm : m ∈ searchMatches db query) :
      ∃ e ∈ db.entries, kindOf query e = some m.kind ∧ e.id = m.id := by
    unfold searchMatches at hm
    split_ifs at hm
    · cases hm
    · obtain ⟨f, hf, rfl⟩ := List.mem_map.1 hm
      rw [List.mem_insertionSort, found_eq, List.mem_filterMap] at hf
      obtain ⟨e, he, hf⟩ := hf
      obtain ⟨kind, hkind, rfl⟩ := Option.map_eq_some_iff.1 hf
      exact ⟨e, he, hkind, rfl⟩
  have hfeed (feed : FeedMatch) (hmem : feed ∈ searchFeeds db query) :
      ∃ f ∈ db.feeds, f.id = feed.id := by
    unfold searchFeeds at hmem
    split at hmem
    · cases hmem
    · rw [List.mem_insertionSort, List.mem_filter, List.mem_map] at hmem
      obtain ⟨⟨f, hf, rfl⟩, -⟩ := hmem
      exact ⟨f, hf, rfl⟩
  constructor
  case parsed =>
    intro hne hparse
    exact hne (if_pos hparse)
  case known =>
    intro m hm
    obtain ⟨e, he, -, hid⟩ := hmatch m hm
    rw [← hid, Table.find?_of_mem he]
    rfl
  case article =>
    intro m hm hkind
    obtain ⟨e, -, he, -⟩ := hmatch m hm
    obtain ⟨q, -, hq⟩ := Option.bind_eq_some_iff.1 he
    rw [hkind] at hq
    exact classify_ne_feed q _ _ hq
  case positive =>
    intro m hm
    obtain ⟨e, he, -, hid⟩ := hmatch m hm
    rw [← hid]
    exact hentries e he
  case nodup =>
    unfold searchMatches
    split_ifs
    · exact List.nodup_nil
    · rw [List.map_map, ((List.perm_insertionSort foundBefore _).map _).nodup_iff, found_eq]
      refine db.entries.nodup.sublist (map_filterMap_sublist (fun e f hf => ?_) _)
      obtain ⟨kind, -, rfl⟩ := Option.map_eq_some_iff.1 hf
      rfl
  case positiveFeeds =>
    intro feed hmem
    obtain ⟨f, hf, hid⟩ := hfeed feed hmem
    rw [← hid]
    exact hfeeds f hf
  case nodupFeeds =>
    unfold searchFeeds
    split
    · exact List.nodup_nil
    · rw [((List.perm_insertionSort feedBefore _).map _).nodup_iff]
      refine List.Nodup.sublist (List.filter_sublist.map _) ?_
      rw [List.map_map]
      exact db.feeds.nodup

/-- A search read from its beginning shows what was found. -/
theorem paged_reloadKeeping {m : EntryModel} (hscope : m.scope = some .search)
    (hmatched : Matched db m.search (searchMatches db m.search) (searchFeeds db m.search))
    (hbound : (searchMatches db m.search).length + (searchFeeds db m.search).length < 2147483648)
    (hheld : m.rows.length ≤ 2147483648) (epoch : ℕ) (chromeMoved : Bool) :
    Paged db m.search (searchMatches db m.search) (searchFeeds db m.search) []
      (m.reloadKeeping db epoch chromeMoved false).1 := by
  have hread : (m.sawRefresh epoch).readAgain db .search false =
      ((m.sawRefresh epoch).searchAgain db false,
        ((m.sawRefresh epoch).searchAgain db false).searchRows db, false) := rfl
  have hgroups (kind : MatchKind) :
      ((m.sawRefresh epoch).searchAgain db false).groups.get kind =
        groupAfter (asked [] kind) := by
    cases kind <;> rfl
  have hcount : (searchMatches db m.search).length + (searchFeeds db m.search).length ≤
      usizeMax := by
    unfold usizeMax
    omega
  have hrows : ((m.sawRefresh epoch).searchAgain db false).searchRows db =
      beginnings (groupRows db m.search (searchMatches db m.search) (searchFeeds db m.search))
        (shownAfter [] (searchMatches db m.search) (searchFeeds db m.search)) :=
    searchRows_shownAfter hmatched hcount hgroups
  have hfresh : (((m.sawRefresh epoch).searchAgain db false).searchRows db).length ≤
      2147483648 := by
    rw [hrows]
    exact (beginnings_sublist.length_le.trans (length_groupRows_le hmatched)).trans (by omega)
  obtain ⟨list, hlist, hmodel⟩ := @showRead_eq ((m.sawRefresh epoch).searchAgain db false) _ hheld
    hfresh (m.counts, m.groups) false chromeMoved
  unfold EntryModel.reloadKeeping
  simp only [hscope, Bool.false_and, hread, if_true]
  rw [hmodel]
  exact
    { scope := hscope
      search := rfl
      searchFound := rfl
      searchFeeds := rfl
      counts := rfl
      groups := hgroups
      rows := hlist }

/-! ## The pages of a search -/

/-- What the page reads of a search after some requests. -/
structure ShowsBeginnings (db : Db) (query : String) (found : List SearchMatch)
    (feeds : List FeedMatch) (requests : List String) (m : EntryModel) : Prop where
  rows : m.rows = beginnings (groupRows db query found feeds) (shownAfter requests found feeds)
  ids : m.rows.map EntryRow.id =
    beginnings (groupIds found feeds) (shownAfter requests found feeds)
  counts : ∀ kind, m.matchesIn kind = groupCount found feeds kind
  shown : ∀ kind, m.shownIn kind = shownAfter requests found feeds kind

theorem Paged.showsBeginnings {requests : List String} {m : EntryModel}
    (hmatched : Matched db query found feeds)
    (hbound : found.length + feeds.length < 2147483648)
    (h : Paged db query found feeds requests m) :
    ShowsBeginnings db query found feeds requests m := by
  have hcount : found.length + feeds.length ≤ usizeMax := by
    unfold usizeMax
    omega
  have hrows := h.rows_eq hmatched hcount
  have hle (kind : MatchKind) : groupCount found feeds kind ≤ 2147483647 := by
    have hfilter : (found.filter fun m => m.kind = kind).length ≤ found.length :=
      List.length_filter_le _ _
    unfold groupCount
    split_ifs <;> omega
  have hto (n : ℕ) (hn : n ≤ 2147483647) : EntryModel.toI32Max n = n := by
    rw [EntryModel.toI32Max, toI32, if_pos hn]
    rfl
  refine ⟨hrows, ?_, fun kind => ?_, fun kind => ?_⟩
  · rw [hrows, map_beginnings]
    simp only [ids_groupRows hmatched]
  · rw [EntryModel.matchesIn, h.counts, get_counts hmatched, hto _ (hle kind)]
  · have hmin : min (groupAfter (asked requests kind)).shown (groupCount found feeds kind) =
        shownAfter requests found feeds kind :=
      min_shown_groupAfter _ ((hle kind).trans (by unfold usizeMax; omega))
    rw [EntryModel.shownIn, h.counts, get_counts hmatched, h.groups, hmin]
    exact hto _ ((quota_le _ _).trans (hle kind))

/-- After any requests a search shows of each group its first results, as many as
were asked for, and says so; and each request leaves the rows where they are and
adds one run at most. -/
theorem search_pages {m : EntryModel} (hmatched : Matched db query found feeds)
    (hbound : found.length + feeds.length < 2147483648)
    (h : Paged db query found feeds [] m) (requests : List String) (name : String) :
    ShowsBeginnings db query found feeds (requests ++ [name])
        (loadAll db m (requests ++ [name])) ∧
      (loadAll db m requests).rows.Sublist (loadAll db m (requests ++ [name])).rows ∧
      Grew (loadAll db m requests) (loadAll db m (requests ++ [name])) := by
  have hpaged := h.loadAll hmatched hbound requests
  obtain ⟨hnext, hgrew⟩ := hpaged.loadMoreIn hmatched hbound name
  have hstep : loadAll db m (requests ++ [name]) = (loadAll db m requests).loadMoreIn db name := by
    rw [loadAll, List.foldl_append]
    rfl
  rw [hstep]
  exact ⟨hnext.showsBeginnings hmatched hbound, hgrew.sublist, hgrew⟩

end Pages

section Runs

open scoped Vuo.Reader Search.Letters

/-- A search that found these, and shows their beginnings. -/
def newSearch (query : String) (found : List SearchMatch) (feeds : List FeedMatch) :
    EntryModel :=
  let m : EntryModel :=
    { list := ⟨[], []⟩
      hasMore := false
      searchFound := found
      searchFeeds := feeds
      counts := .of found feeds
      groups := {}
      scope := some .search
      search := query
      limit := 0
      seenRefreshEpoch := 0 }
  { m with list := ⟨m.searchRows (Vuo.mirrorOf 1), []⟩ }

theorem paged_newSearch (query : String) (found : List SearchMatch) (feeds : List FeedMatch) :
    Paged (Vuo.mirrorOf 1) query found feeds [] (newSearch query found feeds) where
  scope := rfl
  search := rfl
  searchFound := rfl
  searchFeeds := rfl
  counts := rfl
  groups kind := by cases kind <;> rfl
  rows := rfl

/-- Feeds of one name. -/
def sameFeeds (n : ℕ) : List FeedMatch :=
  (List.range n).map fun i : ℕ => { id := (i : ℤ) + 1, title := "harbour", unread := 0 }

theorem matched_sameFeeds {n : ℕ} (hn : n ≤ 2147483648) (query : String)
    {found : List SearchMatch} (hfound : Matched (Vuo.mirrorOf 1) query found []) :
    Matched (Vuo.mirrorOf 1) query found (sameFeeds n) :=
  { hfound with
    positiveFeeds := by
      intro feed hfeed
      obtain ⟨i, hi, rfl⟩ := List.mem_map.1 hfeed
      rw [List.mem_range] at hi
      have hrange (k : ℤ) (hlo : 0 ≤ k) (hhi : k < 2147483648) : 0 < k + 1 ∧ k + 1 ≤ i64Max := by
        unfold i64Max
        omega
      exact hrange i (by omega) (by omega)
    nodupFeeds := by
      rw [sameFeeds, List.map_map]
      refine List.Nodup.map (fun a b hab => ?_) List.nodup_range
      have hab : (a : ℤ) + 1 = b + 1 := hab
      omega }

theorem matched_one : Matched (Vuo.mirrorOf 1) "harbour" [{ kind := .title, id := 1 }] [] := by
  constructor <;> decide

/-- Asked for more once, the feeds are all shown, after the one article. -/
theorem search_pages_harbour :
    (loadAll (Vuo.mirrorOf 1) (newSearch "harbour" [{ kind := .title, id := 1 }] (sameFeeds 12))
        ["feed"]).shownIn .feed = 12 ∧
      Grew (newSearch "harbour" [{ kind := .title, id := 1 }] (sameFeeds 12))
        (loadAll (Vuo.mirrorOf 1) (newSearch "harbour" [{ kind := .title, id := 1 }] (sameFeeds 12))
          ["feed"]) :=
  have h := search_pages (matched_sameFeeds (by omega) "harbour" matched_one)
    (by decide) (paged_newSearch "harbour" _ _) [] "feed"
  ⟨(h.1.shown .feed).trans (by decide), h.2.2⟩

theorem counts_loadMoreIn (m : EntryModel) (db : Db) (name : String) :
    (m.loadMoreIn db name).counts = m.counts := by
  unfold EntryModel.loadMoreIn
  split
  · rfl
  · split_ifs
    · rfl
    · simp only [EntryModel.tell, EntryModel.publish, EntryModel.askMore]

/-- More feeds than a page can count. -/
theorem longSearch_miscounted :
    Matched (Vuo.mirrorOf 1) "" [] (sameFeeds 2147483648) ∧
      Paged (Vuo.mirrorOf 1) "" [] (sameFeeds 2147483648) []
        (newSearch "" [] (sameFeeds 2147483648)) ∧
      ¬ShowsBeginnings (Vuo.mirrorOf 1) "" [] (sameFeeds 2147483648) ["title"]
        (loadAll (Vuo.mirrorOf 1) (newSearch "" [] (sameFeeds 2147483648)) ["title"]) := by
  have hnone : Matched (Vuo.mirrorOf 1) "" [] [] := by
    constructor <;> simp
  refine ⟨matched_sameFeeds (by omega) "" hnone, paged_newSearch _ _ _, fun h => ?_⟩
  have hcount := h.counts .feed
  have hfeeds : groupCount [] (sameFeeds 2147483648) .feed = 2147483648 := by
    rw [groupCount, if_pos rfl, sameFeeds, List.length_map, List.length_range]
  have hcounts (query : String) (feeds : List FeedMatch) :
      (newSearch query [] feeds).counts.get .feed = feeds.length := rfl
  rw [EntryModel.matchesIn, loadAll, List.foldl_cons, List.foldl_nil, counts_loadMoreIn, hcounts,
    hfeeds, sameFeeds, List.length_map, List.length_range] at hcount
  revert hcount
  decide

end Runs

end Vuo.Shim.Lists
