import Vuo.Verification.Mirror.ReadPaths
import Vuo.Verification.Requests
import Vuo.Verification.Search.Folding
import Vuo.Verification.Shim.Views

/-!
# The groups of a search

Each group shows a beginning of its results, a longer one each time more are
asked for. The three beginnings stand one after the other.
-/

namespace Vuo.Shim.Lists

open Foundation Queries Search

/-! ## How much a group shows -/

/-- The results of `count` a group shows after more were asked for `loads` times. -/
def quota (loads count : ℕ) : ℕ :=
  if loads ≤ searchLoadSteps.length then
    min (searchFirstPage + (searchLoadSteps.take loads).sum) count
  else count

/-- A group after more were asked for. -/
def groupAfter : ℕ → SearchGroup
  | 0 => {}
  | loads + 1 => (groupAfter loads).loadMore

theorem loads_groupAfter (loads : ℕ) : (groupAfter loads).loads = min loads 255 := by
  induction loads with
  | zero => rfl
  | succ loads ih =>
      have hmore : (groupAfter (loads + 1)).loads = min ((groupAfter loads).loads + 1) 255 := rfl
      omega

theorem shown_groupAfter {loads : ℕ} (hloads : searchLoadSteps.length ≤ loads) :
    (groupAfter (loads + 1)).shown = usizeMax := by
  have hnone : (groupAfter loads).nextLoad = none := by
    rw [SearchGroup.nextLoad, loads_groupAfter, List.getElem?_eq_none_iff]
    have hlength : searchLoadSteps.length = 2 := rfl
    omega
  rw [groupAfter, SearchGroup.loadMore, hnone]
  rfl

theorem min_shown_groupAfter (loads : ℕ) {count : ℕ} (hcount : count ≤ usizeMax) :
    min (groupAfter loads).shown count = quota loads count := by
  have hlength : searchLoadSteps.length = 2 := rfl
  unfold quota
  split_ifs with hloads
  · have hshown : (groupAfter loads).shown =
        searchFirstPage + (searchLoadSteps.take loads).sum := by
      have hcases : loads = 0 ∨ loads = 1 ∨ loads = 2 := by omega
      rcases hcases with rfl | rfl | rfl <;> rfl
    rw [hshown]
  · obtain ⟨loads, rfl⟩ := Nat.exists_eq_add_of_le' (show 1 ≤ loads by omega)
    rw [shown_groupAfter (by omega), min_eq_right hcount]

theorem quota_le (loads count : ℕ) : quota loads count ≤ count := by
  unfold quota
  split_ifs <;> omega

/-- More is shown the more often more are asked for. -/
theorem quota_le_quota (loads count : ℕ) : quota loads count ≤ quota (loads + 1) count := by
  have hlength : searchLoadSteps.length = 2 := rfl
  unfold quota
  split_ifs with hloads hmore hmore
  · have hsum : (searchLoadSteps.take loads).sum ≤ (searchLoadSteps.take (loads + 1)).sum := by
      rw [List.take_add_one, List.sum_append]
      omega
    omega
  · omega
  · omega
  · omega

/-! ## The matches shown -/

theorem get_set (groups : SearchGroups) (kind kind' : MatchKind) (group : SearchGroup) :
    (groups.set kind group).get kind' = if kind' = kind then group else groups.get kind' := by
  cases kind <;> cases kind' <;> rfl

/-- Of each group the first matches are picked. -/
theorem filter_pick (groups : SearchGroups) (found : List SearchMatch) (kind : MatchKind) :
    (groups.pick found).filter (fun m => m.kind = kind) =
      (found.filter fun m => m.kind = kind).take (groups.get kind).shown := by
  induction found generalizing groups with
  | nil => simp [SearchGroups.pick]
  | cons m found ih =>
      rw [SearchGroups.pick, List.filter_append, ih, get_set, List.filter_cons]
      by_cases hkind : m.kind = kind
      · subst hkind
        cases hshown : (groups.get m.kind).shown with
        | zero => simp
        | succ shown => simp
      · have hne : kind ≠ m.kind := fun h => hkind h.symm
        have hnot : ¬decide (m.kind = kind) = true := by simpa using hkind
        rw [if_neg hne, if_neg hnot]
        split_ifs
        · simp [hkind]
        · rfl

/-! ## Counting -/

theorem length_groups_le (found : List SearchMatch) :
    (found.filter fun m => m.kind = .title).length +
      (found.filter fun m => m.kind = .text).length ≤ found.length := by
  induction found with
  | nil => rfl
  | cons m found ih =>
      simp only [List.filter_cons, List.length_cons]
      cases hkind : m.kind <;> simp <;> omega

theorem get_foldl_count (found : List SearchMatch) (counts : SearchCounts) (kind : MatchKind) :
    (found.foldl SearchCounts.count counts).get kind =
      counts.get kind + (found.filter fun m => m.kind = kind).length := by
  induction found generalizing counts with
  | nil => rfl
  | cons m found ih =>
      rw [List.foldl_cons, ih, List.filter_cons]
      unfold SearchCounts.count
      cases hkind : m.kind <;> cases kind <;> simp [SearchCounts.get] <;> omega

/-! ## The beginnings of the groups -/

/-- The beginnings of the groups, one after the other. -/
def beginnings {α : Type*} (group : MatchKind → List α) (shown : MatchKind → ℕ) : List α :=
  (group .title).take (shown .title) ++
    ((group .feed).take (shown .feed) ++ (group .text).take (shown .text))

section Beginnings

variable {α : Type*} {group : MatchKind → List α} {shown shown' : MatchKind → ℕ}

theorem beginnings_sublist :
    (beginnings group shown).Sublist (group .title ++ (group .feed ++ group .text)) :=
  (List.take_sublist _ _).append ((List.take_sublist _ _).append (List.take_sublist _ _))

theorem beginnings_congr
    (h : ∀ kind, min (shown kind) (group kind).length = min (shown' kind) (group kind).length) :
    beginnings group shown = beginnings group shown' := by
  have htake (kind : MatchKind) :
      (group kind).take (shown kind) = (group kind).take (shown' kind) :=
    List.take_eq_take_iff.2 (h kind)
  rw [beginnings, beginnings, htake, htake, htake]

theorem map_beginnings {β : Type*} (f : α → β) :
    (beginnings group shown).map f = beginnings (fun kind => (group kind).map f) shown := by
  simp only [beginnings, List.map_append, List.map_take]

theorem exists_take_eq {l : List α} {n n' : ℕ} (hle : n ≤ n') :
    ∃ r, l.take n' = l.take n ++ r :=
  ⟨(l.drop n).take (n' - n), by rw [← List.take_add, Nat.add_sub_cancel' hle]⟩

/-- More of one group is one run more. -/
theorem exists_run {kind : MatchKind} (hle : shown kind ≤ shown' kind)
    (hothers : ∀ k, k ≠ kind → shown' k = shown k) :
    ∃ a r b, beginnings group shown = a ++ b ∧ beginnings group shown' = a ++ (r ++ b) := by
  obtain ⟨r, hr⟩ := exists_take_eq (l := group kind) hle
  unfold beginnings
  cases kind with
  | title =>
      refine ⟨_, r, _, rfl, ?_⟩
      rw [hr, hothers .feed (by decide), hothers .text (by decide), List.append_assoc]
  | feed =>
      refine ⟨(group .title).take (shown .title) ++ (group .feed).take (shown .feed), r,
        (group .text).take (shown .text), (List.append_assoc _ _ _).symm, ?_⟩
      rw [hr, hothers .title (by decide), hothers .text (by decide)]
      simp only [List.append_assoc]
  | text =>
      refine ⟨_, r, [], (List.append_nil _).symm, ?_⟩
      rw [hr, hothers .title (by decide), hothers .feed (by decide)]
      simp only [List.append_assoc, List.append_nil]

end Beginnings

/-! ## The rows of a search -/

section Rows

variable [UrlLibrary] [Unicode] {db : Db} {query : String} {found : List SearchMatch}
  {feeds : List FeedMatch}

/-- The matches are articles the mirror has and feeds, each once. -/
structure Matched (db : Db) (query : String) (found : List SearchMatch) (feeds : List FeedMatch) :
    Prop where
  parsed : found ≠ [] → SearchQuery.parse query.toList ≠ none
  known : ∀ m ∈ found, (db.entries.find? m.id).isSome
  article : ∀ m ∈ found, m.kind ≠ .feed
  positive : ∀ m ∈ found, 0 < m.id
  nodup : (found.map SearchMatch.id).Nodup
  positiveFeeds : ∀ feed ∈ feeds, 0 < feed.id ∧ feed.id ≤ i64Max
  nodupFeeds : (feeds.map FeedMatch.id).Nodup

/-- The row of an article found. -/
def articleRow (db : Db) (query : String) (m : SearchMatch) : Option EntryRow :=
  (SearchQuery.parse query.toList).bind fun parsed =>
    (searchHit db parsed m).map fun hit => EntryRow.found hit (some parsed)

/-- The rows of a group, all of them, in the order found. -/
def groupRows (db : Db) (query : String) (found : List SearchMatch) (feeds : List FeedMatch)
    (kind : MatchKind) : List EntryRow :=
  if kind = .feed then
    feeds.map fun feed => EntryRow.feedFound feed (SearchQuery.parse query.toList)
  else (found.filter fun m => m.kind = kind).filterMap (articleRow db query)

/-- The results of a group. -/
def groupCount (found : List SearchMatch) (feeds : List FeedMatch) (kind : MatchKind) : ℕ :=
  if kind = .feed then feeds.length else (found.filter fun m => m.kind = kind).length

/-- The rows a group's ids are. -/
def groupIds (found : List SearchMatch) (feeds : List FeedMatch) (kind : MatchKind) : List ℤ :=
  if kind = .feed then feeds.map fun feed => -feed.id
  else (found.filter fun m => m.kind = kind).map SearchMatch.id

theorem exists_articleRow (h : Matched db query found feeds) {m : SearchMatch} (hm : m ∈ found) :
    ∃ row, articleRow db query m = some row ∧ row.id = m.id := by
  obtain ⟨parsed, hparsed⟩ := Option.ne_none_iff_exists'.1 (h.parsed (List.ne_nil_of_mem hm))
  obtain ⟨e, he⟩ := Option.isSome_iff_exists.1 (h.known m hm)
  cases hhit : searchHit db parsed m with
  | none => simp [searchHit, he] at hhit
  | some hit =>
      refine ⟨EntryRow.found hit (some parsed), ?_, ?_⟩
      · rw [articleRow, hparsed, Option.bind_some, hhit]
        rfl
      · rw [searchHit, he] at hhit
        cases hhit
        exact Table.key_of_find? (t := db.entries) he

theorem map_id_filterMap_articleRow (h : Matched db query found feeds) {some' : List SearchMatch}
    (hsub : some' ⊆ found) :
    (some'.filterMap (articleRow db query)).map EntryRow.id = some'.map SearchMatch.id := by
  induction some' with
  | nil => rfl
  | cons m rest ih =>
      obtain ⟨row, hrow, hid⟩ := exists_articleRow h (hsub List.mem_cons_self)
      rw [List.filterMap_cons_some hrow, List.map_cons, List.map_cons, hid,
        ih (List.subset_of_cons_subset hsub)]

theorem filterMap_articleRow_take (h : Matched db query found feeds) {some' : List SearchMatch}
    (hsub : some' ⊆ found) (n : ℕ) :
    (some'.take n).filterMap (articleRow db query) =
      (some'.filterMap (articleRow db query)).take n := by
  induction some' generalizing n with
  | nil => simp
  | cons m rest ih =>
      obtain ⟨row, hrow, -⟩ := exists_articleRow h (hsub List.mem_cons_self)
      cases n with
      | zero => rfl
      | succ n =>
          rw [List.take_succ_cons, List.filterMap_cons_some hrow, List.filterMap_cons_some hrow,
            List.take_succ_cons, ih (List.subset_of_cons_subset hsub)]

theorem ids_groupRows (h : Matched db query found feeds) (kind : MatchKind) :
    (groupRows db query found feeds kind).map EntryRow.id = groupIds found feeds kind := by
  unfold groupRows groupIds
  split_ifs
  · rw [List.map_map]
    refine List.map_congr_left fun feed hfeed => ?_
    have hnegated (n : ℤ) (hpos : 0 < n) (hmax : n ≤ i64Max) : saturate (-n) = -n := by
      unfold i64Max at hmax
      exact saturate_of_mem (by unfold i64Min; omega) (by unfold i64Max; omega)
    exact hnegated feed.id (h.positiveFeeds feed hfeed).1 (h.positiveFeeds feed hfeed).2
  · exact map_id_filterMap_articleRow h (List.filter_subset_self _)

theorem length_groupRows (h : Matched db query found feeds) (kind : MatchKind) :
    (groupRows db query found feeds kind).length = groupCount found feeds kind := by
  have hlength := congrArg List.length (ids_groupRows h kind)
  rw [List.length_map] at hlength
  rw [hlength]
  unfold groupIds groupCount
  split_ifs <;> rw [List.length_map]

/-- The rows of the articles that were picked from one group. -/
theorem map_found_searchHits (picked : List SearchMatch) (kind : MatchKind) :
    ((searchHits db query picked).filter fun hit => hit.kind = kind).map
        (fun hit => EntryRow.found hit (SearchQuery.parse query.toList)) =
      (picked.filter fun m => m.kind = kind).filterMap (articleRow db query) := by
  unfold searchHits articleRow
  cases SearchQuery.parse query.toList with
  | none => simp
  | some parsed =>
      dsimp only [Option.bind_some]
      rw [List.filter_filterMap, List.map_filterMap, List.filterMap_filter]
      refine List.filterMap_congr fun m _ => ?_
      unfold searchHit
      cases db.entries.find? m.id with
      | none => simp
      | some e =>
          by_cases hkind : m.kind = kind
          · simp [hkind, Option.filter]
          · simp [hkind, Option.filter]

/-- The rows of a search are the beginnings of its groups. -/
theorem searchRows_eq {m : EntryModel} (h : Matched db m.search m.searchFound m.searchFeeds) :
    m.searchRows db = beginnings (groupRows db m.search m.searchFound m.searchFeeds)
      fun kind => (m.groups.get kind).shown := by
  have hfeeds : (m.searchFeeds.take m.groups.feed.shown).map (fun feed =>
      EntryRow.feedFound feed (SearchQuery.parse m.search.toList)) =
      (groupRows db m.search m.searchFound m.searchFeeds .feed).take
        (m.groups.get .feed).shown := by
    rw [groupRows, if_pos rfl, List.map_take]
    rfl
  have harticles : ∀ kind, kind ≠ .feed →
      ((searchHits db m.search (m.groups.pick m.searchFound)).filter fun hit =>
        hit.kind = kind).map (fun hit =>
          EntryRow.found hit (SearchQuery.parse m.search.toList)) =
        (groupRows db m.search m.searchFound m.searchFeeds kind).take
          (m.groups.get kind).shown := by
    intro kind hkind
    rw [groupRows, if_neg hkind, ← filterMap_articleRow_take h (List.filter_subset_self _),
      ← filter_pick, map_found_searchHits]
  unfold EntryModel.searchRows beginnings
  dsimp only
  rw [harticles .title (by decide), harticles .text (by decide), hfeeds, List.append_assoc]

/-- All rows a search can show are different. -/
theorem nodup_groupRows (h : Matched db query found feeds) :
    ((groupRows db query found feeds .title ++ (groupRows db query found feeds .feed ++
      groupRows db query found feeds .text)).map EntryRow.id).Nodup := by
  have hkind (kind : MatchKind) (hkind : kind ≠ .feed) : groupIds found feeds kind =
      (found.filter fun m => m.kind = kind).map SearchMatch.id := if_neg hkind
  have hfeed : groupIds found feeds .feed = feeds.map fun feed => -feed.id := if_pos rfl
  have hgroup (kind : MatchKind) :
      ((found.filter fun m => m.kind = kind).map SearchMatch.id).Nodup :=
    h.nodup.sublist (List.filter_sublist.map _)
  rw [List.map_append, List.map_append, ids_groupRows h, ids_groupRows h, ids_groupRows h, hfeed,
    hkind .title (by decide), hkind .text (by decide)]
  have hfeeds : (feeds.map fun feed => -feed.id).Nodup := by
    have hmap : (feeds.map fun feed => -feed.id) =
        (feeds.map FeedMatch.id).map fun id : ℤ => -id := by
      rw [List.map_map]
      rfl
    rw [hmap]
    exact h.nodupFeeds.map neg_injective
  have harticle (id : ℤ) (kind : MatchKind)
      (hid : id ∈ (found.filter fun m => m.kind = kind).map SearchMatch.id) :
      0 < id ∧ ∃ m ∈ found, m.kind = kind ∧ m.id = id := by
    obtain ⟨m, hm, rfl⟩ := List.mem_map.1 hid
    rw [List.mem_filter, decide_eq_true_eq] at hm
    exact ⟨h.positive m hm.1, m, hm.1, hm.2, rfl⟩
  have hnegative (id : ℤ) (hid : id ∈ feeds.map fun feed => -feed.id) : id < 0 := by
    obtain ⟨feed, hfeed, rfl⟩ := List.mem_map.1 hid
    exact neg_neg_of_pos (h.positiveFeeds feed hfeed).1
  refine List.nodup_append.2 ⟨hgroup .title, List.nodup_append.2 ⟨hfeeds, hgroup .text, ?_⟩, ?_⟩
  · intro id hid id' hid'
    have hlt := hnegative id hid
    have hpos := (harticle id' .text hid').1
    omega
  · intro id hid id' hid'
    obtain ⟨hpos, m, hm, hkind, hmid⟩ := harticle id .title hid
    rcases List.mem_append.1 hid' with hid' | hid'
    · have hlt := hnegative id' hid'
      omega
    · obtain ⟨-, m', hm', hkind', hmid'⟩ := harticle id' .text hid'
      rintro rfl
      obtain rfl := List.inj_on_of_nodup_map h.nodup hm hm' (hmid.trans hmid'.symm)
      rw [hkind] at hkind'
      cases hkind'

/-! ## The counts -/

omit [UrlLibrary] in
theorem get_counts (h : Matched db query found feeds) (kind : MatchKind) :
    (SearchCounts.of found feeds).get kind = groupCount found feeds kind := by
  rw [SearchCounts.of, get_foldl_count, groupCount]
  split_ifs with hkind
  · subst hkind
    have hnone : (found.filter fun m => m.kind = .feed) = [] := by
      rw [List.filter_eq_nil_iff]
      intro m hm
      simpa using h.article m hm
    rw [hnone]
    rfl
  · cases kind with
    | title => exact Nat.zero_add _
    | feed => exact absurd rfl hkind
    | text => exact Nat.zero_add _

end Rows

end Vuo.Shim.Lists
