import Vuo.Model.Marks
import Vuo.Model.Queries

/-!
# What a search found

The feeds found by name, the counts of a search, and what the rows of the
articles found show.
-/

namespace Vuo.Queries

open Foundation Search

/-! ## Feeds -/

/-- A feed found by its name. -/
structure FeedMatch where
  id : FeedId
  title : String
  unread : ℕ

section Feeds

variable [Unicode]

/-- The letters a letter of a name is sorted as. -/
def sortLetters (c : Char) : List Char :=
  let n := c.toNat
  if n = 0xdf then ['s', 's']
  else if n ∈ [0xe4, 0xe1, 0xe0, 0xe2, 0xe5, 0xe3] then ['a']
  else if 0xe8 ≤ n ∧ n ≤ 0xeb then ['e']
  else if 0xec ≤ n ∧ n ≤ 0xef then ['i']
  else if (0xf2 ≤ n ∧ n ≤ 0xf5) ∨ n = 0xf6 then ['o']
  else if (0xf9 ≤ n ∧ n ≤ 0xfb) ∨ n = 0xfc then ['u']
  else if n = 0xe7 then ['c']
  else if n = 0xf1 then ['n']
  else [c]

def nameSortKey (title : String) : List Char :=
  (fold title.toList).flatMap sortLetters

/-- As the feed list sorts, the id between equal names. -/
def feedBefore (f g : FeedMatch) : Prop :=
  nameSortKey f.title < nameSortKey g.title ∨
    nameSortKey f.title = nameSortKey g.title ∧ f.id ≤ g.id

instance : DecidableRel feedBefore := fun f g =>
  inferInstanceAs (Decidable (nameSortKey f.title < nameSortKey g.title ∨
    nameSortKey f.title = nameSortKey g.title ∧ f.id ≤ g.id))

/-- Whether every term is in the text. -/
def matchesAll (q : SearchQuery) (text : List Char) : Bool :=
  q.terms.all (contains (fold text))

/-- `SELECT f.id, f.title, (SELECT COUNT(*) FROM entries e WHERE e.feed_id = f.id
AND e.status = 'unread') FROM feeds f`, the feeds that match. -/
def searchFeeds (db : Db) (query : String) : List FeedMatch :=
  match SearchQuery.parse query.toList with
  | none => []
  | some parsed =>
      ((db.feeds.rows.map fun f =>
        { id := f.id
          title := f.title
          unread := db.entries.rows.countP fun e => e.feedId = f.id && e.status = .unread
            : FeedMatch }).filter fun f => matchesAll parsed f.title.toList).insertionSort
        feedBefore

end Feeds

/-! ## Counts -/

/-- The results in each group. -/
structure SearchCounts where
  title : ℕ
  feed : ℕ
  text : ℕ
  deriving DecidableEq

namespace SearchCounts

def zero : SearchCounts :=
  ⟨0, 0, 0⟩

def count (counts : SearchCounts) (m : SearchMatch) : SearchCounts :=
  match m.kind with
  | .title => { counts with title := counts.title + 1 }
  | .feed => { counts with feed := counts.feed + 1 }
  | .text => { counts with text := counts.text + 1 }

def of (found : List SearchMatch) (feeds : List FeedMatch) : SearchCounts :=
  found.foldl count { zero with feed := feeds.length }

def get (counts : SearchCounts) : MatchKind → ℕ
  | .title => counts.title
  | .feed => counts.feed
  | .text => counts.text

end SearchCounts

/-! ## Hits -/

/-- An article found, with what its row says of why. -/
structure SearchHit where
  row : EntryListRow
  kind : MatchKind
  feedTitle : String
  excerpt : Option (List Char)

section Hits

variable [UrlLibrary] [Unicode]

/-- `SELECT .., COALESCE(f.title, ''), CASE WHEN ?2 THEN e.content END FROM entries
e LEFT JOIN feeds f ON f.id = e.feed_id WHERE e.id = ?1` -/
def searchHit (db : Db) (parsed : SearchQuery) (m : SearchMatch) : Option SearchHit :=
  (db.entries.find? m.id).map fun e =>
    { row := Store.listRow e
      kind := m.kind
      feedTitle := ((db.feeds.find? e.feedId).map FeedRow.title).getD ""
      excerpt := if m.kind = .text then parsed.excerpt e.content.toList else none }

/-- What the rows of the matches show; an article that is gone shows nothing. -/
def searchHits (db : Db) (query : String) (found : List SearchMatch) : List SearchHit :=
  match SearchQuery.parse query.toList with
  | none => []
  | some parsed => found.filterMap (searchHit db parsed)

end Hits

end Vuo.Queries
