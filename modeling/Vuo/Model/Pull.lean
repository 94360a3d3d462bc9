import Vuo.Model.Client

/-!
# Pulling server state into the mirror

The taxonomy, the incremental pull of entries, the cheap divergence check and
the full deletion reconcile.
-/

namespace Vuo

open Foundation

/-- What one incremental pass did. -/
structure PullOutcome where
  upserted : ℕ
  rejected : ℕ
  removed : ℕ
  pages : ℕ
  nextCursor : Option ℤ
  deriving DecidableEq

def PullOutcome.default : PullOutcome where
  upserted := 0
  rejected := 0
  removed := 0
  pages := 0
  nextCursor := none

/-- What a deletion reconcile came to: whether the listing passed the guard,
and how many entries went. -/
structure Reconcile where
  completed : Bool
  deleted : ℕ
  deriving DecidableEq

def Reconcile.aborted : Reconcile where
  completed := false
  deleted := 0

namespace Pull

open Vuo.Action

/-- Seconds taken off the server's clock when the cursor is stored. -/
def cursorSkewSecs : ℤ := 60

/-- Entries per page. -/
def pageSize : ℕ := 250

def maxPagesPerPass : ℕ := 400

section Taxonomy

variable [UrlLibrary] [Endpoints]

/-- The transaction that writes both listings. -/
def taxonomyTx (categories : List Category) (feeds : List Feed) (generation : ℤ) :
    Transaction :=
  categories.map (fun c => .upsertCategory c generation) ++
    feeds.map fun f => .upsertFeed f generation

/-- The feeds the mirror holds and the listing does not name. -/
def goneFeeds (feeds : List Feed) (localFeeds : List FeedRow) : List FeedId :=
  (localFeeds.map FeedRow.id).filter fun id => !(feeds.map Feed.id).contains id

/-- Pull categories and feeds; a feed gone from the listing goes with its
entries, unless the listing is empty. -/
def taxonomy (client : MinifluxClient) (generation : ℤ) : Action Unit := do
  let categories ← client.categories
  let feeds ← client.feeds
  let categories := categories.filterMap fun c => (Convert.category c).toOption
  let feeds := feeds.filterMap fun f => (Convert.feed f).toOption
  let _ ← withTx (taxonomyTx categories feeds generation)
  let localFeeds : List FeedRow ← query .feeds
  if feeds = [] ∧ localFeeds ≠ [] then return ()
  else
    let gone := goneFeeds feeds localFeeds
    if gone = [] then return ()
    else
      let _ ← withTx (gone.map .deleteFeed)
      return ()

end Taxonomy

/-! ## The incremental pull -/

/-- Whether an entry this pass writes is news if it is new to the mirror. -/
def arrivalFor (entry : Entry) (cursor : Option ℤ) : Arrival :=
  match cursor with
  | none => .quiet
  | some windowStart =>
      match entry.createdAt with
      | some created => if created.timestamp < windowStart then .quiet else .announce
      | none => .announce

/-- The transaction that writes one page. -/
def pageTx (page : Convert.Page) (cursor : Option ℤ) (generation : ℤ) : Transaction :=
  page.valid.map (fun e => .upsertEntry e generation (arrivalFor e cursor)) ++
    page.removed.map .deleteEntry

/-- What the pass asks for next. -/
def pageQuery (cursor : Option ℤ) (after : Option EntryId) : EntriesQuery :=
  ((EntriesQuery.keyset pageSize).setChangedAfter cursor).setAfterEntryId after

section Entries

variable [UrlLibrary] [Endpoints]

/-- The pages of a pass from here on. `budget` counts the pages the cap still
allows; the answer says whether the window was covered to its end. -/
def entriesPages (client : MinifluxClient) (cursor : Option ℤ) (generation : ℤ) :
    ℕ → Option EntryId → Option ℤ → PullOutcome →
      Action (PullOutcome × Option ℤ × Bool)
  | 0, _, serverNow, outcome => return (outcome, serverNow, false)
  | budget + 1, after, serverNow, outcome => do
      let (page, date) ← client.entries (pageQuery cursor after)
      -- the first answer with a date anchors the cursor
      let serverNow := serverNow.or (date.map DateTime.timestamp)
      let decoded := Convert.entries page.entries
      let outcome := { outcome with
        pages := outcome.pages + 1
        rejected := outcome.rejected + decoded.rejected.length
        upserted := outcome.upserted + decoded.valid.length
        removed := outcome.removed + decoded.removed.length }
      let _ ← withTx (pageTx decoded cursor generation)
      if page.entries.length < pageSize then return (outcome, serverNow, true)
      else
        match page.entries.getLast?.map Wire.Entry.id with
        | some id =>
            if some id ≠ after then
              entriesPages client cursor generation budget (some id) serverNow outcome
            else return (outcome, serverNow, false)
        | none => return (outcome, serverNow, false)

/-- One incremental pass, stopping after `maxPages` pages. -/
def entriesWithPageCap (client : MinifluxClient) (cursor : Option ℤ)
    (generation : ℤ) (maxPages : ℕ) : Action PullOutcome := do
  let (outcome, serverNow, complete) ←
    entriesPages client cursor generation maxPages none none .default
  if complete then
    match serverNow with
    | some now =>
        return { outcome with nextCursor := some (saturatingSub now cursorSkewSecs) }
    | none =>
        let now ← now
        return { outcome with
          nextCursor := some (saturatingSub now.timestamp cursorSkewSecs) }
  else return { outcome with nextCursor := none }

def entries (client : MinifluxClient) (cursor : Option ℤ) (generation : ℤ) :
    Action PullOutcome :=
  entriesWithPageCap client cursor generation maxPagesPerPass

end Entries

/-! ## Deletions -/

/-- Both maps of the counters added up per feed. -/
def serverCount (counters : Wire.FeedCounters) (feedId : FeedId) : ℤ :=
  (counters.reads ++ counters.unreads).foldl
    (fun n (key, value) =>
      if parseI64 key.toList = some feedId then saturatingAdd n value else n)
    0

/-- The feeds the mirror holds more entries of than the server counts. -/
def diverging (counters : Wire.FeedCounters) (localCounts : List (FeedId × ℕ)) :
    List FeedId :=
  ((localCounts.filter fun (feedId, n) =>
    decide (serverCount counters feedId < (n : ℤ))).map Prod.fst).insertionSort (· ≤ ·)

section Reconcile

variable [Endpoints]

def divergingFeeds (client : MinifluxClient) : Action (List FeedId) := do
  let counters ← client.counters
  let localCounts : List (FeedId × ℕ) ← query .entryCountsByFeed
  return diverging counters localCounts

/-- Ids per page of the deletion listing. -/
def reconcilePage : ℕ := 1000

def reconcileLimit : ℕ := 5000000

def reconcileQuery : EntriesQuery :=
  EntriesQuery.default.withLimit reconcilePage

/-- The id listing from `offset` on: the total its first page declared and the
ids collected, or nothing when it never ends. -/
def reconcilePages (client : MinifluxClient) (offset : ℕ)
    (declaredTotal : Option ℤ) (seen : List ℤ) :
    Action (Option (ℤ × List ℤ)) := do
  let page ← client.entryIds reconcileQuery offset
  let total := declaredTotal.getD page.total
  let seen := page.entryIds ++ seen
  if page.entryIds.length < reconcilePage then return some (total, seen)
  else if _h : reconcileLimit < offset + reconcilePage then return none
  else reconcilePages client (offset + reconcilePage) (some total) seen
termination_by reconcileLimit - offset
decreasing_by
  simp only [reconcileLimit, reconcilePage] at *
  omega

/-- The entries the mirror holds and the listing does not name. -/
def staleIds (localIds : List EntryId) (seen : List ℤ) : List EntryId :=
  localIds.filter fun id => !seen.contains id

/-- Whether a listing is worth acting on: a total that is not negative and as
many distinct ids as it declares. -/
def listingAgrees (total : ℤ) (seen : List ℤ) : Bool :=
  0 ≤ total && (seen.dedup.length : ℤ) = total

/-- Delete what a listing does not name, if the listing can be trusted. -/
def deleteUnlisted : Option (ℤ × List ℤ) → Action Reconcile
  | none => return .aborted
  | some (total, seen) => do
      if listingAgrees total seen then
        let localIds : List EntryId ← query .localEntryIds
        let stale := staleIds localIds seen
        if stale = [] then return { completed := true, deleted := 0 }
        else
          let _ ← withTx (stale.map .deleteEntry)
          return { completed := true, deleted := stale.length }
      else return .aborted

/-- Delete what the server no longer lists. -/
def reconcile (client : MinifluxClient) : Action Reconcile := do
  let listing ← reconcilePages client 0 none []
  deleteUnlisted listing

end Reconcile

end Pull

end Vuo
