import Vuo.Model.Pull
import Vuo.Model.Replay

/-!
# One sync pass

Replay, version gate, taxonomy, entries, deletions, icons, retention, and the
bookkeeping last, once everything before it succeeded.
-/

namespace Vuo

open Foundation

structure SyncOptions where
  reconcileIntervalSecs : ℤ
  iconsPerPass : ℤ
  skipReplay : Bool
  retentionSecs : Option ℤ
  serverVersionTtlSecs : ℤ

def SyncOptions.default : SyncOptions where
  reconcileIntervalSecs := 24 * 60 * 60
  iconsPerPass := 8
  skipReplay := false
  retentionSecs := none
  serverVersionTtlSecs := 24 * 60 * 60

structure SyncReport where
  replay : ReplayOutcome
  pull : PullOutcome
  entriesDeleted : ℕ
  iconsFetched : ℕ
  entriesPruned : ℕ
  reconciled : Bool
  serverVersion : Option String

def SyncReport.default : SyncReport where
  replay := .default
  pull := .default
  entriesDeleted := 0
  iconsFetched := 0
  entriesPruned := 0
  reconciled := false
  serverVersion := none

/-- The validation of an icon's bytes. -/
class IconDecoder where
  decodeIcon : Wire.Icon → Except Error Icon

namespace Sync

open Vuo.Action

/-- Which deletion regime a server implements. -/
def eraLabel (version : ServerVersion) : String :=
  if version.hasEntryIdsEndpoint then "hard-delete-with-id-listing"
  else if version.enforcesEntryLimitCap then "hard-delete"
  else "legacy-soft-delete"

/-- The recorded version, while it is still worth trusting. -/
def cachedVersion (state : SyncState) (now ttl : ℤ) : Option ServerVersion :=
  if (state.serverVersionCheckedAt.filter fun checked =>
      saturatingSub now checked < ttl).isSome then
    state.serverVersion.bind ServerVersion.parse
  else none

/-- Whether the periodic reconcile is due. -/
def reconcileDue (state : SyncState) (now interval : ℤ) : Bool :=
  match state.lastFullReconcileAt with
  | none => true
  | some last => decide (interval ≤ saturatingSub now last)

/-- The bookkeeping a completed pass leaves. -/
def nextState (state : SyncState) (now : ℤ) (report : SyncReport)
    (version : ServerVersion) (versionCheckedAt : Option ℤ) : SyncState where
  cursorChangedAfter := report.pull.nextCursor.or state.cursorChangedAfter
  syncGeneration := saturatingAdd state.syncGeneration 1
  lastFullReconcileAt := if report.reconciled then some now else state.lastFullReconcileAt
  serverEra := some (eraLabel version)
  serverVersion := report.serverVersion
  serverVersionCheckedAt := versionCheckedAt

section Steps

variable [Endpoints]

/-- The version a pass goes by, and when it was asked for. -/
def resolveVersion (client : MinifluxClient) (state : SyncState) (now ttl : ℤ) :
    Action (ServerVersion × Option ℤ) := do
  match cachedVersion state now ttl with
  | some version => return (version, state.serverVersionCheckedAt)
  | none =>
      match ← attempt client.version with
      | .ok version => return (version, some now)
      | .error _ =>
          -- a failed check is not an answer: the last recorded version stands
          let recorded := state.serverVersion.bind ServerVersion.parse
          return (recorded.getD .default, state.serverVersionCheckedAt)

/-- The icons of the feeds listed, one request each. -/
def fetchIconsFor [IconDecoder] (client : MinifluxClient) :
    List (FeedId × IconId) → ℕ → Action ℕ
  | [], fetched => return fetched
  | (feedId, _) :: wanted, fetched => do
      match ← attempt (client.feedIcon feedId) with
      | .error _ =>
          let _ ← withTx [.recordIconFailure feedId]
          fetchIconsFor client wanted fetched
      | .ok wire =>
          match IconDecoder.decodeIcon wire with
          | .ok icon =>
              let _ ← withTx [.upsertIcon icon, .clearIconFailures feedId]
              fetchIconsFor client wanted (fetched + 1)
          | .error _ =>
              let _ ← withTx [.recordIconFailure feedId]
              fetchIconsFor client wanted fetched

def fetchIcons [IconDecoder] (client : MinifluxClient) (limit : ℤ) : Action ℕ := do
  if limit ≤ 0 then return 0
  else
    let wanted : List (FeedId × IconId) ← query (.feedsMissingIcons limit)
    fetchIconsFor client wanted 0

/-- The diverging feeds, asked for only where the answer can change the pass. -/
def divergenceStep (client : MinifluxClient) (worthAsking : Bool) :
    Action (List FeedId) := do
  if worthAsking then
    match ← attempt (Pull.divergingFeeds client) with
    | .ok feeds => return feeds
    | .error _ => return []
  else return []

/-- Deletions, which the cursor cannot see: a reconcile when one is due or when
the counters disagree. -/
def reconcileStep (client : MinifluxClient) (state : SyncState)
    (version : ServerVersion) (now interval : ℤ) : Action Reconcile := do
  let due := reconcileDue state now interval
  let divergingFeeds ← divergenceStep client (!due && version.hasEntryIdsEndpoint)
  if version.hasEntryIdsEndpoint && (due || divergingFeeds ≠ []) then
    Pull.reconcile client
  else return .aborted

/-- Retention, the last step that changes the mirror. -/
def pruneStep (options : SyncOptions) (now : ℤ) : Action ℕ := do
  match options.retentionSecs.filter fun s => 0 < s with
  | some keepFor => withTx [.pruneEntries (saturatingSub now keepFor)]
  | none => return 0

/-- The reader's own actions first. -/
def replayStep (client : MinifluxClient) (options : SyncOptions) :
    Action ReplayOutcome := do
  if options.skipReplay then return .default
  else Replay.flush client

/-- The pass after a replay that did not fail on the credentials. -/
def afterReplay [UrlLibrary] [IconDecoder] (client : MinifluxClient)
    (options : SyncOptions) (state : SyncState) (now : ℤ)
    (replay : ReplayOutcome) : Action SyncReport := do
  let generation := saturatingAdd state.syncGeneration 1
  let (version, versionCheckedAt) ←
    resolveVersion client state now options.serverVersionTtlSecs
  Pull.taxonomy client generation
  let pull ← Pull.entries client state.cursorChangedAfter generation
  let reconcile ← reconcileStep client state version now options.reconcileIntervalSecs
  let iconsFetched ← fetchIcons client options.iconsPerPass
  let entriesPruned ← pruneStep options now
  let report : SyncReport :=
    { replay := replay
      pull := pull
      entriesDeleted := reconcile.deleted
      iconsFetched := iconsFetched
      entriesPruned := entriesPruned
      reconciled := reconcile.completed
      serverVersion := some version.raw }
  let _ ← withTx [.setSyncState (nextState state now report version versionCheckedAt)]
  return report

/-- Run one full sync pass. -/
def sync [UrlLibrary] [IconDecoder] (client : MinifluxClient)
    (options : SyncOptions) : Action SyncReport := do
  let state : SyncState ← query .syncState
  let now ← now
  let replay ← replayStep client options
  if replay.authFailed then return { SyncReport.default with replay := replay }
  else afterReplay client options state now.timestamp replay

end Steps

end Sync

end Vuo
