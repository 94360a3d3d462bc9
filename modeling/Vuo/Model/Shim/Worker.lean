import Vuo.Model.Sync
import Vuo.Model.Shim.Signal

/-!
# The worker's commands

What each command asks of the server and writes to the mirror, and whether it
says afterwards that the mirror changed.
-/

namespace Vuo

open Vuo.Action

namespace MinifluxClient

variable [Endpoints] (client : MinifluxClient)

def createFeed (feedUrl : String) (categoryId : Option CategoryId) : Action ℤ :=
  client.getJson (.createFeed feedUrl categoryId)

/-- A request whose answer is its status. -/
def sendForStatus (request : Request) : Action Unit := do
  let response ← send client.transport request
  ofResult (checkStatus response (Endpoints.endpoint client.transport request))

def updateFeed (feedId : FeedId) (update : FeedPatch) : Action Unit :=
  client.sendForStatus (.updateFeed feedId update)

def deleteFeed (feedId : FeedId) : Action Unit :=
  client.sendForStatus (.deleteFeed feedId)

def fetchOriginalContent (id : EntryId) : Action String :=
  client.getJson (.fetchOriginalContent id)

end MinifluxClient

namespace Shim

/-- The commands that need an account, the test of a connection apart. -/
inductive Command
  | sync
  | flushOutbox
  | subscribe (feedUrl : String)
  | unsubscribe (feedId : FeedId)
  | updateFeed (feedId : FeedId) (update : FeedPatch)
  | fetchOriginal (entryId : EntryId)

/-- Whether a completed pass counts as a change. -/
def passChanged (report : SyncReport) : Bool :=
  0 < report.pull.upserted || 0 < report.pull.removed || 0 < report.entriesDeleted ||
    0 < report.replay.confirmed || 0 < report.iconsFetched

/-- A pass commits as it goes: one that failed may have changed anything. -/
def syncChanged : Except Error SyncReport → Bool
  | .ok report => if report.replay.authFailed then true else passChanged report
  | .error _ => true

def flushChanged : Except Error ReplayOutcome → Bool
  | .ok outcome =>
      if outcome.authFailed then false else 0 < outcome.confirmed || 0 < outcome.dropped
  | .error _ => false

/-- What to do with a body the server scraped. -/
inductive ScrapeVerdict
  | store
  | empty
  | unchanged
  deriving DecidableEq

def classifyScrape (previous scraped : String) : ScrapeVerdict :=
  if trim scraped.toList = [] then .empty
  else if scraped = previous then .unchanged
  else .store

def isOk {α : Type} : Except Error α → Bool
  | .ok _ => true
  | .error _ => false

/-- The body of an entry as the mirror holds it, empty when it cannot be read. -/
def previousContent : Except Error (Option String) → String
  | .ok content => content.getD ""
  | .error _ => ""

section Perform

variable [UrlLibrary] [Endpoints] [IconDecoder] (client : MinifluxClient)
  (options : SyncOptions)

/-- The server first, the mirror second. -/
def thenWrite (request : Action Unit) (body : Transaction) : Action Bool := do
  match ← attempt request with
  | .ok () => return isOk (← attempt (withTx body))
  | .error _ => return false

def fetchOriginal (id : EntryId) : Action Bool := do
  match ← attempt (client.fetchOriginalContent id) with
  | .error _ => return false
  | .ok content =>
      let previous ← attempt (query (.entryContent id))
      match classifyScrape (previousContent previous) content with
      | .store => return isOk (← attempt (withTx [.storeScraped id content]))
      | _ => return false

/-- The command's work, with whether it counts as a change. -/
def perform : Command → Action Bool
  | .sync => do return syncChanged (← attempt (Sync.sync client options))
  | .flushOutbox => do return flushChanged (← attempt (Replay.flush client))
  | .subscribe feedUrl => do
      match ← attempt (client.createFeed feedUrl none) with
      | .error _ => return false
      | .ok _ =>
          -- The feed is there, whatever becomes of the pass.
          let _ ← attempt (Sync.sync client options)
          return true
  | .unsubscribe feedId => thenWrite (client.deleteFeed feedId) [.deleteFeed feedId]
  | .updateFeed feedId update =>
      thenWrite (client.updateFeed feedId update) [.applyFeedPatch feedId update]
  | .fetchOriginal id => fetchOriginal client id

end Perform

/-- Only the reader's own refresh raises the spinner. -/
def clearsSpinner : Command → Bool
  | .sync => true
  | _ => false

/-- What happens to the signal when a command is over. -/
def dropGuard (command : Command) (changed : Bool) (signal : SyncSignal) : SyncSignal :=
  let signal := if clearsSpinner command then signal.setRunning false else signal
  if changed then signal.bump else signal

end Shim

end Vuo
