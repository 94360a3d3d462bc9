import Vuo.Model.Client

/-!
# Replaying the outbox

Each batch is sent, then a transaction of its own records what became of it:
confirmed, dropped, or left queued.
-/

namespace Vuo

open Foundation

/-- What a flush did with the outbox. Counts are entries, not batches. -/
structure ReplayOutcome where
  confirmed : ℕ
  deferred : ℕ
  dropped : ℕ
  authFailed : Bool
  deriving DecidableEq

def ReplayOutcome.default : ReplayOutcome where
  confirmed := 0
  deferred := 0
  dropped := 0
  authFailed := false

namespace Replay

open Vuo.Action

/-- Whether a batch is retried on a later pass. -/
def shouldRetry (e : Error) : Bool :=
  !e.isAuthFailure && e.isTransient

/-- Whether a batch is discarded, losing the reader's intent. -/
def wouldDiscard (e : Error) : Bool :=
  !e.isAuthFailure && e.isPermanentlyRejected

def mutation : DesiredValue → EntryMutation
  | .status s => .status s
  | .starred b => .starred b

variable [Endpoints]

/-- The batches from here on, after `outcome`. -/
def flushBatches (client : MinifluxClient) :
    List Batch → ReplayOutcome → Action ReplayOutcome
  | [], outcome => return outcome
  | batch :: batches, outcome => do
      match ← attempt (client.updateEntries batch.entryIds (mutation batch.value)) with
      | .ok () =>
          let cleared ← withTx [.confirm batch]
          flushBatches client batches { outcome with
            confirmed := outcome.confirmed + cleared
            deferred := outcome.deferred + (batch.entryIds.length - cleared) }
      | .error e =>
          if e.isAuthFailure then
            -- every remaining batch would fail the same way
            let _ ← withTx [.recordFailure batch e.toString]
            return { outcome with
              deferred := outcome.deferred + batch.entryIds.length
              authFailed := true }
          else if wouldDiscard e then
            let _ ← withTx [.discard batch]
            flushBatches client batches { outcome with
              dropped := outcome.dropped + batch.entryIds.length }
          else
            let _ ← withTx [.recordFailure batch e.toString]
            flushBatches client batches { outcome with
              deferred := outcome.deferred + batch.entryIds.length }

/-- Send every pending intent, oldest first. -/
def flush (client : MinifluxClient) : Action ReplayOutcome := do
  let pending : List PendingMutation ← query .pending
  flushBatches client (Outbox.batches pending) .default

end Replay

end Vuo
