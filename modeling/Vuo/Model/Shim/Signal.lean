import Vuo.Model.Primitives

/-!
# What the worker tells the pages

A counter of changes to the mirror, the spinner, and two slots: one for
anything a page must show, one for the result of a scrape.
-/

namespace Vuo.Shim

/-- Something the worker produced that a page must display. -/
inductive Notice
  | connectionTested (ok : Bool) (message : String)
  | subscriptionChanged (ok : Bool) (message : String)
  | feedUpdated (ok : Bool) (message : String)
  | syncFailed (auth : Bool) (message : String)
  deriving DecidableEq

/-- How a scrape ended, and for which entry. -/
structure FetchOutcome where
  entryId : ℤ
  status : ℤ
  message : String
  deriving DecidableEq

structure SyncSignal where
  generation : ℕ
  running : Bool
  refreshEpoch : ℕ
  notice : Option Notice
  fetchOutcome : Option FetchOutcome
  deriving DecidableEq

namespace SyncSignal

def default : SyncSignal where
  generation := 0
  running := false
  refreshEpoch := 0
  notice := none
  fetchOutcome := none

/-- The mirror changed. -/
def bump (s : SyncSignal) : SyncSignal :=
  { s with generation := s.generation + 1 }

/-- Leave a result for the pages. -/
def post (notice : Notice) (s : SyncSignal) : SyncSignal :=
  { s with notice := some notice }

def postFetchOutcome (outcome : FetchOutcome) (s : SyncSignal) : SyncSignal :=
  { s with fetchOutcome := some outcome }

/-- Take the result of a scrape if it is addressed to `entryId`. -/
def takeFetchOutcome (entryId : ℤ) (s : SyncSignal) : Option FetchOutcome × SyncSignal :=
  if (s.fetchOutcome.map fun o => decide (o.entryId = entryId)).getD false then
    (s.fetchOutcome, { s with fetchOutcome := none })
  else (none, s)

/-- Take the pending notice, if any. -/
def takeNotice (s : SyncSignal) : Option Notice × SyncSignal :=
  (s.notice, { s with notice := none })

def setRunning (running : Bool) (s : SyncSignal) : SyncSignal :=
  { s with running := running }

def markRefreshed (s : SyncSignal) : SyncSignal :=
  { s with refreshEpoch := s.refreshEpoch + 1 }

end SyncSignal

end Vuo.Shim
