import Vuo.Model.Shim.Account
import Vuo.Model.Shim.Configure

/-!
# Saving the settings

The settings page stores the account and makes the running app match it: a
context for the pages, an account for the worker. Both are built from what the
file then says.
-/

namespace Vuo.Shim

open Foundation

/-! ## What the indices of an account mean -/

def syncIntervalsMinutes : List ℤ := [0, 15, 30, 60, 360]

def retentionDays : List ℤ := [0, 30, 90, 180, 365]

/-- `usize::try_from` -/
def asIndex (index : Int32) : Option ℕ :=
  if 0 ≤ index.toInt then some index.toInt.toNat else none

def retentionSecondsFor (index : Int32) : Option ℤ :=
  let days := (asIndex index).bind fun i => retentionDays[i]?
  (days.filter (0 < ·)).bind fun days =>
    let seconds := days * (24 * 60 * 60)
    if seconds ≤ i64Max then some seconds else none

/-- An index that is none stands for the first. -/
def syncIntervalMinutesFor (index : Int32) : Option ℤ :=
  match syncIntervalsMinutes[(asIndex index).getD 0]? with
  | some 0 | none => none
  | some minutes => some minutes

/-- How often the minimised app looks at the mirror, in milliseconds. -/
def coverPollMsFor (index : Int32) : ℤ :=
  match syncIntervalMinutesFor index with
  | none => 0
  | some minutes =>
      let quarter := (saturate (minutes * 60000)).tdiv 4
      if -2147483648 ≤ quarter ∧ quarter ≤ 2147483647 then quarter else 2147483647

/-! ## The context of the pages -/

structure AppContext where
  origin : Url
  mediaPolicy : Int32
  markReadDelayIndex : Int32
  fingerprint : UInt64
  deriving DecidableEq

/-- The hash of the standard library. -/
class AccountHasher where
  hash : String → String → Bool → UInt64

def fingerprint [AccountHasher] (account : Account) : UInt64 :=
  AccountHasher.hash account.serverUrl account.token account.useCustomCa

/-- What the worker is handed: an account, with the certificate its own authority
signs with. -/
structure Handed extends WorkerAccount where
  extraCaPem : Option (List UInt8)

/-- What the pages tell the worker when an account is saved or tested. -/
inductive Notification
  | configure (account : Handed)
  | setSyncInterval (minutes : Option ℤ)
  | setRetention (seconds : Option ℤ)
  | setWifiOnly (enabled : Bool)
  | testConnection

/-- What the settings page asks of its surroundings: of the file system, of the
context the pages share, and of the channel. -/
inductive DeskOp
  | loadAccount
  | saveAccount (account : Account)
  | readCa
  | openMirror
  | current
  | install (ctx : AppContext)
  | setMediaPolicy (policy : Int32)
  | setMarkReadDelayIndex (index : Int32)
  | send (m : Notification)

def DeskOp.Ans : DeskOp → Type
  | loadAccount => Except Error Account
  | saveAccount _ => Except Error Unit
  | readCa => Except String (List UInt8)
  | openMirror => Except Error Unit
  | current => Option AppContext
  | install _ | setMediaPolicy _ | setMarkReadDelayIndex _ => Unit
  | send _ => Bool

/-- Work on the thread of the pages. -/
abbrev DeskAction := Program DeskOp DeskOp.Ans

namespace Desk

def call (op : DeskOp) : DeskAction op.Ans :=
  Program.perform op

/-- Whether there still is a worker to take it. -/
def send (m : Notification) : DeskAction Bool :=
  call (.send m)

/-- A step whose failure ends the work. -/
def attempt {α : Type} (p : DeskAction (Except Error α)) : ExceptT Error DeskAction α :=
  ExceptT.mk p

/-- A step that does not fail, of work that may. -/
def perform {α : Type} (p : DeskAction α) : ExceptT Error DeskAction α :=
  p.lift

end Desk

/-- The part of `AppPaths` that shows: where the certificate is expected. -/
structure AppPaths where
  caCertificate : String

def notAUrl : Error :=
  .config ("the server address is not a URL. It needs a scheme, as in " ++
    "https://miniflux.example.com/")

def stoppedBefore : Error :=
  .config "the sync worker thread stopped before it took the account"

section Refresh

variable [UrlLibrary] [AccountHasher] (paths : AppPaths)

/-- The certificate is read only for a server it can be about. -/
def transportConfigFor (account : Account) :
    ExceptT Error DeskAction (Option (List UInt8)) := do
  let usesTls := (UrlLibrary.parse account.serverUrl).any fun url => url.scheme = "https"
  if account.useCustomCa && usesTls then
    match ← Desk.perform (Desk.call .readCa) with
    | .ok pem => return some pem
    | .error e =>
        throw (.config ("the custom CA certificate at " ++ paths.caCertificate ++
          " could not be read: " ++ e))
  else return none

/-- What the worker is told of a stored account's settings. -/
def publish (account : Account) : DeskAction Unit := do
  let _ ← Desk.send (.setSyncInterval (syncIntervalMinutesFor account.syncIntervalIndex))
  let _ ← Desk.send (.setRetention (retentionSecondsFor account.retentionIndex))
  let _ ← Desk.send (.setWifiOnly account.wifiOnly)
  return ()

def buildFrom (account : Account) : ExceptT Error DeskAction AppContext := do
  match UrlLibrary.parse account.serverUrl with
  | none => throw notAUrl
  | some server =>
      let config ← transportConfigFor paths account
      Desk.attempt (Desk.call .openMirror)
      let configured ← Desk.perform (Desk.send (.configure ⟨⟨server, account.token⟩, config⟩))
      if configured then
        Desk.perform (publish account)
        return {
          origin := server
          mediaPolicy := account.mediaPolicy
          markReadDelayIndex := account.markReadDelayIndex
          fingerprint := fingerprint account }
      else throw stoppedBefore

def install (account : Account) : ExceptT Error DeskAction AppContext := do
  let ctx ← buildFrom paths account
  Desk.perform (Desk.call (.install ctx))
  return ctx

/-- The context there is, if it was built for the account in the file, else another. -/
def refresh : ExceptT Error DeskAction AppContext := do
  let account ← Desk.attempt (Desk.call .loadAccount)
  match ← Desk.perform (Desk.call .current) with
  | some existing =>
      if existing.fingerprint = fingerprint account then return existing
      else install paths account
  | none => install paths account

/-! ## The page -/

/-- What a tap left to show: whether it went well, and a message. -/
abbrev LocalNotice := Option (Bool × String)

namespace Settings

/-- The account as it is typed. -/
def trimmed (form : Account) : Account :=
  { form with
    serverUrl := String.ofList (trim form.serverUrl.toList)
    token := String.ofList (trim form.token.toList) }

/-- The context and the worker hear of the settings an account keeps. -/
def publishAll (form : Account) : DeskAction Unit := do
  match ← Desk.call .current with
  | none => return ()
  | some _ =>
      let _ ← Desk.call (.setMediaPolicy form.mediaPolicy)
      let _ ← Desk.call (.setMarkReadDelayIndex form.markReadDelayIndex)
      publish form

/-- The account is written, and the running app made to match. -/
def store (form : Account) (notice : LocalNotice) : DeskAction LocalNotice := do
  let account := trimmed form
  if account.serverUrl = "" ∨ account.token = "" then return notice
  else
    match ← Desk.call (.saveAccount account) with
    | .error e => return some (false, e.toString)
    | .ok () =>
        match ← (refresh paths).run with
        | .error e =>
            publishAll form
            return some (false, e.toString)
        | .ok _ =>
            publishAll form
            return notice

/-- Without a data directory there is nowhere to store an account. -/
def save (paths : Option AppPaths) (form : Account) (notice : LocalNotice) :
    DeskAction LocalNotice :=
  match paths with
  | none => return notice
  | some paths => store paths form notice

def askTheWorker (notice : LocalNotice) : DeskAction LocalNotice := do
  if notice.isSome then return notice
  else
    match ← Desk.call .current with
    | none => return some (false, "fill in the server address and the API key first")
    | some _ =>
        if ← Desk.send .testConnection then return none
        else return some (false, "the sync worker is not running; restart Vuo")

/-- What an earlier tap left is not shown as the answer to this one. -/
def testConnection (paths : Option AppPaths) (form : Account) : DeskAction LocalNotice :=
  match paths with
  | none => return some (false, "could not work out where to store the account")
  | some paths => do
      let notice ← store paths form none
      askTheWorker notice

end Settings

/-- At start-up a file without a usable account is no fault. -/
def refreshCurrent (paths : Option AppPaths) : DeskAction (Option AppContext) :=
  match paths with
  | none => return none
  | some paths => do return (← (refresh paths).run).toOption

end Refresh

end Vuo.Shim
