import Vuo.Foundation.Trace
import Vuo.Model.Shim.Pages

/-!
# The worker and the pages at work

Two threads share the mirror and the signal. The worker writes, bumps and
posts at any time; the thread of the pages runs one handler after the other,
and between two of its accesses to what is shared the worker may get in.
-/

namespace Vuo.Shim

open Foundation

/-- A model that polls the generation. -/
inductive Viewer
  | entries (i : ℕ)
  | feeds (i : ℕ)
  deriving DecidableEq

/-- A page that polls for notices. -/
inductive Page
  | viewer (v : Viewer)
  | settings (k : ℕ)
  deriving DecidableEq

/-- What the thread of the pages is in the middle of. `sync` is whether a
refresh, whose command the worker took or not, is what is going on. -/
inductive Qt
  | idle
  | took (page : Page) (notice : Notice)
  | drained (v : Viewer)
  | moved (v : Viewer)
  | startOver (i : ℕ) (sync : Option Bool)
  | bump (i : ℕ) (sync : Option Bool)
  | bumped (i : ℕ) (sync : Option Bool)
  | bumpForOthers
  deriving DecidableEq

structure App where
  db : Db
  signal : SyncSignal
  entryModels : ℕ → EntryModel
  feedModels : ℕ → FeedModel
  settings : ℕ → Settings
  articles : ℕ → ArticleModel
  qt : Qt

namespace App

/-- Before anything happened. -/
def start (db : Db) : App where
  db := db
  signal := SyncSignal.default
  entryModels _ := EntryModel.default
  feedModels _ := FeedModel.default
  settings _ := Settings.default
  articles _ := ArticleModel.default
  qt := .idle

def setEntryModel (i : ℕ) (m : EntryModel) (a : App) : App :=
  { a with entryModels := Function.update a.entryModels i m }

def setFeedModel (i : ℕ) (m : FeedModel) (a : App) : App :=
  { a with feedModels := Function.update a.feedModels i m }

def setSettings (k : ℕ) (s : Settings) (a : App) : App :=
  { a with settings := Function.update a.settings k s }

def setArticle (k : ℕ) (m : ArticleModel) (a : App) : App :=
  { a with articles := Function.update a.articles k m }

/-- The generation a model last reloaded at. -/
def seenGeneration (v : Viewer) (a : App) : ℕ :=
  match v with
  | .entries i => (a.entryModels i).seenGeneration
  | .feeds i => (a.feedModels i).seenGeneration

def see (v : Viewer) (a : App) : App :=
  match v with
  | .entries i =>
      a.setEntryModel i { a.entryModels i with seenGeneration := a.signal.generation }
  | .feeds i =>
      a.setFeedModel i { a.feedModels i with seenGeneration := a.signal.generation }

section Step

variable [UrlLibrary] [Finder]

def reread (v : Viewer) (a : App) : App :=
  match v with
  | .entries i => a.setEntryModel i ((a.entryModels i).reload a.signal a.db)
  | .feeds i => a.setFeedModel i ((a.feedModels i).reload a.db)

/-! ### Polls -/

/-- What follows once a poll is done with the notices. -/
def afterNotices (page : Page) (a : App) : App :=
  match page with
  | .viewer v => { a with qt := .drained v }
  | .settings _ => { a with qt := .idle }

/-- The spinner as a page last drew it. -/
def drawSpinner (page : Page) (a : App) : App :=
  match page with
  | .viewer (.entries i) =>
      a.setEntryModel i { a.entryModels i with seenRunning := a.signal.running }
  | _ => a

/-- A poll up to and with the taking of the notice. -/
def poll (page : Page) (a : App) : App :=
  let a := drawSpinner page a
  let (notice, signal) := a.signal.takeNotice
  let a := { a with signal := signal }
  match notice with
  | none => afterNotices page a
  | some notice => { a with qt := .took page notice }

/-- The page's own arm, and what it puts back. -/
def receive (page : Page) (notice : Notice) (a : App) : App × Option Notice :=
  match page with
  | .viewer (.entries i) =>
      let (m, other) := (a.entryModels i).drainNotice notice
      (a.setEntryModel i m, other)
  | .viewer (.feeds i) =>
      let (m, other) := (a.feedModels i).drainUpdateNotice notice
      (a.setFeedModel i m, other)
  | .settings k =>
      let (s, other) := (a.settings k).pollNoticeFrom notice
      (a.setSettings k s, other)

/-- A notice in hand is shown or put back. -/
def settle (page : Page) (notice : Notice) (a : App) : App :=
  let (a, other) := receive page notice a
  match other with
  | none => afterNotices page a
  | some other => afterNotices page { a with signal := a.signal.post other }

/-- The guard of a poll: whether the mirror moved. -/
def look (v : Viewer) (a : App) : App :=
  if a.signal.generation = a.seenGeneration v then { a with qt := .idle }
  else { a.see v with qt := .moved v }

/-- The article takes the outcome of its own scrape only. -/
def pollArticle (k : ℕ) (a : App) : App :=
  let m := a.articles k
  if m.entryId = 0 then a
  else
    match a.signal.takeFetchOutcome m.entryId with
    | (none, _) => a
    | (some outcome, signal) => { a.setArticle k (m.showOutcome outcome a.db) with signal := signal }

/-! ### Changes made by the reader -/

/-- Write intents and patch the rows they are about, all of them this
model's own. -/
def applyLocal (i : ℕ) (ids : List ℤ) (value : DesiredValue) (now : ℤ) (a : App) : App :=
  let patch (m : EntryModel) (id : ℤ) : EntryModel :=
    match value with
    | .status s => m.markRow id (some (s ≠ .read)) none
    | .starred b => m.markRow id none (some b)
  { a.setEntryModel i (ids.foldl patch (a.entryModels i)) with
    db := ids.foldl (fun db id => Outbox.queue id value now db) a.db
    qt := .bump i none }

def setRead (i row : ℕ) (read : Bool) (now : ℤ) (a : App) : App :=
  match (a.entryModels i).idAt row with
  | none => a
  | some id => applyLocal i [id] (.status (if read then .read else .unread)) now a

def setReadMany (i : ℕ) (ids : List ℤ) (read : Bool) (now : ℤ) (a : App) : App :=
  if ids.isEmpty then a
  else applyLocal i ids (.status (if read then .read else .unread)) now a

def setStarred (i row : ℕ) (starred : Bool) (now : ℤ) (a : App) : App :=
  match (a.entryModels i).idAt row with
  | none => a
  | some id => applyLocal i [id] (.starred starred) now a

/-- Mark everything in a scope read, on the mirror. -/
def markScopeRead (scope : Scope) (now : ℤ) (db : Db) : Option Db :=
  match scope with
  | .feed id => some (Outbox.queueMarkFeedRead id now db).2
  | .category id => some (Outbox.queueMarkCategoryRead id now db).2
  | other => other.toFilter.map fun filter =>
      Outbox.queueRead (Store.entryIdsMatching filter db) now db

def markAllReadIn (i : ℕ) (scope : Scope) (now : ℤ) (a : App) : App :=
  match markScopeRead scope now a.db with
  | none => a
  | some db => { a with db := db, qt := .startOver i none }

/-- The reader asks for a fresh list; `sent` is whether the worker is there. -/
def requestSync (i : ℕ) (sent : Bool) (a : App) : App :=
  let m := a.entryModels i
  { a.setEntryModel i { m with syncError := "", syncErrorIsAuth := false } with
    signal := a.signal.markRefreshed
    qt := .startOver i (some sent) }

/-- The end of a refresh: the spinner goes up unless the worker is gone. -/
def finishRequest (i : ℕ) (sync : Option Bool) (a : App) : App :=
  match sync with
  | none => { a with qt := .idle }
  | some sent =>
      let a := { a with signal := a.signal.setRunning sent }
      { a.setEntryModel i { a.entryModels i with seenRunning := a.signal.running } with
        qt := .idle }

def markFeedRead (i row : ℕ) (now : ℤ) (a : App) : App :=
  match (a.feedModels i).idAt row with
  | none => a
  | some id =>
      let db := (Outbox.queueMarkFeedRead id now a.db).2
      { a.setFeedModel i ((a.feedModels i).reload db) with db := db }

/-- The open article's own toggles. -/
def applyArticle (k : ℕ) (value : DesiredValue) (now : ℤ) (a : App) : App :=
  let m := a.articles k
  if m.entryId = 0 then a
  else
    let m := match value with
      | .status s => { m with isRead := s = .read }
      | .starred b => { m with isStarred := b }
    { a.setArticle k m with
      db := Outbox.queue m.entryId value now a.db
      qt := .bumpForOthers }

/-- The next step of the handler in progress. -/
def resume (a : App) : App :=
  match a.qt with
  | .idle => a
  | .took page notice => settle page notice a
  | .drained v => look v a
  | .moved v => { a.reread v with qt := .idle }
  | .startOver i sync =>
      { a.setEntryModel i ((a.entryModels i).reloadFresh a.signal a.db) with qt := .bump i sync }
  | .bump i sync => { a with signal := a.signal.bump, qt := .bumped i sync }
  | .bumped i sync =>
      finishRequest i sync (a.setEntryModel i ((a.entryModels i).sawGeneration a.signal))
  | .bumpForOthers => { a with signal := a.signal.bump, qt := .idle }

/-! ### Steps -/

/-- A handler of the pages' thread. A write that fails changes nothing and is
not listed. -/
inductive Handler
  | poll (page : Page)
  | pollArticle (k : ℕ)
  | refresh (v : Viewer)
  | setScope (i : ℕ) (scope : Scope)
  | setSearch (i : ℕ) (text : String)
  | loadMore (i : ℕ)
  | setRead (i row : ℕ) (read : Bool) (now : ℤ)
  | setReadMany (i : ℕ) (ids : List ℤ) (read : Bool) (now : ℤ)
  | setStarred (i row : ℕ) (starred : Bool) (now : ℤ)
  | markAllReadIn (i : ℕ) (scope : Scope) (now : ℤ)
  | requestSync (i : ℕ) (sent : Bool)
  | markFeedRead (i row : ℕ) (now : ℤ)
  | openArticle (k : ℕ) (entryId : ℤ)
  | fetchOriginal (k : ℕ)
  | applyArticle (k : ℕ) (value : DesiredValue) (now : ℤ)

def handle (h : Handler) (a : App) : App :=
  match h with
  | .poll page => poll page a
  | .pollArticle k => pollArticle k a
  | .refresh v => a.reread v
  | .setScope i scope =>
      a.setEntryModel i ({ a.entryModels i with scope := some scope }.reloadFresh a.signal a.db)
  | .setSearch i text =>
      let m := { a.entryModels i with search := text }
      if text = (a.entryModels i).search then a
      else if m.scope = some .search then a.setEntryModel i (m.reloadFresh a.signal a.db)
      else a.setEntryModel i m
  | .loadMore i =>
      let m := a.entryModels i
      if m.hasMore then
        a.setEntryModel i ({ m with limit := m.window + pageSize }.reload a.signal a.db)
      else a
  | .setRead i row read now => setRead i row read now a
  | .setReadMany i ids read now => setReadMany i ids read now a
  | .setStarred i row starred now => setStarred i row starred now a
  | .markAllReadIn i scope now => markAllReadIn i scope now a
  | .requestSync i sent => requestSync i sent a
  | .markFeedRead i row now => markFeedRead i row now a
  | .openArticle k entryId => a.setArticle k ((a.articles k).load entryId a.db)
  | .fetchOriginal k => a.setArticle k (a.articles k).fetchOriginal
  | .applyArticle k value now => applyArticle k value now a

/-- What the worker does to what is shared. -/
inductive WorkerStep
  | write (db : Db)
  | bump
  | post (notice : Notice)
  | postFetchOutcome (outcome : FetchOutcome)
  | setRunning (running : Bool)

def work (e : WorkerStep) (a : App) : App :=
  match e with
  | .write db => { a with db := db }
  | .bump => { a with signal := a.signal.bump }
  | .post notice => { a with signal := a.signal.post notice }
  | .postFetchOutcome outcome => { a with signal := a.signal.postFetchOutcome outcome }
  | .setRunning running => { a with signal := a.signal.setRunning running }

inductive Event
  | worker (e : WorkerStep)
  | start (h : Handler)
  | resume

/-- One step of either thread: a handler starts when none is in progress. -/
def step (e : Event) (a : App) : Option App :=
  match e with
  | .worker e => some (work e a)
  | .start h => if a.qt = .idle then some (handle h a) else none
  | .resume => if a.qt = .idle then none else some (resume a)

end Step

end App

/-- A step of the two threads. -/
abbrev Step := Taken App.Event App

abbrev Trace := List Step

end Vuo.Shim
