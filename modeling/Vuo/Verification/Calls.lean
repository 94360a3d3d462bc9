import Vuo.Verification.World

/-!
# What the steps of a pass may write

For each step the statements its transactions are made of. Reads, requests and
the clock are open to all of them.
-/

namespace Vuo

open Foundation Program

/-- A transaction of the operation is made of the statements `A` only. -/
def Op.Commits (A : Statement → Prop) : Op → Prop
  | .transact body => ∀ s ∈ body, A s
  | _ => True

/-- The requests a pass makes after its replay. -/
def Request.Reads : Request → Prop
  | .version | .categories | .feeds | .entries _ | .entryIds _ _ | .feedIcon _ | .counters => True
  | _ => False

/-- ... and a request changes nothing on the server. -/
def Op.Reads (A : Statement → Prop) : Op → Prop
  | .transact body => ∀ s ∈ body, A s
  | .send _ request => request.Reads
  | _ => True

/-- Those of them that do not ask for the version. -/
def Request.Fetches (request : Request) : Prop :=
  request.Reads ∧ request ≠ .version

def Op.Fetches (A : Statement → Prop) : Op → Prop
  | .transact body => ∀ s ∈ body, A s
  | .send _ request => request.Fetches
  | _ => True

variable {A : Statement → Prop}

theorem Op.Reads.commits {op : Op} (h : op.Reads A) : op.Commits A := by
  cases op <;> first | exact h | trivial

theorem Op.Fetches.reads {op : Op} (h : op.Fetches A) : op.Reads A := by
  cases op with
  | send t request => exact h.1
  | transact body => exact h
  | _ => trivial

theorem reads_of_fetches {α : Type} {p : Action α} (h : CallsE (Op.Fetches A) p) :
    CallsE (Op.Reads A) p :=
  Calls.mono (fun _ hop => hop.reads) h

/-- A program that only reads the server commits what it commits. -/
theorem commits_of_reads {α : Type} {p : Action α} (h : CallsE (Op.Reads A) p) :
    CallsE (Op.Commits A) p :=
  Calls.mono (fun _ hop => hop.commits) h

theorem commits_of_fetches {α : Type} {p : Action α} (h : CallsE (Op.Fetches A) p) :
    CallsE (Op.Commits A) p :=
  commits_of_reads (reads_of_fetches h)

namespace Action

theorem fetches_query (q : Query) : CallsE (Op.Fetches A) (query q) :=
  ⟨trivial, fun _ => trivial⟩

theorem calls_query (q : Query) : CallsE (Op.Reads A) (query q) :=
  reads_of_fetches (fetches_query q)

theorem calls_send (t : Transport) {request : Request} (h : request.Reads) :
    CallsE (Op.Reads A) (send t request) :=
  ⟨h, fun _ => trivial⟩

theorem fetches_now : CallsE (Op.Fetches A) now :=
  ⟨trivial, fun _ => trivial⟩

theorem calls_now : CallsE (Op.Reads A) now :=
  reads_of_fetches fetches_now

theorem calls_knownVersion (cell : ℕ) : CallsE (Op.Reads A) (knownVersion cell) :=
  ⟨trivial, fun _ => trivial⟩

theorem calls_rememberVersion (cell : ℕ) (version : ServerVersion) :
    CallsE (Op.Reads A) (rememberVersion cell version) :=
  ⟨trivial, fun _ => trivial⟩

theorem calls_ofResult {α : Type} (r : Except Error α) :
    CallsE (Op.Reads A) (ofResult r) :=
  trivial

theorem fetches_withTx {body : Transaction} (h : ∀ s ∈ body, A s) :
    CallsE (Op.Fetches A) (withTx body) :=
  ⟨h, fun _ => trivial⟩

theorem calls_withTx {body : Transaction} (h : ∀ s ∈ body, A s) :
    CallsE (Op.Reads A) (withTx body) :=
  reads_of_fetches (fetches_withTx h)

end Action

open Vuo.Action

section Requests

variable [Endpoints] (client : MinifluxClient)

namespace MinifluxClient

theorem calls_getJson {request : Request} (h : request.Reads) :
    CallsE (Op.Reads A) (client.getJson request) :=
  (calls_send _ h).bind fun _ => calls_ofResult _

theorem fetches_getJson {request : Request} (h : request.Fetches) :
    CallsE (Op.Fetches A) (client.getJson request) := by
  refine CallsE.bind ⟨h, fun _ => trivial⟩ fun response => ?_
  trivial

theorem calls_version : CallsE (Op.Reads A) client.version :=
  (client.calls_getJson (by exact trivial)).bind fun _ =>
    (calls_rememberVersion _ _).bind fun _ => .pure _

theorem calls_updateEntries (ids : List EntryId) (mutation : EntryMutation) :
    CallsE (Op.Commits A) (client.updateEntries ids mutation) := by
  have hcapable : CallsE (Op.Commits A) client.writeCapableVersion := by
    refine (commits_of_reads (calls_knownVersion _)).bind ?_
    rintro (_ | v)
    · exact commits_of_reads client.calls_version
    · exact .pure v
  have hrefuse : CallsE (Op.Commits A) client.refuseEntryWritesBeforeFloor := by
    refine hcapable.bind ?_
    intro v
    split
    · exact .pure _
    · exact .throw _
  unfold updateEntries
  split
  · exact .throw _
  · have hsend (request : Request) : CallsE (Op.Commits A) (send client.transport request) :=
      ⟨trivial, fun _ => trivial⟩
    exact hrefuse.bind fun _ => (hsend _).bind fun _ => commits_of_reads (calls_ofResult _)

theorem fetches_entries (query : EntriesQuery) :
    CallsE (Op.Fetches A) (client.entries query) := by
  refine CallsE.bind ⟨⟨trivial, nofun⟩, fun _ => trivial⟩ fun response => ?_
  exact CallsE.bind trivial fun _ => .pure _

end MinifluxClient

/-! ## The steps of a pass -/

open MinifluxClient

theorem Replay.calls_flush (hconfirm : ∀ b, A (.confirm b)) (hdiscard : ∀ b, A (.discard b))
    (hrecord : ∀ b error, A (.recordFailure b error)) :
    CallsE (Op.Commits A) (Replay.flush client) := by
  have hbatches : ∀ (batches : List Batch) (outcome : ReplayOutcome),
      CallsE (Op.Commits A) (flushBatches client batches outcome) := by
    intro batches
    induction batches with
    | nil => exact fun _ => .pure _
    | cons b bs ih =>
        intro outcome
        refine (client.calls_updateEntries _ _).attempt.bind ?_
        rintro (e | u)
        · dsimp only
          split
          · exact (commits_of_reads (calls_withTx (by simpa using hrecord b _))).bind fun _ =>
              .pure _
          · split
            · exact (commits_of_reads (calls_withTx (by simpa using hdiscard b))).bind fun _ =>
                ih _
            · exact (commits_of_reads (calls_withTx (by simpa using hrecord b _))).bind fun _ =>
                ih _
        · exact (commits_of_reads (calls_withTx (by simpa using hconfirm b))).bind fun _ => ih _
  exact (commits_of_reads (calls_query _)).bind fun _ => hbatches _ _

namespace Pull

theorem fetches_taxonomy [UrlLibrary] (generation : ℤ)
    (hcategory : ∀ c g, A (.upsertCategory c g)) (hfeed : ∀ f g, A (.upsertFeed f g))
    (hgone : ∀ id, A (.deleteFeed id)) :
    CallsE (Op.Fetches A) (taxonomy client generation) := by
  refine (client.fetches_getJson (by exact ⟨trivial, nofun⟩)).bind fun _ =>
    (client.fetches_getJson (by exact ⟨trivial, nofun⟩)).bind fun _ =>
    (fetches_withTx ?_).bind fun _ => (fetches_query _).bind fun _ => ?_
  · intro s hs
    simp only [taxonomyTx, List.mem_append, List.mem_map] at hs
    rcases hs with ⟨c, -, rfl⟩ | ⟨f, -, rfl⟩
    · exact hcategory c _
    · exact hfeed f _
  · split
    · exact .pure _
    · dsimp only
      split
      · exact .pure _
      · refine (fetches_withTx ?_).bind fun _ => .pure _
        intro s hs
        obtain ⟨id, -, rfl⟩ := List.mem_map.1 hs
        exact hgone id

theorem fetches_entriesPages [UrlLibrary] (cursor : Option ℤ) (generation : ℤ)
    (hentry : ∀ e g arrival, A (.upsertEntry e g arrival)) (hgone : ∀ id, A (.deleteEntry id))
    (budget : ℕ) (after : Option EntryId) (serverNow : Option ℤ) (outcome : PullOutcome) :
    CallsE (Op.Fetches A)
      (entriesPages client cursor generation budget after serverNow outcome) := by
  induction budget generalizing after serverNow outcome with
  | zero => exact .pure _
  | succ budget ih =>
      refine (client.fetches_entries _).bind fun answer => (fetches_withTx ?_).bind fun _ => ?_
      · intro s hs
        simp only [pageTx, List.mem_append, List.mem_map] at hs
        rcases hs with ⟨e, -, rfl⟩ | ⟨id, -, rfl⟩
        · exact hentry e _ _
        · exact hgone id
      · split
        · exact .pure _
        · split
          · split
            · exact ih _ _ _
            · exact .pure _
          · exact .pure _

theorem fetches_entries [UrlLibrary] (cursor : Option ℤ) (generation : ℤ)
    (hentry : ∀ e g arrival, A (.upsertEntry e g arrival))
    (hgone : ∀ id, A (.deleteEntry id)) :
    CallsE (Op.Fetches A) (entries client cursor generation) := by
  refine (fetches_entriesPages client cursor generation hentry hgone _ _ _ _).bind ?_
  rintro ⟨outcome, serverNow, complete⟩
  dsimp only
  split
  · split
    · exact .pure _
    · exact fetches_now.bind fun _ => .pure _
  · exact .pure _

theorem fetches_reconcilePages (offset : ℕ) (total : Option ℤ) (seen : List ℤ) :
    CallsE (Op.Fetches A) (reconcilePages client offset total seen) := by
  induction hleft : reconcileLimit + reconcilePage - offset using Nat.strongRecOn
    generalizing offset total seen with
  | ind left ih =>
      rw [reconcilePages]
      refine (client.fetches_getJson (by exact ⟨trivial, nofun⟩)).bind fun page => ?_
      dsimp only
      by_cases hshort : page.entryIds.length < reconcilePage
      · rw [if_pos hshort]
        exact .pure _
      · rw [if_neg hshort]
        rw [CallsE.dite_iff]
        refine ⟨fun _ => .pure _, fun hlimit => ih _ ?_ _ _ _ rfl⟩
        simp only [reconcileLimit, reconcilePage] at *
        omega

theorem fetches_reconcile (hdelete : ∀ id, A (.deleteEntry id)) :
    CallsE (Op.Fetches A) (reconcile client) := by
  refine (fetches_reconcilePages client 0 none []).bind ?_
  rintro (_ | ⟨total, seen⟩)
  · exact .pure _
  · rw [deleteUnlisted]
    split
    · refine (fetches_query _).bind fun localIds => ?_
      dsimp only
      split
      · exact .pure _
      · refine (fetches_withTx ?_).bind fun _ => .pure _
        intro s hs
        obtain ⟨id, -, rfl⟩ := List.mem_map.1 hs
        exact hdelete id
    · exact .pure _

end Pull

namespace Sync

theorem calls_resolveVersion (state : SyncState) (now ttl : ℤ) :
    CallsE (Op.Reads A) (resolveVersion client state now ttl) := by
  unfold resolveVersion
  cases cachedVersion state now ttl with
  | some version => exact .pure _
  | none =>
      refine client.calls_version.attempt.bind ?_
      rintro (e | version)
      · exact .pure _
      · exact .pure _

theorem fetches_divergenceStep (worthAsking : Bool) :
    CallsE (Op.Fetches A) (divergenceStep client worthAsking) := by
  unfold divergenceStep
  split
  · have hfeeds : CallsE (Op.Fetches A) (Pull.divergingFeeds client) :=
      (client.fetches_getJson (by exact ⟨trivial, nofun⟩)).bind fun _ =>
        (fetches_query _).bind fun _ => .pure _
    refine hfeeds.attempt.bind ?_
    rintro (e | feeds)
    · exact .pure _
    · exact .pure _
  · exact .pure _

theorem fetches_reconcileStep (state : SyncState) (version : ServerVersion) (now interval : ℤ)
    (hdelete : ∀ id, A (.deleteEntry id)) :
    CallsE (Op.Fetches A) (reconcileStep client state version now interval) := by
  unfold reconcileStep
  refine (fetches_divergenceStep client _).bind fun diverging => ?_
  split
  · exact Pull.fetches_reconcile client hdelete
  · exact .pure _

theorem fetches_fetchIcons [IconDecoder] (limit : ℤ)
    (hfailure : ∀ id, A (.recordIconFailure id)) (hicon : ∀ icon, A (.upsertIcon icon))
    (hclear : ∀ id, A (.clearIconFailures id)) :
    CallsE (Op.Fetches A) (fetchIcons client limit) := by
  have hwanted : ∀ (wanted : List (FeedId × IconId)) (fetched : ℕ),
      CallsE (Op.Fetches A) (fetchIconsFor client wanted fetched) := by
    intro wanted
    induction wanted with
    | nil => exact fun _ => .pure _
    | cons pair wanted ih =>
        intro fetched
        refine (client.fetches_getJson (by exact ⟨trivial, nofun⟩)).attempt.bind ?_
        rintro (e | wire)
        · exact (fetches_withTx (by simpa using hfailure pair.1)).bind fun _ => ih _
        · dsimp only
          split
          · next icon _ =>
              have hboth : ∀ s ∈ [Statement.upsertIcon icon, .clearIconFailures pair.1], A s := by
                simpa using ⟨hicon icon, hclear pair.1⟩
              exact (fetches_withTx hboth).bind fun _ => ih _
          · exact (fetches_withTx (by simpa using hfailure pair.1)).bind fun _ => ih _
  unfold fetchIcons
  split
  · exact .pure _
  · exact (fetches_query _).bind fun _ => hwanted _ _

omit [Endpoints] in
theorem fetches_pruneStep (options : SyncOptions) (now : ℤ) (hprune : ∀ t, A (.pruneEntries t)) :
    CallsE (Op.Fetches A) (pruneStep options now) := by
  unfold pruneStep
  split
  · exact fetches_withTx (by simpa using hprune _)
  · exact .pure _

end Sync

end Requests

end Vuo
