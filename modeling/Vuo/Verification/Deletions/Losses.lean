import Vuo.Verification.Calls
import Vuo.Verification.Deletions.Catalog
import Vuo.Verification.Mirror.Removals
import Vuo.Verification.Pass
import Vuo.Verification.Replay.Record

/-!
# What a pass takes away

A pass against a server that stays as it is: every entry that goes and every
intent that goes, step by step, with the reason it goes for.
-/

namespace Vuo

open Foundation MinifluxClient Store Paging

namespace Sync

open Pull Replay

/-! ## A server that stays as it is -/

/-- The ids of a server's entries, and the feeds it lists. -/
structure StillServer where
  ids : Finset ℤ
  feeds : Set FeedId

/-- The listings of ids and of feeds are those of the server. -/
def StillServer.Honest (s : StillServer) : (request : Request) → Answer request → Prop
  | .entryIds query offset, r => ∀ response : BoundedResponse Wire.EntryIdsResponse,
      r = .ok response → ∀ answer, response.body = .ok answer →
        IdPage.Honest ⟨s.ids, query, offset, answer⟩
  | .feeds, r => ∀ response : BoundedResponse (List Wire.Feed), r = .ok response →
      ∀ wires, response.body = .ok wires → ∀ id, id ∈ wires.map Wire.Feed.id ↔ id ∈ s.feeds
  | _, _ => True

/-- The requests of a pass with their answers, and the time it read first. -/
structure PassLog where
  exchanges : List Exchange
  started : Option DateTime

def PassLog.start : PassLog where
  exchanges := []
  started := none

/-- A server that stays as it is, and a reader at work on the mirror. -/
def still (s : StillServer) : Outside PassLog where
  send t request o r o' :=
    s.Honest request r ∧ (∀ e, r = .error e → Transport.Fails e) ∧
      o' = { o with exchanges := o.exchanges ++ [⟨t, request, r⟩] }
  now o t o' := o' = { o with started := o.started.or (some t) }
  commit _ _ o := o
  env w w' := w'.outside = w.outside ∧
    ∃ body : Transaction, (∀ s ∈ body, s.ByReader) ∧ w'.db = body.exec w.db

/-! ## Reasons -/

/-- Some answered page reports the entry removed. -/
def Reported (log : List Exchange) (id : EntryId) : Prop :=
  ∃ (t : Transport) (query : EntriesQuery) (response : BoundedResponse Wire.EntriesResponse)
    (page : Wire.EntriesResponse),
    (⟨t, .entries query, .ok response⟩ : Exchange) ∈ log ∧ response.body = .ok page ∧
      ∃ row ∈ page.entries, row.id = id ∧ row.status = "removed"

/-- The server no longer has the entry, reports it removed, or no longer lists
its feed. -/
def Gone (s : StillServer) (w : World PassLog) (id : EntryId) : Prop :=
  id ∉ s.ids ∨ Reported w.outside.exchanges id ∨
    ∃ e, w.db.entries.find? id = some e ∧ e.feedId ∉ s.feeds

/-- Read, not starred, older than the retention cutoff of the pass, and nothing
is queued for it. -/
def Expired (options : SyncOptions) (w : World PassLog) (e : EntryRow) : Prop :=
  ∃ keepFor started, options.retentionSecs = some keepFor ∧ 0 < keepFor ∧
    w.outside.started = some started ∧ e.status = .read ∧ e.starred = false ∧
      (e.publishedAt.or e.createdAt).getD 0 < saturatingSub started.timestamp keepFor ∧
        ∀ r ∈ w.db.outbox, r.entryId ≠ e.id

/-- The step records the end of a batch that sent the intent: confirmed after an
answer that accepted it, or discarded after one that rejected its write or the
version probe before it. -/
def Resolved (op : Op) (w : World PassLog) (r : OutboxRow) : Prop :=
  ∃ b, Outbox.covers b r = true ∧
    (op = .transact [.confirm b] ∧ BatchAccepted w.outside.exchanges b ∨
      op = .transact [.discard b] ∧ BatchRejected w.outside.exchanges b)

/-- What a step may take away, and why. -/
structure TakesOnly (s : StillServer) (options : SyncOptions) (op : Op)
    (w w' : World PassLog) : Prop where
  entries : ∀ id e, w.db.entries.find? id = some e →
    id ∈ heldIds w'.db ∨ Gone s w id ∨ Expired options w e
  intents : ∀ k r, w.db.outbox.find? k = some r →
    (∃ r', w'.db.outbox.find? k = some r' ∧ r'.value = r.value) ∨ Resolved op w r ∨
      Gone s w r.entryId ∧ r.entryId ∉ heldIds w'.db

variable {s : StillServer} {options : SyncOptions} {op : Op} {w w' : World PassLog}

theorem TakesOnly.of_spares (h : Spares w.db w'.db) : TakesOnly s options op w w' where
  entries := fun id e he => .inl (h.entries id (by rw [mem_heldIds, he]; rfl))
  intents := fun k r hr => .inl (h.intents k r hr)

theorem TakesOnly.of_db_eq (h : w'.db = w.db) : TakesOnly s options op w w' :=
  .of_spares (h ▸ Spares.refl w.db)

theorem TakesOnly.of_transaction {body : Transaction} (h : ∀ s ∈ body, s.RemovesNothing) :
    TakesOnly s options op w ((still s).commitTo body w) :=
  .of_spares (spares_transaction h w.db)

/-- A batch's end takes its own intents, and no entry. -/
theorem TakesOnly.of_batch {b : Batch}
    (hdb : w'.db = (Outbox.confirm b w.db).2)
    (hend : op = .transact [.confirm b] ∧ BatchAccepted w.outside.exchanges b ∨
      op = .transact [.discard b] ∧ BatchRejected w.outside.exchanges b) :
    TakesOnly s options op w w' where
  entries := by
    intro id e he
    refine .inl ?_
    rw [hdb, Outbox.confirm_db, mem_heldIds]
    simp [he]
  intents := by
    intro k r hr
    rw [hdb, Outbox.confirm_outbox, hr]
    by_cases hcovers : Outbox.covers b r = true
    · exact .inr (.inl ⟨b, hcovers, hend⟩)
    · refine .inl ⟨r, ?_, rfl⟩
      simp [Option.filter, hcovers]

/-- Deletions of entries that are gone. -/
theorem TakesOnly.of_deleteEntries {body : Transaction} {ids : List EntryId}
    (hbody : ∀ s ∈ body, s.RemovesNothing) (hids : ∀ id ∈ ids, Gone s w id) :
    TakesOnly s options op w ((still s).commitTo (body ++ ids.map .deleteEntry) w) where
  entries := by
    intro id e he
    by_cases hid : id ∈ ids
    · exact .inr (.inl (hids id hid))
    · refine .inl ?_
      rw [Outside.db_commitTo, Transaction.exec_append, mem_heldIds_deleteEntries]
      exact ⟨(spares_transaction hbody w.db).entries id (by rw [mem_heldIds, he]; rfl), hid⟩
  intents := by
    intro k r hr
    rw [Outside.db_commitTo, Transaction.exec_append, outbox_deleteEntries]
    have hkey : r.entryId = k.1 := by rw [← Table.key_of_find? hr]; rfl
    by_cases hid : k.1 ∈ ids
    · refine .inr (.inr ⟨hkey ▸ hids _ hid, ?_⟩)
      rw [mem_heldIds_deleteEntries, hkey]
      exact fun h => h.2 hid
    · rw [if_neg hid]
      exact .inl ((spares_transaction hbody w.db).intents k r hr)

/-- Deletions of feeds that are not listed. -/
theorem TakesOnly.of_deleteFeeds {ids : List FeedId} (hids : ∀ id ∈ ids, id ∉ s.feeds) :
    TakesOnly s options op w ((still s).commitTo (ids.map .deleteFeed) w) where
  entries := by
    intro id e he
    by_cases hfeed : e.feedId ∈ ids
    · exact .inr (.inl (.inr (.inr ⟨e, he, hids _ hfeed⟩)))
    · refine .inl ?_
      rw [Outside.db_commitTo, mem_heldIds, entries_deleteFeeds, he]
      simp [Option.filter, hfeed]
  intents := by
    intro k r hr
    rw [Outside.db_commitTo, outbox_deleteFeeds, hr]
    cases he : w.db.entries.find? r.entryId with
    | none =>
        refine .inl ⟨r, ?_, rfl⟩
        simp [Option.filter, he]
    | some e =>
        by_cases hfeed : e.feedId ∈ ids
        · refine .inr (.inr ⟨.inr (.inr ⟨e, he, hids _ hfeed⟩), ?_⟩)
          rw [mem_heldIds, entries_deleteFeeds, he]
          simp [Option.filter, hfeed]
        · refine .inl ⟨r, ?_, rfl⟩
          simp [Option.filter, he, hfeed]

/-- Retention. -/
theorem TakesOnly.of_prune {keepFor : ℤ} {started : DateTime}
    (hkeep : options.retentionSecs = some keepFor) (hpos : 0 < keepFor)
    (hstarted : w.outside.started = some started) :
    TakesOnly s options op w
      ((still s).commitTo [.pruneEntries (saturatingSub started.timestamp keepFor)] w) where
  entries := by
    intro id e he
    have hexec : Transaction.exec [.pruneEntries (saturatingSub started.timestamp keepFor)] w.db =
        (pruneEntries (saturatingSub started.timestamp keepFor) w.db).2 := rfl
    rw [Outside.db_commitTo, hexec, mem_heldIds, entries_pruneEntries, he]
    by_cases hold : prunable (saturatingSub started.timestamp keepFor) w.db e = true
    · obtain ⟨hread, hstar, hcutoff, hqueue⟩ := prunable_iff.1 hold
      exact .inr (.inr ⟨keepFor, started, hkeep, hpos, hstarted, hread, hstar, hcutoff, hqueue⟩)
    · exact .inl (by simp [Option.filter, hold])
  intents := fun k r hr => .inl ⟨r, hr, rfl⟩

/-! ## The steps of a pass -/

/-- Every step takes only what it may. -/
def takesOnly (s : StillServer) (options : SyncOptions) :
    Setting.Guarantee Op Op.Ans (World PassLog) :=
  fun op w _ w' => TakesOnly s options op w w'

/-- The pass looked at the clock at this time. -/
def StartedAt (now : ℤ) (o : PassLog) : Prop :=
  ∃ t, o.started = some t ∧ t.timestamp = now

theorem stable_log (P : PassLog → Prop) : (still s).setting.Stable fun w => P w.outside := by
  rintro w w' ⟨houtside, -⟩ h
  rw [houtside]
  exact h

theorem records_still : Records (still s) PassLog.exchanges where
  send := by
    rintro t request o r o' ⟨-, hfails, rfl⟩
    exact ⟨hfails, rfl⟩
  now := by
    rintro o t o' rfl
    rfl
  env := by
    rintro w w' ⟨houtside, -⟩
    rw [houtside]

theorem startedAt_of_act {now : ℤ} {r : op.Ans} (h : (still s).setting.act op w r w')
    (hw : StartedAt now w.outside) : StartedAt now w'.outside := by
  cases op with
  | query q =>
      obtain ⟨rfl, -⟩ := Outside.act_query h
      exact hw
  | transact body =>
      obtain ⟨-, rfl⟩ | ⟨-, rfl⟩ := Outside.act_transact h
      · exact hw
      · exact hw
  | send t request =>
      obtain ⟨-, ⟨-, -, rfl⟩, rfl⟩ := Outside.act_send h
      exact hw
  | now =>
      obtain ⟨-, rfl, rfl⟩ := h
      obtain ⟨t, ht, htime⟩ := hw
      exact ⟨t, by simp [ht], htime⟩
  | knownVersion cell =>
      obtain ⟨-, rfl⟩ := h
      exact hw
  | rememberVersion cell version =>
      cases h
      exact hw

theorem takesOnly_of_quiet (op : Op) (w : World PassLog) (r : op.Ans) (w' : World PassLog)
    (_ : ∀ body, op ≠ .transact body) (hdb : w'.db = w.db) : takesOnly s options op w r w' :=
  TakesOnly.of_db_eq hdb

/-- A step that removes nothing, as a whole. -/
theorem wpe_of_removesNothing {α : Type} {p : Action α}
    (hp : Program.CallsE (Op.Commits Statement.RemovesNothing) p) {now : ℤ}
    (hw : StartedAt now w.outside) :
    (still s).setting.wpe (takesOnly s options) p (fun _ w => StartedAt now w.outside)
      (fun _ _ => True) w := by
  refine Setting.wpe_mono (fun _ _ h => h) (fun _ _ _ => trivial)
    (Setting.wpe_of_calls (stable_log (StartedAt now)) ?_ hp hw)
  intro op hop w r w' hact hw
  refine ⟨?_, startedAt_of_act hact hw⟩
  by_cases hkind : ∃ body, op = .transact body
  · obtain ⟨body, rfl⟩ := hkind
    obtain ⟨-, rfl⟩ | ⟨-, rfl⟩ := Outside.act_transact hact
    · exact TakesOnly.of_transaction hop
    · exact TakesOnly.of_db_eq rfl
  · exact TakesOnly.of_db_eq (Outside.db_of_act (fun body h => hkind ⟨body, h⟩) hact)

/-- What a request leaves, whatever is read off its answer. -/
theorem exchanged {t : Transport} {request : Request} {r : Answer request} {o : PassLog}
    {now : ℤ} (hsend : (still s).send t request w.outside r o)
    (hw : StartedAt now w.outside) :
    takesOnly s options (.send t request) w r (w.setOutside o) ∧
      StartedAt now (w.setOutside o).outside :=
  ⟨TakesOnly.of_db_eq rfl, startedAt_of_act (Outside.act_send_of hsend) hw⟩

/-! ### The listing of a server that stays as it is -/

/-- The pages are honest ones of the server's ids. -/
def OfServer (s : StillServer) (pages : List IdPage) : Prop :=
  ∀ p ∈ pages, p.Honest ∧ p.ids = s.ids

/-- A listing that ends at a short page shows every id. -/
theorem OfServer.complete {pages : List IdPage} (h : OfServer s pages)
    (hasked : AskedFrom 0 pages) (hshort : LastPage pages False) : collected pages = s.ids := by
  obtain ⟨last, hlast, hend⟩ := hshort
  have hhonest : ∀ p ∈ pages, p.Honest := fun p hp => (h p hp).1
  have hsets : ∀ S ∈ sets pages, S = s.ids := by
    intro S hS
    obtain ⟨p, hp, rfl⟩ := List.mem_map.1 hS
    exact (h p hp).2
  have hmem := List.mem_of_getLast? hlast
  have hfull := lastPage_full (hhonest last hmem) hasked hlast
  rw [(h last hmem).2] at hfull
  rw [collected_eq_listed hhonest hasked]
  refine listed_const hsets (by simpa [sets] using List.ne_nil_of_mem hmem) ?_
  have hbeyond := mt hfull.2 hend.1
  simp only [sets, List.length_map]
  omega

/-- The listing so far. -/
def ListingSoFar (s : StillServer) (now : ℤ) (offset : ℕ) (total : Option ℤ) (seen : List ℤ)
    (o : PassLog) : Prop :=
  StartedAt now o ∧ ∃ pages, Listed pages total seen ∧
    offset = reconcilePage * pages.length ∧ OfServer s pages

/-- Where a listing ends, every id of the server was collected. -/
def ListingEnded (s : StillServer) (now : ℤ) (r : Option (ℤ × List ℤ)) (o : PassLog) : Prop :=
  StartedAt now o ∧ ∀ total seen, r = some (total, seen) → ∀ id ∈ s.ids, id ∈ seen

theorem listingFollows {now : ℤ} {offset : ℕ} {total : Option ℤ} {seen : List ℤ}
    {page : Wire.EntryIdsResponse} (h : ListingSoFar s now offset total seen w.outside)
    (hw' : StartedAt now w'.outside)
    (hpage : IdPage.Honest ⟨s.ids, reconcileQuery, offset, page⟩) :
    ListingFollows (fun offset total seen w => ListingSoFar s now offset total seen w.outside)
      (fun r w => ListingEnded s now r w.outside) offset total seen page w' := by
  obtain ⟨-, pages, hlisted, hoffset, hserver⟩ := h
  have hlisted' := hlisted.answer ⟨s.ids, reconcileQuery, offset, page⟩ rfl hoffset
  have hserver' : OfServer s (pages ++ [⟨s.ids, reconcileQuery, offset, page⟩]) := by
    intro p hp
    rcases List.mem_append.1 hp with hp | hp
    · exact hserver p hp
    · rw [List.mem_singleton.1 hp]
      exact ⟨hpage, rfl⟩
  constructor
  · intro hshort
    refine ⟨hw', ?_⟩
    rintro total' seen' hr id hid
    cases hr
    have hlast : LastPage (pages ++ [⟨s.ids, reconcileQuery, offset, page⟩]) False :=
      ⟨_, List.getLast?_concat, by simpa using hshort⟩
    have hall := hserver'.complete hlisted'.asked hlast
    rw [← List.mem_toFinset, hlisted'.seen, hall]
    exact hid
  · intro _ _
    exact ⟨hw', fun _ _ hr => (nomatch hr)⟩
  · intro _ _
    refine ⟨hw', _, hlisted', ?_, hserver'⟩
    rw [List.length_append, List.length_singleton, Nat.mul_succ, hoffset]

section Steps

variable [Endpoints] {client : MinifluxClient} {now : ℤ}

theorem wpe_reconcile_takes (hw : StartedAt now w.outside) :
    (still s).setting.wpe (takesOnly s options) (Pull.reconcile client)
      (fun _ w => StartedAt now w.outside) (fun _ _ => True) w := by
  have hstart : ListingSoFar s now 0 none [] w.outside :=
    ⟨hw, [], ⟨trivial, rfl, rfl⟩, rfl, fun p hp => (nomatch hp)⟩
  refine wpe_reconcile (L := fun r w => ListingEnded s now r w.outside)
    (D := fun seen _ w => StartedAt now w.outside ∧ ∀ id ∈ s.ids, id ∈ seen)
    (fun r => stable_log (ListingEnded s now r))
    (fun seen _ => stable_log fun o => StartedAt now o ∧ ∀ id ∈ s.ids, id ∈ seen)
    (fun _ => stable_log (StartedAt now)) (fun _ => Setting.stable_const _)
    (wpe_reconcilePages (fun offset total seen => stable_log (ListingSoFar s now offset total seen))
      (fun r => stable_log (ListingEnded s now r)) (fun _ => Setting.stable_const _) ?_ 0 none []
      hstart)
    (fun _ h => h.1) (fun _ _ _ _ h => h.1) ?_ (fun _ _ _ h _ => h.1) ?_ ?_
  · intro offset total seen w h r o hsend
    obtain ⟨hg, h'⟩ := exchanged hsend h.1
    refine ⟨hg, ?_⟩
    cases hresult : readResult client (.entryIds reconcileQuery offset) r with
    | error e => trivial
    | ok page =>
        cases r with
        | error e => cases hresult
        | ok response =>
            exact listingFollows h h' (hsend.1 response rfl page (decode_eq_ok hresult).2.2)
  · intro total seen w _ h
    exact ⟨fun _ => TakesOnly.of_db_eq rfl, ⟨h.1, h.2 total seen rfl⟩, fun _ => trivial⟩
  · intro seen ids w h _
    have hnone : ∀ s ∈ ([] : Transaction), s.RemovesNothing := by simp
    refine ⟨TakesOnly.of_deleteEntries hnone fun id hid => .inl fun hserver => ?_, h.1⟩
    have hmissing := (List.mem_filter.1 hid).2
    simp [h.2 id hserver] at hmissing
  · intro seen ids m w h
    exact ⟨TakesOnly.of_db_eq rfl, trivial⟩

theorem wpe_reconcileStep_takes (state : SyncState) (version : ServerVersion) (interval : ℤ)
    (hw : StartedAt now w.outside) :
    (still s).setting.wpe (takesOnly s options)
      (reconcileStep client state version now interval)
      (fun _ w => StartedAt now w.outside) (fun _ _ => True) w := by
  unfold reconcileStep
  refine Setting.wpe_bind (fun _ => Setting.stable_const _) (Setting.wpe_mono ?_
    (fun _ _ h => h)
    (wpe_of_removesNothing (commits_of_fetches (fetches_divergenceStep client _)) hw))
  intro diverging w₁ h₁
  split
  · exact wpe_reconcile_takes h₁
  · exact Setting.wpe_pure (stable_log (StartedAt now)) h₁

omit [Endpoints] in
theorem wpe_pruneStep_takes (hw : StartedAt now w.outside) :
    (still s).setting.wpe (takesOnly s options) (pruneStep options now)
      (fun _ w => StartedAt now w.outside) (fun _ _ => True) w := by
  unfold pruneStep
  split
  · next keepFor hkeep =>
      obtain ⟨hsome, hpos⟩ := Option.filter_eq_some_iff.1 hkeep
      refine Outside.wpe_withTx (stable_log (StartedAt now)) hw
        (fun _ => stable_log (StartedAt now)) (fun _ => Setting.stable_const _) ?_ ?_
      · rintro w ⟨started, hstarted, rfl⟩
        exact ⟨TakesOnly.of_prune hsome (by simpa using hpos) hstarted, started, hstarted, rfl⟩
      · intro m w h
        exact ⟨TakesOnly.of_db_eq rfl, trivial⟩
  · exact Setting.wpe_pure (stable_log (StartedAt now)) hw

theorem wpe_replayStep (hw : StartedAt now w.outside) :
    (still s).setting.wpe (takesOnly s options) (replayStep client options)
      (fun _ w => StartedAt now w.outside) (fun _ _ => True) w := by
  unfold replayStep
  split
  · exact Setting.wpe_pure (stable_log (StartedAt now)) hw
  · refine Setting.wpe_mono (fun _ _ h => h) (fun _ _ _ => trivial)
      (records_still.wpe_flush (stable_log (StartedAt now)) takesOnly_of_quiet
        (fun op _ w r w' hact h => startedAt_of_act hact h) ?_ ?_ ?_ ?_ hw)
    · intro b w h haccepted
      exact ⟨.of_batch rfl (.inl ⟨rfl, haccepted⟩), h⟩
    · intro b w h hrejected
      exact ⟨.of_batch rfl (.inr ⟨rfl, hrejected⟩), h⟩
    · intro b error w h
      exact ⟨.of_transaction (by simp [Statement.RemovesNothing, bookkeeping]), h⟩
    · intro body m w h
      exact TakesOnly.of_db_eq rfl

variable [UrlLibrary]

/-- The feed listing was answered. -/
def FeedsListed (s : StillServer) (now : ℤ) (wires : List Wire.Feed) (o : PassLog) : Prop :=
  StartedAt now o ∧ ∀ id, id ∈ wires.map Wire.Feed.id ↔ id ∈ s.feeds

theorem wpe_taxonomy_takes (generation : ℤ) (hw : StartedAt now w.outside) :
    (still s).setting.wpe (takesOnly s options) (Pull.taxonomy client generation)
      (fun _ w => StartedAt now w.outside) (fun _ _ => True) w := by
  refine wpe_taxonomy (F := fun wires w => FeedsListed s now wires w.outside)
    (stable_log (StartedAt now)) (fun wires => stable_log (FeedsListed s now wires))
    (fun _ => Setting.stable_const _) ?_ ?_ ?_ ?_ ?_ ?_ hw
  · intro w h r o hsend
    obtain ⟨hg, h'⟩ := exchanged hsend h
    refine ⟨hg, ?_⟩
    cases readResult client .categories r with
    | error e => trivial
    | ok categories => exact h'
  · intro w h r o hsend
    obtain ⟨hg, h'⟩ := exchanged hsend h
    refine ⟨hg, ?_⟩
    cases hresult : readResult client .feeds r with
    | error e => trivial
    | ok wires =>
        refine ⟨h', ?_⟩
        cases r with
        | error e => cases hresult
        | ok response => exact hsend.1 response rfl wires (decode_eq_ok hresult).2.2
  · intro categories feeds wires w h
    refine ⟨.of_transaction ?_, h⟩
    intro st hst
    simp only [taxonomyTx, List.mem_append, List.mem_map] at hst
    rcases hst with ⟨c, -, rfl⟩ | ⟨f, -, rfl⟩ <;> rfl
  · intro wires w h
    exact ⟨fun _ => TakesOnly.of_db_eq rfl, h.1, fun _ => trivial⟩
  · intro wires gone w h hgone
    exact ⟨.of_deleteFeeds fun id hid hlisted => hgone id hid ((h.2 id).2 hlisted), h.1⟩
  · intro wires body m w h
    exact ⟨TakesOnly.of_db_eq rfl, trivial⟩

/-- A page was answered, and what it reports removed is on record. -/
def PageReported (now : ℤ) (page : Wire.EntriesResponse) (o : PassLog) : Prop :=
  StartedAt now o ∧ ∀ id ∈ Convert.removedIds page.entries, Reported o.exchanges id

theorem wpe_entries_takes (cursor : Option ℤ) (generation : ℤ)
    (hw : StartedAt now w.outside) :
    (still s).setting.wpe (takesOnly s options) (Pull.entries client cursor generation)
      (fun _ w => StartedAt now w.outside) (fun _ _ => True) w := by
  have hstable := stable_log (s := s) (StartedAt now)
  refine wpe_entriesWithPageCap (C := fun _ _ w => StartedAt now w.outside)
    (Q := fun _ w => StartedAt now w.outside) maxPagesPerPass (fun _ _ => hstable)
    (fun _ => hstable) (fun _ => Setting.stable_const _) (fun _ _ h => h) ?_ (fun _ _ h => h) ?_
  · intro w h t o hnow
    exact ⟨TakesOnly.of_db_eq rfl, startedAt_of_act (Outside.act_now_of hnow) h⟩
  · refine wpe_entriesPages (I := fun _ _ w => StartedAt now w.outside)
      (A := fun _ _ a w => PageReported now a.1 w.outside)
      (fun _ _ => hstable) (fun _ _ a => stable_log (PageReported now a.1)) (fun _ _ => hstable)
      (fun _ => Setting.stable_const _) ?_ ?_ ?_ (fun _ _ _ h => h) _ none none .default hw
    · intro after anchor w h r o hsend
      obtain ⟨hg, h'⟩ := exchanged hsend h
      refine ⟨hg, ?_⟩
      cases hresult : pageResult client (pageQuery cursor after) r with
      | error e => trivial
      | ok a =>
          obtain ⟨page, date⟩ := a
          obtain ⟨response, rfl, hbody, -⟩ := pageResult_eq_ok hresult
          refine ⟨h', fun id hid => ?_⟩
          obtain ⟨row, hrow, hstatus, rfl⟩ := Convert.mem_removedIds.1 hid
          obtain ⟨-, -, rfl⟩ := hsend
          exact ⟨_, _, response, page, List.mem_concat_self, hbody, row, hrow, rfl, hstatus⟩
    · intro after anchor page date w h
      refine ⟨?_, ?_⟩
      · refine TakesOnly.of_deleteEntries ?_ fun id hid => .inr (.inl (h.2 id hid))
        intro st hst
        obtain ⟨e, -, rfl⟩ := List.mem_map.1 hst
        trivial
      · unfold Follows
        split
        · exact h.1
        · split
          · split
            · exact h.1
            · exact h.1
          · exact h.1
    · intro after anchor page date m w h
      exact ⟨TakesOnly.of_db_eq rfl, trivial⟩

variable [IconDecoder]

theorem passRules (client : MinifluxClient) :
    PassRules (still s) (takesOnly s options) client options
      (fun w => w.outside.started = none) (fun _ w => w.outside.started = none)
      (fun _ now w => StartedAt now w.outside) (fun _ now _ w => StartedAt now w.outside)
      (fun _ _ => True) (fun _ _ => True) where
  stable_start := stable_log fun o => o.started = none
  stable_read := fun _ => stable_log fun o => o.started = none
  stable_running := fun _ now => stable_log (StartedAt now)
  stable_pulled := fun _ now _ => stable_log (StartedAt now)
  stable_end := fun _ => Setting.stable_const _
  stable_error := fun _ => Setting.stable_const _
  read := fun _ h => ⟨fun _ => TakesOnly.of_db_eq rfl, h, fun _ => trivial⟩
  now := by
    rintro state w h t o rfl
    exact ⟨TakesOnly.of_db_eq rfl, t, by simp [h], rfl⟩
  replay := fun _ _ _ h => wpe_replayStep h
  version := fun state now ttl _ h =>
    wpe_of_removesNothing (commits_of_reads (calls_resolveVersion client state _ ttl)) h
  taxonomy := fun _ _ generation _ h => wpe_taxonomy_takes generation h
  entries := fun state _ generation _ h => wpe_entries_takes state.cursorChangedAfter generation h
  reconcile := fun state _ _ version interval _ h =>
    wpe_reconcileStep_takes state version interval h
  icons := fun _ _ _ limit _ h =>
    wpe_of_removesNothing (commits_of_fetches (fetches_fetchIcons client limit (fun _ => rfl)
      (fun _ => rfl) fun _ => rfl)) h
  prune := fun _ _ _ _ h => wpe_pruneStep_takes h
  commit := by
    intro state now report version checkedAt w h
    refine ⟨.of_transaction ?_, trivial⟩
    simp [Statement.RemovesNothing, bookkeeping]
  commit_fails := fun _ _ _ _ _ _ _ => ⟨TakesOnly.of_db_eq rfl, trivial⟩
  refused := fun _ _ _ _ _ => trivial

end Steps

/-! ### One entry, reported removed -/

section Removed

open scoped Reader

/-- A server that still has entry 7 and lists no feed. -/
def oneEntry : StillServer where
  ids := {7}
  feeds := ∅

/-- Entry 7, reported removed. -/
def removedPage : Wire.EntriesResponse where
  entries := [{ wireEntry 7 with status := "removed" }]

/-- The requests of the pass up to the page. -/
def removedLog : List Exchange :=
  [⟨readerTransport, .version, answered 500 ⟨""⟩ none⟩,
    ⟨readerTransport, .categories, answered 200 [] none⟩,
    ⟨readerTransport, .feeds, answered 200 [] none⟩,
    ⟨readerTransport, .entries (pageQuery none none), answered 200 removedPage none⟩]

theorem hundred_inRange : 100 ≤ 8210266876799 := by
  decide

/-- The pass about to write the page. -/
def removedWorld : World PassLog :=
  ⟨mirrorOf 7, fun _ => none,
    { exchanges := removedLog
      started := some (secondsAfter 100 hundred_inRange) }⟩

theorem reaches_removedWorld :
    ∃ next, (still oneEntry).setting.Reaches ((sync readerClient withoutIcons).run,
      ⟨mirrorOf 7, fun _ => none, .start⟩)
      (.call (.transact [.deleteEntry 7]) next, removedWorld) := by
  have hsend : ∀ (request : Request) (status : ℕ) (a : request.Payload) (o : PassLog),
      oneEntry.Honest request (answered status a none) →
      (still oneEntry).send readerTransport request o (answered status a none)
        { o with
          exchanges := o.exchanges ++ [⟨readerTransport, request, answered status a none⟩] } :=
    fun request status a o h => ⟨h, fun e he => (nomatch he), rfl⟩
  have hfeeds : oneEntry.Honest .feeds (answered 200 [] none) := by
    rintro response hr wires hwires id
    cases hr
    cases hwires
    simp [oneEntry]
  refine ⟨?next, ?run⟩
  case run =>
    refine .call (Outside.act_query_ok .syncState _) ?_
    refine .call (Outside.act_now_of (t := secondsAfter 100 hundred_inRange) rfl) ?_
    refine .call (Outside.act_query_ok .pending _) ?_
    refine .call (Outside.act_send_of (hsend .version 500 ⟨""⟩ _ trivial)) ?_
    refine .call (Outside.act_send_of (hsend .categories 200 [] _ trivial)) ?_
    refine .call (Outside.act_send_of (hsend .feeds 200 [] _ hfeeds)) ?_
    refine .call (Outside.act_transact_ok [] _) ?_
    refine .call (Outside.act_query_ok .feeds _) ?_
    refine .call (Outside.act_send_of (hsend (.entries (pageQuery none none)) 200 removedPage _
      trivial)) ?_
    exact .refl

end Removed

end Sync

end Vuo
