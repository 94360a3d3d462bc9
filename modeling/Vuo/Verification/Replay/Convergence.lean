import Vuo.Foundation.Worker
import Vuo.Verification.Calls
import Vuo.Verification.Pass
import Vuo.Verification.Replay.Batches
import Vuo.Verification.Replay.Drops
import Vuo.Verification.Replay.Ledger

/-!
# Replay loses nothing and converges

The books stay in order through every pass and flush, whatever is queued, lost
or cut off in between. While a flush is under way, what it still has to send was
asked for and not yet confirmed.
-/

namespace Vuo

open Foundation MinifluxClient

namespace Ledger

variable {o : Ledger}

/-! ## What happens outside the process -/

theorem server_queueAll (intents : List (EntryId × DesiredValue)) :
    (o.queueAll intents).server = o.server := by
  induction intents generalizing o with
  | nil => rfl
  | cons intent intents ih => exact ih

theorem confirmed_queueAll {intents : List (EntryId × DesiredValue)} {k : EntryId × OutboxField}
    (h : k ∈ (o.queueAll intents).confirmed) : k ∈ o.confirmed := by
  induction intents generalizing o with
  | nil => exact h
  | cons intent intents ih => exact (ih h).1

theorem last_queueAll {intents : List (EntryId × DesiredValue)} {id : EntryId} {f : OutboxField}
    (h : o.last id f ≠ none) : (o.queueAll intents).last id f ≠ none := by
  induction intents generalizing o with
  | nil => exact h
  | cons intent intents ih =>
      refine ih ?_
      simp only [queue]
      split
      · exact Option.some_ne_none _
      · exact h

/-- What the outside leaves alone while the process waits: nothing new counts as
confirmed, and the server keeps what the reader asked for. -/
structure Waits (o o' : Ledger) : Prop where
  confirmed : ∀ k ∈ o'.confirmed, k ∈ o.confirmed
  asked : ∀ id f, o.last id f ≠ none → o'.last id f ≠ none
  server : ∀ id f, o.last id f ≠ none → o'.server id f = o.server id f

variable [UrlLibrary]

theorem waits_of_env {w w' : World Ledger} (h : ledger.env w w') :
    Waits w.outside w'.outside := by
  rcases h with ⟨s, -, -, houtside⟩ | ⟨-, server, hserver, houtside⟩
  · rw [houtside]
    refine ⟨fun _ => confirmed_queueAll, fun _ _ => last_queueAll, ?_⟩
    intro id f _
    rw [server_queueAll]
  · rw [houtside]
    exact ⟨fun _ h => h, fun _ _ h => h, hserver⟩

/-- The books of a world are in order. -/
def Orderly (w : World Ledger) : Prop :=
  Kept w.db w.outside

theorem stable_orderly : ledger.setting.Stable Orderly := by
  rintro w w' (⟨s, hs, hdb, houtside⟩ | ⟨hdb, server, hserver, houtside⟩) (hw : Kept _ _)
  · unfold Orderly
    rw [hdb, houtside]
    have hkeep : Store.bookkeeping s = true → Kept (s.exec w.db) w.outside := fun hb =>
      hw.of_sameView (Store.sameView_of_bookkeeping hb w.db) (understood_exec s hw.understood)
    cases s with
    | queue id v now => exact hw.queue id v now
    | queueMarkFeedRead feedId now => exact hw.queueAll _ now
    | queueMarkCategoryRead categoryId now => exact hw.queueAll _ now
    | acknowledgeArrivals ids => exact hkeep rfl
    | acknowledgeAllArrivals => exact hkeep rfl
    | storeScraped id content => exact hkeep rfl
    | _ => exact hs.elim
  · unfold Orderly
    rw [hdb, houtside]
    refine hw.of_server fun id f hconfirmed => hserver id f ?_
    rw [(hw.confirmed id f hconfirmed).2]
    exact Option.some_ne_none _

/-! ## A flush -/

/-- The batches a flush still has to send: no entry twice for a field, each
asked for and none confirmed. -/
structure Sending (bs : List Batch) (w : World Ledger) : Prop where
  orderly : Orderly w
  apart : bs.Pairwise Outbox.Apart
  unconfirmed : ∀ b ∈ bs, ∀ id ∈ b.entryIds, (id, b.value.field) ∉ w.outside.confirmed
  asked : ∀ b ∈ bs, ∀ id ∈ b.entryIds, w.outside.last id b.value.field ≠ none

/-- The server has what a batch asked for. -/
def Applied (b : Batch) (o : Ledger) : Prop :=
  ∀ id ∈ b.entryIds, o.server id b.value.field = b.value

theorem stable_sending (bs : List Batch) : ledger.setting.Stable (Sending bs) := by
  intro w w' henv h
  have hwaits := waits_of_env henv
  exact ⟨stable_orderly w w' henv h.orderly, h.apart,
    fun b hb id hid hc => h.unconfirmed b hb id hid (hwaits.confirmed _ hc),
    fun b hb id hid => hwaits.asked id _ (h.asked b hb id hid)⟩

theorem stable_applied (b : Batch) (bs : List Batch) :
    ledger.setting.Stable fun w => Sending (b :: bs) w ∧ Applied b w.outside := by
  rintro w w' henv ⟨h, happlied⟩
  refine ⟨stable_sending _ w w' henv h, fun id hid => ?_⟩
  rw [(waits_of_env henv).server id _ (h.asked b List.mem_cons_self id hid)]
  exact happlied id hid

omit [UrlLibrary] in
/-- The batches of an outbox are still to send. -/
theorem sending_batches {w : World Ledger} (h : Orderly w) :
    Sending (Outbox.batches (Outbox.pending w.db)) w := by
  have hqueued : ∀ b ∈ Outbox.batches (Outbox.pending w.db), ∀ id ∈ b.entryIds,
      Outbox.pendingFor id b.value.field w.db = some b.value := by
    intro b hb id hid
    obtain ⟨p, hp, rfl, hvalue⟩ := Outbox.mem_batches hb hid
    rw [← hvalue]
    exact Outbox.pendingFor_of_mem_pending hp
  refine ⟨h, Outbox.pairwise_batches (Outbox.nodup_pending w.db), ?_, ?_⟩
  · intro b hb id hid hconfirmed
    have hpending := (h.confirmed id _ hconfirmed).1
    rw [hqueued b hb id hid] at hpending
    cases hpending
  · intro b hb id hid
    rw [h.queued id _ _ (hqueued b hb id hid)]
    exact Option.some_ne_none _

omit [UrlLibrary] in
/-- A batch's write changes nothing that was confirmed. -/
theorem Sending.write {b : Batch} {bs : List Batch} {w : World Ledger}
    (h : Sending (b :: bs) w) {body : Wire.EntriesUpdateRequest}
    (hbody : body = updateRequest b.entryIds (Replay.mutation b.value)) :
    Sending (b :: bs) (w.setOutside (w.outside.write body)) ∧
      Applied b (w.outside.write body) := by
  subst hbody
  refine ⟨⟨h.orderly.of_server ?_, h.apart, h.unconfirmed, h.asked⟩, ?_⟩
  · intro id f hconfirmed
    split
    · next hid =>
        rw [sets_updateRequest]
        have hother : f ≠ b.value.field := by
          rintro rfl
          exact h.unconfirmed b List.mem_cons_self id hid hconfirmed
        rw [if_neg hother]
        rfl
    · rfl
  · intro id hid
    have hin : id ∈ (updateRequest b.entryIds (Replay.mutation b.value)).entryIds := hid
    simp [Ledger.write, if_pos hin, sets_updateRequest]

omit [UrlLibrary] in
/-- A batch leaves the flush: rows of it may go, and the books stay in order. -/
theorem Sending.next {b : Batch} {bs : List Batch} {w w' : World Ledger}
    (h : Sending (b :: bs) w) (horderly : Orderly w')
    (hconfirmed : ∀ id f, (id, f) ∈ w'.outside.confirmed →
      (id, f) ∈ w.outside.confirmed ∨ id ∈ b.entryIds ∧ f = b.value.field)
    (hlast : w'.outside.last = w.outside.last) : Sending bs w' where
  orderly := horderly
  apart := h.apart.of_cons
  unconfirmed := by
    intro b' hb' id hid hc
    rcases hconfirmed id _ hc with hold | ⟨hid', hfield⟩
    · exact h.unconfirmed b' (List.mem_cons_of_mem b hb') id hid hold
    · exact (List.pairwise_cons.1 h.apart).1 b' hb' hfield.symm id hid' hid
  asked := fun b' hb' id hid => hlast ▸ h.asked b' (List.mem_cons_of_mem b hb') id hid

variable [Endpoints] {client : MinifluxClient}

theorem wpe_sendBatch {b : Batch} {bs : List Batch} {w : World Ledger}
    (hw : Sending (b :: bs) w) :
    ledger.setting.wpe (Setting.keeps Orderly)
      (client.updateEntries b.entryIds (Replay.mutation b.value))
      (fun _ w => Sending (b :: bs) w ∧ Applied b w.outside) (fun _ => Sending (b :: bs)) w := by
  refine Replay.wpe_updateEntries (stable_sending _) (stable_applied b bs)
    (fun _ => stable_sending _) ?_ (fun _ h => h) (fun _ _ h => h) ?_ ?_ hw
  · intro op hop w r w' hact h
    have hsame : w'.db = w.db ∧ w'.outside = w.outside := by
      cases op with
      | query q =>
          obtain ⟨rfl, -⟩ := Outside.act_query hact
          exact ⟨rfl, rfl⟩
      | transact body => exact hop.elim
      | send t request => exact hop.elim
      | now =>
          obtain ⟨-, rfl, rfl⟩ := hact
          exact ⟨rfl, rfl⟩
      | knownVersion cell =>
          obtain ⟨-, rfl⟩ := hact
          exact ⟨rfl, rfl⟩
      | rememberVersion cell version =>
          cases hact
          exact ⟨rfl, rfl⟩
    have h' : Sending (b :: bs) w' := by
      refine ⟨?_, h.apart, hsame.2 ▸ h.unconfirmed, hsame.2 ▸ h.asked⟩
      have horderly : Kept w.db w.outside := h.orderly
      rw [← hsame.1, ← hsame.2] at horderly
      exact horderly
    exact ⟨h'.orderly, h'⟩
  · rintro w h r o rfl
    refine ⟨h.orderly, ?_⟩
    cases readResult client .version r <;> exact h
  · rintro w h r o ⟨hwrite, haccepted⟩
    have hsent : Sending (b :: bs) (w.setOutside o) := by
      rcases hwrite with rfl | rfl
      · exact h
      · exact (h.write rfl).1
    refine ⟨hsent.orderly, ?_⟩
    cases hresult : MinifluxClient.writeResult client (Replay.batchRequest b) r with
    | error e => exact hsent
    | ok u =>
        cases r with
        | error e => cases hresult
        | ok response =>
            have hstatus : 200 ≤ response.status ∧ response.status < 300 := by
              rcases status_of_checkStatus response (Endpoints.endpoint client.transport
                (Replay.batchRequest b)) with ⟨-, h⟩ | ⟨m, herr⟩
              · exact h
              · exact absurd (herr.symm.trans hresult) (by simp)
            refine ⟨hsent, ?_⟩
            rw [haccepted response rfl hstatus.1 hstatus.2]
            exact (h.write rfl).2

/-- A flush keeps the books in order. -/
theorem wpe_flush_orderly {w : World Ledger} (hw : Orderly w) :
    ledger.setting.wpe (Setting.keeps Orderly) (Replay.flush client) (fun _ => Orderly)
      (fun _ => Orderly) w := by
  refine Setting.wpe_bind (fun _ => stable_orderly) (Outside.wpe_query stable_orderly hw
    (fun _ => Setting.wpe_stable _) (fun _ => stable_orderly) ?_ (fun _ _ h => h)
    (fun _ _ h => h))
  intro w₁ h₁
  refine Replay.wpe_flushBatches (I := Sending) (A := fun b bs w => Sending (b :: bs) w ∧
      Applied b w.outside) (F := fun _ b bs => Sending (b :: bs)) stable_applied
    (fun _ b bs => stable_sending _) stable_orderly (fun b bs w h => wpe_sendBatch h)
    ?_ ?_ ?_ ?_ ?_ (fun _ _ h => h.orderly) _ _ (sending_batches h₁)
  · rintro b bs w ⟨h, happlied⟩
    have hkept : Orderly (ledger.commitTo [.confirm b] w) :=
      Kept.confirm h.orderly happlied
    refine ⟨hkept, h.next hkept ?_ rfl⟩
    rintro id f (hold | hremoved)
    · exact .inl hold
    · obtain ⟨hid, hfield, -⟩ := mem_of_removed hremoved
      exact .inr ⟨hid, hfield⟩
  · intro e b bs w h _
    have hkept : Orderly (ledger.commitTo [.discard b] w) := Kept.discard h.orderly b
    exact ⟨hkept, h.next hkept (fun _ _ hc => .inl hc) rfl⟩
  · intro e b bs w h _
    have hfits : w.outside.Fits (.recordFailure b e.toString) := trivial
    have hkept : Orderly (ledger.commitTo [.recordFailure b e.toString] w) :=
      Kept.exec h.orderly hfits
    exact ⟨hkept, h.next hkept (fun _ _ hc => .inl hc) rfl⟩
  · rintro b bs body m w ⟨h, -⟩
    exact ⟨h.orderly, h.orderly⟩
  · intro e b bs body m w h
    exact ⟨h.orderly, h.orderly⟩

/-! ## A pass -/

omit [Endpoints] in
/-- A step that reads the server and writes none of its values keeps the books
in order. -/
theorem wpe_reads_orderly {α : Type} {p : Action α}
    (hp : Program.CallsE (Op.Reads fun s => ∀ o : Ledger, o.Fits s) p) {w : World Ledger}
    (hw : Orderly w) :
    ledger.setting.wpe (Setting.keeps Orderly) p (fun _ => Orderly) (fun _ => Orderly) w := by
  refine Setting.wpe_of_calls stable_orderly ?_ hp hw
  intro op hop w r w' hact h
  suffices h' : Orderly w' from ⟨h', h'⟩
  cases op with
  | query q =>
      obtain ⟨rfl, -⟩ := Outside.act_query hact
      exact h
  | transact body =>
      obtain ⟨-, rfl⟩ | ⟨-, rfl⟩ := Outside.act_transact hact
      · exact Kept.commit h fun s hs => hop s hs _
      · exact h
  | send t request =>
      obtain ⟨o, hsend, rfl⟩ := Outside.act_send hact
      have hsame : o = w.outside := by
        cases request with
        | entries query => exact hsend.1
        | updateEntries body => exact hop.elim
        | _ => exact hsend
      rw [hsame]
      exact h
  | now =>
      obtain ⟨-, rfl, rfl⟩ := hact
      exact h
  | knownVersion cell =>
      obtain ⟨-, rfl⟩ := hact
      exact h
  | rememberVersion cell version =>
      cases hact
      exact h

/-- A page was answered and is not yet written: it shows what was confirmed. -/
structure Answered (page : Wire.EntriesResponse) (w : World Ledger) : Prop where
  orderly : Orderly w
  shows : ∀ row ∈ page.entries, ∀ x, Convert.entry row = .ok x → ∀ f,
    (x.id, f) ∈ w.outside.confirmed → Store.offered f x = w.outside.server x.id f

omit [Endpoints] in
theorem stable_answered (page : Wire.EntriesResponse) :
    ledger.setting.Stable (Answered page) := by
  intro w w' henv h
  have hwaits := waits_of_env henv
  refine ⟨stable_orderly w w' henv h.orderly, ?_⟩
  intro row hrow x hx f hconfirmed
  have hold := hwaits.confirmed _ hconfirmed
  have hasked : w.outside.last x.id f ≠ none := by
    rw [(h.orderly.confirmed _ _ hold).2]
    exact Option.some_ne_none _
  rw [hwaits.server x.id f hasked]
  exact h.shows row hrow x hx f hold

omit [Endpoints] in
theorem Answered.commit {page : Wire.EntriesResponse} {w : World Ledger}
    (h : Answered page w) (cursor : Option ℤ) (generation : ℤ) :
    Orderly (ledger.commitTo (Pull.answerTx page cursor generation) w) := by
  refine Kept.commit h.orderly ?_
  intro s hs
  simp only [Pull.answerTx, Pull.pageTx, List.mem_append, List.mem_map] at hs
  rcases hs with ⟨e, he, rfl⟩ | ⟨id, -, rfl⟩
  · obtain ⟨row, hrow, -, hentry⟩ := Convert.mem_valid.1 he
    exact fun f hconfirmed => h.shows row hrow e hentry f hconfirmed
  · trivial

theorem wpe_entries_orderly (cursor : Option ℤ) (generation : ℤ) {w : World Ledger}
    (hw : Orderly w) :
    ledger.setting.wpe (Setting.keeps Orderly) (Pull.entries client cursor generation)
      (fun _ => Orderly) (fun _ => Orderly) w := by
  refine Pull.wpe_entriesWithPageCap (Q := fun _ => Orderly) (C := fun _ _ => Orderly)
    Pull.maxPagesPerPass (fun _ _ => stable_orderly) (fun _ => stable_orderly)
    (fun _ => stable_orderly) (fun _ _ h => h) ?_ (fun _ _ h => h) ?_
  · rintro w h t o rfl
    exact ⟨h, h⟩
  · refine Pull.wpe_entriesPages (I := fun _ _ => Orderly) (A := fun _ _ a => Answered a.1)
      (fun _ _ => stable_orderly) (fun _ _ _ => stable_answered _) (fun _ _ => stable_orderly)
      (fun _ => stable_orderly) ?_ ?_ ?_ (fun _ _ _ h => h) _ none none .default hw
    · rintro after anchor w h r o ⟨rfl, hshows⟩
      refine ⟨h, ?_⟩
      cases hresult : pageResult client (Pull.pageQuery cursor after) r with
      | error e => exact h
      | ok a =>
          obtain ⟨page, date⟩ := a
          obtain ⟨response, rfl, hbody, -⟩ := pageResult_eq_ok hresult
          exact ⟨h, fun row hrow x hx f _ => hshows response rfl page hbody row hrow x hx f⟩
    · intro after anchor page date w h
      have hkept := h.commit cursor generation
      refine ⟨hkept, ?_⟩
      unfold Pull.Follows
      split
      · exact hkept
      · split
        · split <;> exact hkept
        · exact hkept
    · intro after anchor page date m w h
      exact ⟨h.orderly, h.orderly⟩

variable [IconDecoder]

theorem passRules (client : MinifluxClient) (options : SyncOptions) :
    Sync.PassRules ledger (Setting.keeps Orderly) client options Orderly (fun _ => Orderly)
      (fun _ _ => Orderly) (fun _ _ _ => Orderly) (fun _ => Orderly) (fun _ => Orderly) where
  stable_start := stable_orderly
  stable_read := fun _ => stable_orderly
  stable_running := fun _ _ => stable_orderly
  stable_pulled := fun _ _ _ => stable_orderly
  stable_end := fun _ => stable_orderly
  stable_error := fun _ => stable_orderly
  read := fun _ h => ⟨fun _ => h, h, fun _ => h⟩
  now := by
    rintro state w h t o rfl
    exact ⟨h, h⟩
  replay := by
    intro state now w h
    unfold Sync.replayStep
    split
    · exact Setting.wpe_pure stable_orderly h
    · exact wpe_flush_orderly h
  version := fun state now ttl w h =>
    wpe_reads_orderly (Sync.calls_resolveVersion client state now ttl) h
  taxonomy := fun _ _ generation w h =>
    wpe_reads_orderly (reads_of_fetches (Pull.fetches_taxonomy client generation
      (fun _ _ _ => trivial) (fun _ _ _ => trivial) fun _ _ => trivial)) h
  entries := fun state _ generation w h => wpe_entries_orderly _ generation h
  reconcile := fun state now _ version interval w h =>
    wpe_reads_orderly (reads_of_fetches
      (Sync.fetches_reconcileStep client state version now interval fun _ _ => trivial)) h
  icons := fun _ _ _ limit w h =>
    wpe_reads_orderly (reads_of_fetches (Sync.fetches_fetchIcons client limit
      (fun _ _ => trivial) (fun _ _ => trivial) fun _ _ => trivial)) h
  prune := fun _ now _ w h =>
    wpe_reads_orderly (reads_of_fetches
      (Sync.fetches_pruneStep options now fun _ _ => trivial)) h
  commit := by
    intro state now report version checkedAt w h
    have hkept : Orderly (ledger.commitTo
        [.setSyncState (Sync.nextState state now report version checkedAt)] w) :=
      Kept.commit h fun s hs => by
        rw [List.mem_singleton.1 hs]
        trivial
    exact ⟨hkept, hkept⟩
  commit_fails := fun _ _ _ _ _ _ h => ⟨h, h⟩
  refused := fun _ _ _ _ h => h

theorem wp_job {α : Type} {p : Program Op Op.Ans α} (hp : Sync.Job α p) {w : World Ledger}
    (hw : Orderly w) : ledger.setting.wp (Setting.keeps Orderly) p (fun _ => Orderly) w := by
  cases hp with
  | flush client =>
      refine Setting.wp_mono ?_ (wpe_flush_orderly hw)
      rintro (e | outcome) w' h <;> exact h
  | sync client options =>
      refine Setting.wp_mono ?_ (Sync.wpe_sync (passRules client options) hw)
      rintro (e | report) w' h <;> exact h

end Ledger

namespace Outbox

/-- A row of another value is neither removed nor charged for a batch. -/
theorem untouched {b : Batch} {r : OutboxRow} {db : Db} (hr : r ∈ db.outbox)
    (hvalue : DesiredValue.parse r.field r.value ≠ some b.value) :
    r ∈ ((Statement.confirm b).exec db).outbox ∧ r ∈ ((Statement.discard b).exec db).outbox ∧
      ∀ error, r ∈ ((Statement.recordFailure b error).exec db).outbox := by
  have hcovers : covers b r = false := by
    by_contra h
    have hsent := covers_iff.1 (by simpa using h)
    exact hvalue (DesiredValue.parse_eq_some.2 ⟨hsent.2.1, hsent.2.2⟩)
  have hkept : r ∈ (confirm b db).2.outbox := by
    rw [confirm_db]
    exact Table.mem_remove.2 ⟨hr, hcovers⟩
  refine ⟨hkept, hkept, fun error => ?_⟩
  have hfound := recordFailure_outbox b error db r.key
  rw [Table.find?_of_mem hr, Option.map_some, chargedFor_of_not_covers hcovers] at hfound
  exact Table.mem_of_find? hfound

end Outbox

/-- The books of a database as it is found: its intents are what was last asked
for. -/
def Ledger.ofDb (server : EntryId → OutboxField → DesiredValue) (db : Db) : Ledger where
  server := server
  last := fun id f => Outbox.pendingFor id f db
  confirmed := ∅
  lost := ∅
  discarded := False

theorem Ledger.kept_ofDb (server : EntryId → OutboxField → DesiredValue) {db : Db}
    (h : Reachable db) : Kept db (ofDb server db) where
  understood := h.understood
  queued := fun _ _ _ hv => hv
  confirmed := fun _ _ hc => hc.elim
  accounted := fun _ _ _ hlast hpending => absurd (hpending.symm.trans hlast) (by simp)
  shown := fun id f v x hlast _ _ hx => h.pendingWins id f v x hlast hx

namespace Sync

/-- Wherever flushes, passes, crashes and the reader lead: the outbox has one row
for an entry and field, of the value last queued; recording what became of a
batch leaves the rows of other values alone; what was confirmed the server has;
the mirror shows what was last queued, unless something was discarded; and every
intent is queued, confirmed, gone with its entry, or discarded. -/
theorem replay_converges [UrlLibrary] [Endpoints] [IconDecoder]
    {server : EntryId → OutboxField → DesiredValue} {w₀ w : World Ledger}
    (hdb : Reachable w₀.db) (hw₀ : w₀.outside = .ofDb server w₀.db)
    (hw : ledger.setting.Visits Job Crash w₀ w) :
    (∀ r ∈ w.db.outbox, ∃ v, DesiredValue.parse r.field r.value = some v ∧
      w.outside.last r.entryId v.field = some v ∧
      ∀ s ∈ w.db.outbox, s.entryId = r.entryId → s.field = r.field → s = r) ∧
    (∀ (b : Batch), ∀ r ∈ w.db.outbox, DesiredValue.parse r.field r.value ≠ some b.value →
      r ∈ ((Statement.confirm b).exec w.db).outbox ∧
        r ∈ ((Statement.discard b).exec w.db).outbox ∧
          ∀ error, r ∈ ((Statement.recordFailure b error).exec w.db).outbox) ∧
    (∀ id f, (id, f) ∈ w.outside.confirmed →
      w.outside.last id f = some (w.outside.server id f)) ∧
    (¬w.outside.discarded → ∀ id f v x, w.outside.last id f = some v →
      (id, f) ∉ w.outside.lost → Store.shown id f w.db = some x → x = v) ∧
    ∀ id f v, w.outside.last id f = some v → Outbox.pendingFor id f w.db = some v ∨
      (id, f) ∈ w.outside.confirmed ∨ (id, f) ∈ w.outside.lost ∨ w.outside.discarded := by
  have hkept : Ledger.Kept w.db w.outside := by
    refine hw.invariant Ledger.stable_orderly ?_ (fun _ _ hp _ => Ledger.wp_job hp) ?_
    · rintro w w' ⟨hdb, houtside⟩ h
      unfold Ledger.Orderly
      rw [hdb, houtside]
      exact h
    · unfold Ledger.Orderly
      rw [hw₀]
      exact Ledger.kept_ofDb server hdb
  refine ⟨?_, fun b r hr => Outbox.untouched hr, fun id f hc => (hkept.confirmed id f hc).2,
    fun hdiscarded id f v x hlast hlost => hkept.shown id f v x hlast hlost hdiscarded, ?_⟩
  · intro r hr
    obtain ⟨v, hv⟩ := hkept.understood r hr
    have hfield := (DesiredValue.parse_eq_some.1 hv).1
    have hpending : Outbox.pendingFor r.entryId v.field w.db = some v := by
      have hkey : r.key = (r.entryId, v.field.asStr) := by rw [OutboxRow.key, hfield]
      rw [Outbox.pendingFor, ← hkey, Table.find?_of_mem hr]
      exact hv
    refine ⟨v, hv, hkept.queued _ _ _ hpending, fun s hs hid hsfield => ?_⟩
    have hkey : s.key = r.key := by rw [OutboxRow.key, OutboxRow.key, hid, hsfield]
    have hfound := Table.find?_of_mem hs
    rw [hkey, Table.find?_of_mem hr] at hfound
    exact (Option.some.inj hfound).symm
  · intro id f v hlast
    cases hpending : Outbox.pendingFor id f w.db with
    | none => exact .inr (hkept.accounted id f v hlast hpending)
    | some p => exact .inl (by rw [← hkept.queued id f p hpending, hlast])

section Star

open scoped Reader

/-- A server that shows every entry unread and not starred. -/
def allUnread : EntryId → OutboxField → DesiredValue
  | _, .status => .status .unread
  | _, .starred => .starred false

/-- A queued star, before such a server new enough for it. -/
def starQueued : World Ledger :=
  ⟨starredDb, fun _ => some ⟨"2.3.2", 2, 3, 2⟩, .ofDb allUnread starredDb⟩

/-- A star taken by the server and confirmed. -/
theorem replay_converges_star :
    ∃ w : World Ledger, w.db.outbox.rows = [] ∧
      w.outside.server 7 .starred = .starred true ∧
      w.outside.last 7 .starred = some (w.outside.server 7 .starred) := by
  have hsend : ledger.send readerClient.transport (Replay.batchRequest Replay.starBatch)
      starQueued.outside (answered 204 () none) (starQueued.outside.write _) :=
    ⟨.inr rfl, fun _ _ _ _ => rfl⟩
  have hwrite := Replay.reaches_updateEntries (List.cons_ne_nil 7 []) rfl (by decide) hsend
  obtain ⟨next, hconfirm⟩ := Replay.reaches_confirm hwrite
  have hflush : ledger.setting.Reaches ((Replay.flush readerClient).run, starQueued) _ :=
    Replay.reaches_flushBatches starQueued
  have hbatches : Outbox.batches (Outbox.pending starQueued.db) = [Replay.starBatch] :=
    Replay.batches_starredDb
  rw [hbatches] at hflush
  have hrun := (hflush.trans hconfirm).tail (.call (Outside.act_transact_ok _ _))
  have hreach : Reachable starQueued.db := .commit _ .fresh
  have hall := replay_converges hreach rfl (.inr ⟨_, _, _, _, .start, .flush readerClient, hrun⟩)
  exact ⟨_, rfl, rfl, hall.2.2.1 7 .starred (.inr ⟨rfl, rfl⟩)⟩

end Star

end Sync

end Vuo
