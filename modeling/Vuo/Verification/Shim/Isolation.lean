import Vuo.Model.Shim.Configure
import Vuo.Verification.Calls
import Vuo.Verification.Mirror.Bookkeeping
import Vuo.Verification.Pass
import Vuo.Verification.Replay.Batches
import Vuo.Verification.Replay.Drops
import Vuo.Verification.Replay.Ledger
import Vuo.Verification.Replay.Rules

/-!
# One database, several servers

The outbox and the bookkeeping of a pass are in a database that every account
uses. Each intent is noted with the server that was configured when it was
queued, each entry of the bookkeeping with the server it was recorded from.
-/

namespace Vuo.Shim

open Foundation Program Store MinifluxClient

/-! ## Where things come from -/

/-- What a pass leaves for the next: the cursor, the stamp of the last deletion
listing, the version of the server. -/
inductive Record
  | cursor
  | stamp
  | version
  deriving DecidableEq

/-- What is recorded, if anything is. -/
def Record.value (x : Record) (state : SyncState) : Option (ℤ ⊕ String) :=
  match x with
  | .cursor => state.cursorChangedAfter.map .inl
  | .stamp => state.lastFullReconcileAt.map .inl
  | .version => state.serverVersion.map .inr

/-- The server of the account last configured, the worker, and the servers that
intents and records are of. -/
structure Provenance extends Serving where
  configured : Option Url
  queuedBy : EntryId → DesiredValue → Option Url
  recordedBy : Record → Option Url

namespace Provenance

def start : Provenance where
  toServing := .start
  configured := none
  queuedBy _ _ := none
  recordedBy _ := none

/-- The account is configured for the reader before the worker has it. -/
def sendAccount (account : WorkerAccount) (o : Provenance) : Provenance :=
  { o with toServing := o.toServing.send account, configured := some account.server }

/-- The process ends; what is in the database stays. -/
def stop (o : Provenance) : Provenance :=
  { o with toServing := .start }

def queueAll (intents : List (EntryId × DesiredValue)) (o : Provenance) : Provenance :=
  { o with
    queuedBy := fun id v => if (id, v) ∈ intents then o.configured else o.queuedBy id v }

/-- What a pass records anew is of the server it asked. -/
def after (o : Provenance) (s : Statement) (db : Db) : Provenance :=
  match s with
  | .setSyncState state =>
      { o with
        recordedBy := fun x =>
          if x.value state = x.value db.syncState then o.recordedBy x
          else o.client.map fun client => client.transport.origin }
  | _ => o

def commit : Transaction → Db → Provenance → Provenance
  | [], _, o => o
  | s :: body, db, o => commit body (s.exec db) (o.after s db)

end Provenance

/-- Any answer may come. Meanwhile the reader queues intents, and may configure an
account, where `may` allows it. -/
def provenance (may : World Provenance → Url → Prop) : Outside Provenance where
  send _ _ o _ o' := o' = o
  now o _ o' := o' = o
  commit := Provenance.commit
  env w w' :=
    (∃ s : Statement, s.ByReader ∧ w'.db = s.exec w.db ∧
      w'.outside = w.outside.queueAll (s.queues w.db)) ∨
    w'.db = w.db ∧ ∃ account : WorkerAccount, may w account.server ∧
      w'.outside = w.outside.sendAccount account

/-! ## Runs -/

/-- Conditions on a run: which server may be configured while the worker is at work,
and while it is not, and when it may begin. -/
structure Rules where
  busy : World Provenance → Url → Prop
  idle : World Provenance → Url → Prop
  begin : World Provenance → Prop

section Runs

variable [UrlLibrary] [Endpoints] [IconDecoder]

/-- The worlds in which a worker that keeps the rules is idle, from a fresh install
on. -/
inductive Run (R : Rules) : World Provenance → Prop
  | start (cells : ℕ → Option ServerVersion) : Run R ⟨Db.empty, cells, .start⟩
  | pages {w w' : World Provenance} (h : Run R w) (henv : (provenance R.idle).env w w') :
      Run R w'
  | configure {w : World Provenance} (h : Run R w) (opened built : Bool) (cell : ℕ)
      (hcell : w.cells cell = none) :
      Run R (w.setOutside
        { w.outside with toServing := w.outside.toServing.configure opened built cell })
  | work {w w' : World Provenance} {client : MinifluxClient} {options : SyncOptions}
      {command : Command} {result : Except Error Bool} (h : Run R w)
      (hclient : w.outside.client = some client) (hbegin : R.begin w)
      (hrun : (provenance R.busy).setting.Reaches
        ((perform client options command).run, w) (.done result, w')) : Run R w'
  | cut {w w' : World Provenance} {client : MinifluxClient} {options : SyncOptions}
      {command : Command} {p : Program Op Op.Ans (Except Error Bool)} (h : Run R w)
      (hclient : w.outside.client = some client) (hbegin : R.begin w)
      (hrun : (provenance R.busy).setting.Reaches
        ((perform client options command).run, w) (p, w'))
      (cells : ℕ → Option ServerVersion) : Run R ⟨w'.db, cells, w'.outside.stop⟩
  | stop {w : World Provenance} (h : Run R w) (cells : ℕ → Option ServerVersion) :
      Run R ⟨w.db, cells, w.outside.stop⟩

/-- A worker at work for a client: what is left of it, and the world. -/
def Working (R : Rules) (client : MinifluxClient) (p : Program Op Op.Ans (Except Error Bool))
    (w' : World Provenance) : Prop :=
  ∃ w, Run R w ∧ w.outside.client = some client ∧ R.begin w ∧
    ∃ options command, (provenance R.busy).setting.Reaches
      ((perform client options command).run, w) (p, w')

end Runs

/-- Nothing is queued and nothing is recorded. -/
structure Blank (db : Db) : Prop where
  outbox : ∀ id f, Outbox.pendingFor id f db = none
  records : ∀ x : Record, x.value db.syncState = none

/-- No account is configured yet, or one of this server. -/
def SameServer (w : World Provenance) (server : Url) : Prop :=
  w.outside.configured = none ∨ w.outside.configured = some server

/-- Anything goes. -/
def unruly : Rules where
  busy _ _ := True
  idle _ _ := True
  begin _ := True

/-- Another server is configured only over a blank mirror while the worker is idle, and
no work is begun until the worker has taken it. -/
def separate : Rules where
  busy := SameServer
  idle w server := SameServer w server ∨ Blank w.db
  begin w := ∀ client, w.outside.client = some client →
    w.outside.configured = some client.transport.origin

/-! ## Isolation -/

/-- The step of a worker that serves this client: a write carries no intent of another
server, and what a pass goes by was not recorded from another. -/
def IsolatedOp (client : MinifluxClient) (op : Op) (w : World Provenance) : Prop :=
  match op with
  | .send transport (.updateEntries body) => ∀ id ∈ body.entryIds, ∀ f v,
      Ledger.sets body f = some v → ∀ server, w.outside.queuedBy id v = some server →
        server = transport.origin
  | .query .syncState => ∀ x : Record, x.value w.db.syncState ≠ none →
      ∀ server, w.outside.recordedBy x = some server → server = client.transport.origin
  | _ => True

/-- ... the next step. -/
def Isolated (client : MinifluxClient) (p : Program Op Op.Ans (Except Error Bool))
    (w : World Provenance) : Prop :=
  match p with
  | .done _ => True
  | .call op _ => IsolatedOp client op w

/-! ## What a statement does to the outbox -/

/-- The reader's statements that queue intents. -/
def Queues : Statement → Prop
  | .queue .. | .queueMarkFeedRead .. | .queueMarkCategoryRead .. => True
  | _ => False

/-- No other statement puts an intent into the outbox. -/
theorem intents_exec {s : Statement} (hs : ¬Queues s) {db : Db} {id : EntryId} {f : OutboxField}
    {v : DesiredValue} (h : Outbox.pendingFor id f (s.exec db) = some v) :
    Outbox.pendingFor id f db = some v := by
  have hkeep : bookkeeping s = true → Outbox.pendingFor id f db = some v := fun hb =>
    (sameView_of_bookkeeping hb db).forgets.intents id f v h
  cases s with
  | queue id v now => exact absurd trivial hs
  | queueMarkFeedRead feedId now => exact absurd trivial hs
  | queueMarkCategoryRead categoryId now => exact absurd trivial hs
  | confirm b => exact (forgets_confirm b db).intents id f v h
  | discard b => exact (forgets_confirm b db).intents id f v h
  | upsertEntry e generation arrival => exact h
  | deleteFeed feedId => exact (forgets_deleteFeed feedId db).intents id f v h
  | deleteEntry entryId => exact (forgets_deleteEntry entryId db).intents id f v h
  | pruneEntries cutoff => exact h
  | _ => exact hkeep rfl

theorem pendingFor_queueRead {ids : List EntryId} {now : ℤ} {db : Db} {id : EntryId}
    {f : OutboxField} {v : DesiredValue}
    (h : Outbox.pendingFor id f (Outbox.queueRead ids now db) = some v) :
    (id, v) ∈ ids.map (fun id => (id, DesiredValue.status .read)) ∨
      Outbox.pendingFor id f db = some v := by
  induction ids generalizing db with
  | nil => exact .inr h
  | cons i ids ih =>
      rcases ih h with hlisted | hqueued
      · exact .inl (List.mem_cons_of_mem _ hlisted)
      · rw [pendingFor_queue] at hqueued
        split at hqueued
        · next hk =>
            obtain rfl := Option.some.inj hqueued
            exact .inl (by simp [hk.1])
        · exact .inr hqueued

/-- An intent in the outbox was there before, or was queued by the statement. -/
theorem intents_byReader {s : Statement} {db : Db} {id : EntryId} {f : OutboxField}
    {v : DesiredValue} (h : Outbox.pendingFor id f (s.exec db) = some v) :
    (id, v) ∈ s.queues db ∨ Outbox.pendingFor id f db = some v := by
  by_cases hs : Queues s
  · cases s with
    | queue entryId value now =>
        have hqueued : Outbox.pendingFor id f (Outbox.queue entryId value now db) = some v := h
        rw [pendingFor_queue] at hqueued
        split at hqueued
        · next hk =>
            obtain rfl := Option.some.inj hqueued
            exact .inl (by simp [Statement.queues, hk.1])
        · exact .inr hqueued
    | queueMarkFeedRead feedId now => exact pendingFor_queueRead h
    | queueMarkCategoryRead categoryId now => exact pendingFor_queueRead h
    | _ => exact hs.elim
  · exact .inr (intents_exec hs h)

/-- What the reader does leaves the bookkeeping alone. -/
theorem syncState_byReader {s : Statement} (hs : s.ByReader) (db : Db) :
    (s.exec db).syncState = db.syncState := by
  refine syncState_exec ?_ db
  cases s <;> trivial

/-! ## The servers apart -/

/-- Of the server configured, if it is of any. -/
def Own (o : Provenance) (tag : Option Url) : Prop :=
  ∀ server, tag = some server → o.configured = some server

/-- What is queued and what is recorded is of the server configured. -/
structure Apart (w : World Provenance) : Prop where
  outbox : ∀ id f v, Outbox.pendingFor id f w.db = some v →
    Own w.outside (w.outside.queuedBy id v)
  records : ∀ x : Record, x.value w.db.syncState ≠ none → Own w.outside (w.outside.recordedBy x)

/-- ... while the worker serves a client of it. -/
structure Serves (client : MinifluxClient) (w : World Provenance) : Prop extends Apart w where
  serving : w.outside.client = some client
  configured : w.outside.configured = some client.transport.origin

variable {w w' : World Provenance} {client : MinifluxClient}

theorem own_queueAll {o : Provenance} {id : EntryId} {v : DesiredValue}
    (intents : List (EntryId × DesiredValue)) (h : (id, v) ∈ intents ∨ Own o (o.queuedBy id v)) :
    Own (o.queueAll intents) ((o.queueAll intents).queuedBy id v) := by
  intro server hserver
  simp only [Provenance.queueAll] at hserver
  by_cases hqueued : (id, v) ∈ intents
  · rw [if_pos hqueued] at hserver
    exact hserver
  · rw [if_neg hqueued] at hserver
    exact h.resolve_left hqueued server hserver

theorem apart_byReader {s : Statement} (hs : s.ByReader) (h : Apart w)
    (hdb : w'.db = s.exec w.db) (houtside : w'.outside = w.outside.queueAll (s.queues w.db)) :
    Apart w' := by
  constructor
  · intro id f v hv
    rw [hdb] at hv
    rw [houtside]
    exact own_queueAll _ ((intents_byReader hv).imp_right (h.outbox id f v))
  · intro x hx
    rw [hdb, syncState_byReader hs] at hx
    rw [houtside]
    exact h.records x hx

theorem apart_sendAccount {account : WorkerAccount} (h : Apart w)
    (hmay : SameServer w account.server ∨ Blank w.db) (hdb : w'.db = w.db)
    (houtside : w'.outside = w.outside.sendAccount account) : Apart w' := by
  have hown : ∀ {tag : Option Url}, ¬Blank w.db → Own w.outside tag → Own w'.outside tag := by
    intro tag hblank htag server hserver
    rw [houtside]
    have hsame := hmay.resolve_right hblank
    rw [SameServer, htag server hserver] at hsame
    exact (hsame.resolve_left (Option.some_ne_none _)).symm ▸ rfl
  constructor
  · intro id f v hv
    rw [hdb] at hv
    have hblank : ¬Blank w.db := fun hb => by
      rw [hb.outbox id f] at hv
      cases hv
    have htag := hown hblank (h.outbox id f v hv)
    rw [houtside] at htag ⊢
    exact htag
  · intro x hx
    rw [hdb] at hx
    have hblank : ¬Blank w.db := fun hb => hx (hb.records x)
    have htag := hown hblank (h.records x hx)
    rw [houtside] at htag ⊢
    exact htag

theorem stable_serves : (provenance SameServer).setting.Stable (Serves client) := by
  rintro w w' (⟨s, hs, hdb, houtside⟩ | ⟨hdb, account, hmay, houtside⟩) h
  · refine ⟨apart_byReader hs h.toApart hdb houtside, ?_, ?_⟩
    · rw [houtside]
      exact h.serving
    · rw [houtside]
      exact h.configured
  · refine ⟨apart_sendAccount h.toApart (.inl hmay) hdb houtside, ?_, ?_⟩
    · rw [houtside]
      exact h.serving
    · rw [SameServer, h.configured] at hmay
      rw [houtside]
      exact (hmay.resolve_left (Option.some_ne_none _)).symm ▸ rfl

/-! ## The steps of the worker -/

/-- Everything but writing an entry's state, with transactions that queue nothing. -/
def Plain : Op → Prop
  | .transact body => ∀ s ∈ body, ¬Queues s
  | .send _ (.updateEntries _) => False
  | _ => True

theorem plain_of_reads {op : Op} (h : op.Reads fun s => ¬Queues s) : Plain op := by
  cases op with
  | send t request => cases request <;> first | exact h.elim | trivial
  | transact body => exact h
  | _ => trivial

theorem plain_calls {α : Type} {p : Action α}
    (h : CallsE (Op.Reads fun s => ¬Queues s) p) : CallsE Plain p :=
  Calls.mono (fun _ hop => plain_of_reads hop) h

theorem after_of_keepsState {s : Statement} (hs : s.KeepsState) (o : Provenance) (db : Db) :
    o.after s db = o := by
  cases s <;> first | rfl | exact hs.elim

/-- No statement of a transaction says who queued what, or which server is served. -/
theorem commit_keeps (body : Transaction) (db : Db) (o : Provenance) :
    (o.commit body db).queuedBy = o.queuedBy ∧ (o.commit body db).configured = o.configured ∧
      (o.commit body db).client = o.client := by
  induction body generalizing db o with
  | nil => exact ⟨rfl, rfl, rfl⟩
  | cons s body ih =>
      have hafter : (o.after s db).queuedBy = o.queuedBy ∧
          (o.after s db).configured = o.configured ∧ (o.after s db).client = o.client := by
        cases s <;> exact ⟨rfl, rfl, rfl⟩
      obtain ⟨hq, hc, hs⟩ := ih (s.exec db) (o.after s db)
      exact ⟨hq.trans hafter.1, hc.trans hafter.2.1, hs.trans hafter.2.2⟩

variable {may : World Provenance → Url → Prop}

theorem Serves.setSyncState (h : Serves client w) (state : SyncState) :
    Serves client ((provenance may).commitTo [.setSyncState state] w) where
  outbox := h.outbox
  records := by
    intro x (hx : x.value state ≠ none) server hserver
    have htag : (if x.value state = x.value w.db.syncState then w.outside.recordedBy x
        else w.outside.client.map fun client => client.transport.origin) = some server := hserver
    split at htag
    · next hsame => exact h.records x (hsame ▸ hx) server htag
    · rw [h.serving] at htag
      exact h.configured.trans htag
  serving := h.serving
  configured := h.configured

theorem Serves.exec (h : Serves client w) {s : Statement} (hs : ¬Queues s) :
    Serves client ((provenance may).commitTo [s] w) := by
  have hkeep (hstate : s.KeepsState) : Serves client ((provenance may).commitTo [s] w) := by
    have houtside : ((provenance may).commitTo [s] w).outside = w.outside :=
      after_of_keepsState hstate w.outside w.db
    refine ⟨⟨?_, ?_⟩, ?_, ?_⟩
    · intro id f v hv
      rw [houtside]
      exact h.outbox id f v (intents_exec hs hv)
    · intro x hx
      have hsame : ((provenance may).commitTo [s] w).db.syncState = w.db.syncState :=
        syncState_exec hstate w.db
      rw [hsame] at hx
      rw [houtside]
      exact h.records x hx
    · rw [houtside]
      exact h.serving
    · rw [houtside]
      exact h.configured
  cases s with
  | setSyncState state => exact h.setSyncState state
  | _ => exact hkeep trivial

theorem Serves.commit {body : Transaction} (hbody : ∀ s ∈ body, ¬Queues s)
    (h : Serves client w) : Serves client ((provenance may).commitTo body w) := by
  induction body generalizing w with
  | nil => exact h
  | cons s body ih =>
      have hfirst : Serves client ((provenance may).commitTo [s] w) :=
        h.exec (hbody s List.mem_cons_self)
      exact ih (fun t ht => hbody t (List.mem_cons_of_mem s ht)) hfirst

/-- What a step does to the provenance, apart from the bookkeeping. -/
theorem kept_of_act {op : Op} {r : op.Ans} (h : (provenance may).setting.act op w r w') :
    w'.outside.queuedBy = w.outside.queuedBy ∧
      w'.outside.configured = w.outside.configured := by
  cases op with
  | query q =>
      obtain ⟨rfl, -⟩ := Outside.act_query h
      exact ⟨rfl, rfl⟩
  | transact body =>
      obtain ⟨-, rfl⟩ | ⟨-, rfl⟩ := Outside.act_transact h
      · obtain ⟨hq, hc, -⟩ := commit_keeps body w.db w.outside
        exact ⟨hq, hc⟩
      · exact ⟨rfl, rfl⟩
  | send t request =>
      obtain ⟨o, rfl, rfl⟩ := Outside.act_send h
      exact ⟨rfl, rfl⟩
  | now =>
      obtain ⟨-, rfl, rfl⟩ := h
      exact ⟨rfl, rfl⟩
  | knownVersion cell =>
      obtain ⟨-, rfl⟩ := h
      exact ⟨rfl, rfl⟩
  | rememberVersion cell version =>
      cases h
      exact ⟨rfl, rfl⟩

/-- A step goes by nothing of another server, and leaves nothing of one. -/
def Within (client : MinifluxClient) : Setting.Guarantee Op Op.Ans (World Provenance) :=
  fun op w _ w' => IsolatedOp client op w ∧ Serves client w'

theorem Serves.isolated_syncState (h : Serves client w) :
    IsolatedOp client (.query .syncState) w :=
  fun x hx server hserver =>
    Option.some.inj ((h.records x hx server hserver).symm.trans h.configured)

theorem Serves.act (h : Serves client w) {op : Op} (hop : Plain op) {r : op.Ans}
    (hact : (provenance may).setting.act op w r w') : Within client op w r w' := by
  cases op with
  | query q =>
      obtain ⟨rfl, -⟩ := Outside.act_query hact
      refine ⟨?_, h⟩
      cases q with
      | syncState => exact h.isolated_syncState
      | _ => trivial
  | transact body =>
      obtain ⟨-, rfl⟩ | ⟨-, rfl⟩ := Outside.act_transact hact
      · exact ⟨trivial, h.commit hop⟩
      · exact ⟨trivial, h⟩
  | send t request =>
      obtain ⟨o, rfl, rfl⟩ := Outside.act_send hact
      refine ⟨?_, h⟩
      cases request <;> first | exact hop.elim | trivial
  | now =>
      obtain ⟨-, rfl, rfl⟩ := hact
      exact ⟨trivial, h⟩
  | knownVersion cell =>
      obtain ⟨-, rfl⟩ := hact
      exact ⟨trivial, h⟩
  | rememberVersion cell version =>
      cases hact
      exact ⟨trivial, ⟨⟨h.outbox, h.records⟩, h.serving, h.configured⟩⟩

/-- The batches still to send are of intents of the server they go to. -/
structure Sending (client : MinifluxClient) (bs : List Batch) (w : World Provenance) : Prop where
  serves : Serves client w
  own : ∀ b ∈ bs, ∀ id ∈ b.entryIds, Own w.outside (w.outside.queuedBy id b.value)

theorem stable_sending (bs : List Batch) :
    (provenance SameServer).setting.Stable (Sending client bs) := by
  intro w w' henv h
  have hserves := stable_serves w w' henv h.serves
  refine ⟨hserves, ?_⟩
  intro b hb id hid
  have hown := h.own b hb id hid
  rcases henv with ⟨s, -, -, houtside⟩ | ⟨-, account, -, houtside⟩
  · rw [houtside]
    exact own_queueAll _ (.inr hown)
  · intro server hserver
    rw [houtside] at hserver
    have horigin := (hown server hserver).symm.trans h.serves.configured
    exact hserves.configured.trans horigin.symm

theorem Sending.of_act {bs : List Batch} (h : Sending client bs w) {op : Op} (hop : Plain op)
    {r : op.Ans} (hact : (provenance may).setting.act op w r w') :
    Within client op w r w' ∧ Sending client bs w' := by
  have hwithin := h.serves.act hop hact
  obtain ⟨hqueued, hconfigured⟩ := kept_of_act hact
  refine ⟨hwithin, hwithin.2, ?_⟩
  intro b hb id hid server hserver
  rw [hqueued] at hserver
  rw [hconfigured]
  exact h.own b hb id hid server hserver

theorem Sending.tail {b : Batch} {bs : List Batch} (h : Sending client (b :: bs) w) :
    Sending client bs w :=
  ⟨h.serves, fun b' hb' => h.own b' (List.mem_cons_of_mem b hb')⟩

theorem sending_batches (h : Serves client w) :
    Sending client (Outbox.batches (Outbox.pending w.db)) w := by
  refine ⟨h, ?_⟩
  intro b hb id hid
  obtain ⟨p, hp, rfl, hvalue⟩ := Outbox.mem_batches hb hid
  rw [← hvalue]
  exact h.outbox _ _ _ (Outbox.pendingFor_of_mem_pending hp)

theorem wpe_plain {α : Type} {p : Action α} (hp : CallsE Plain p) (hw : Serves client w) :
    (provenance SameServer).setting.wpe (Within client) p (fun _ => Serves client)
      (fun _ => Serves client) w := by
  refine Setting.wpe_of_calls stable_serves ?_ hp hw
  intro op hop w r w' hact h
  have hwithin := h.act hop hact
  exact ⟨hwithin, hwithin.2⟩

section Steps

variable [Endpoints]

theorem wpe_sendBatch {b : Batch} {bs : List Batch} (hw : Sending client (b :: bs) w) :
    (provenance SameServer).setting.wpe (Within client)
      (client.updateEntries b.entryIds (Replay.mutation b.value))
      (fun _ => Sending client (b :: bs)) (fun _ => Sending client (b :: bs)) w := by
  refine Replay.wpe_updateEntries (stable_sending _) (stable_sending _)
    (fun _ => stable_sending _) ?_ (fun _ h => h) (fun _ _ h => h) ?_ ?_ hw
  · intro op hop w r w' hact h
    have hplain : Plain op := by
      cases op <;> first | exact hop.elim | trivial
    exact h.of_act hplain hact
  · rintro w h r o rfl
    refine ⟨⟨trivial, h.serves⟩, ?_⟩
    cases readResult client .version r <;> exact h
  · rintro w h r o rfl
    refine ⟨⟨?_, h.serves⟩, ?_⟩
    · intro id hid f v hv server hserver
      have hset : (if f = b.value.field then some b.value else none) = some v :=
        (Ledger.sets_updateRequest b.entryIds b.value f).symm.trans hv
      have hvalue : b.value = v := by
        split at hset
        · exact Option.some.inj hset
        · cases hset
      subst hvalue
      have hown := h.own b List.mem_cons_self id hid server hserver
      exact Option.some.inj (hown.symm.trans h.serves.configured)
    · cases writeResult client (Replay.batchRequest b) r <;> exact h

theorem wpe_flush (hw : Serves client w) :
    (provenance SameServer).setting.wpe (Within client) (Replay.flush client)
      (fun _ => Serves client) (fun _ => Serves client) w := by
  have hquery (w : World Provenance) (r : Except Error (Query.pending).Answer)
      (h : Serves client w) : Within client (.query .pending) w r w :=
    ⟨trivial, h⟩
  refine Setting.wpe_bind (fun _ => stable_serves) (Outside.wpe_query stable_serves hw
    (fun _ => Setting.wpe_stable _) (fun _ => stable_serves) ?_ (fun _ _ h => h) hquery)
  intro w₁ h₁
  have hcommit {b : Batch} {bs : List Batch} {w : World Provenance} {s : Statement}
      (hs : ¬Queues s) (h : Sending client (b :: bs) w) :
      Within client (.transact [s]) w (.ok (Transaction.run [s] w.db).1)
          ((provenance SameServer).commitTo [s] w) ∧
        Sending client bs ((provenance SameServer).commitTo [s] w) := by
    have hplain : Plain (.transact [s]) := by simpa [Plain] using hs
    exact h.tail.of_act hplain (Outside.act_transact_ok [s] w)
  refine Replay.wpe_flushBatches (I := Sending client) (A := fun b bs => Sending client (b :: bs))
    (F := fun _ b bs => Sending client (b :: bs)) (fun _ _ => stable_sending _)
    (fun _ _ _ => stable_sending _) stable_serves (fun b bs w h => wpe_sendBatch h)
    ?_ ?_ ?_ ?_ ?_ (fun _ _ h => h.serves) _ _ (sending_batches h₁)
  · exact fun b bs w h => hcommit id h
  · exact fun e b bs w h _ => hcommit id h
  · exact fun e b bs w h _ => hcommit id h
  · exact fun b bs body m w h => ⟨⟨trivial, h.serves⟩, h.serves⟩
  · exact fun e b bs body m w h => ⟨⟨trivial, h.serves⟩, h.serves⟩

variable [UrlLibrary] [IconDecoder]

/-- Every step of a pass but its replay is plain. -/
theorem passRules (client : MinifluxClient) (options : SyncOptions) :
    Sync.PassRules (provenance SameServer) (Within client) client options (Serves client)
      (fun _ => Serves client) (fun _ _ => Serves client) (fun _ _ _ => Serves client)
      (fun _ => Serves client) (fun _ => Serves client) where
  stable_start := stable_serves
  stable_read := fun _ => stable_serves
  stable_running := fun _ _ => stable_serves
  stable_pulled := fun _ _ _ => stable_serves
  stable_end := fun _ => stable_serves
  stable_error := fun _ => stable_serves
  read := fun _ h => ⟨fun _ => ⟨h.isolated_syncState, h⟩, h, fun _ => h⟩
  now := by
    rintro state w h t o rfl
    exact ⟨⟨trivial, h⟩, h⟩
  replay := by
    intro state now w h
    unfold Sync.replayStep
    split
    · exact Setting.wpe_pure stable_serves h
    · exact wpe_flush h
  version := fun state now ttl w h =>
    wpe_plain (plain_calls (Sync.calls_resolveVersion client state now ttl)) h
  taxonomy := fun _ _ generation w h =>
    wpe_plain (plain_calls (reads_of_fetches (Pull.fetches_taxonomy client generation
      (fun _ _ => id) (fun _ _ => id) fun _ => id))) h
  entries := fun state _ generation w h =>
    wpe_plain (plain_calls (reads_of_fetches (Pull.fetches_entries client _ generation
      (fun _ _ _ => id) fun _ => id))) h
  reconcile := fun state now _ version interval w h =>
    wpe_plain (plain_calls (reads_of_fetches
      (Sync.fetches_reconcileStep client state version now interval fun _ => id))) h
  icons := fun _ _ _ limit w h =>
    wpe_plain (plain_calls (reads_of_fetches (Sync.fetches_fetchIcons client limit
      (fun _ => id) (fun _ => id) fun _ => id))) h
  prune := fun _ now _ w h =>
    wpe_plain (plain_calls (reads_of_fetches
      (Sync.fetches_pruneStep options now fun _ => id))) h
  commit := by
    intro state now report version checkedAt w h
    have hkept : Serves client ((provenance SameServer).commitTo
        [.setSyncState (Sync.nextState state now report version checkedAt)] w) :=
      h.setSyncState _
    exact ⟨⟨trivial, hkept⟩, hkept⟩
  commit_fails := fun _ _ _ _ _ _ h => ⟨⟨trivial, h⟩, h⟩
  refused := fun _ _ _ _ h => h

/-! ## The commands -/

omit [UrlLibrary] [IconDecoder] in
theorem plain_getJson {request : Request} (h : Plain (.send client.transport request)) :
    CallsE Plain (client.getJson request) :=
  CallsE.bind ⟨h, fun _ => trivial⟩ fun _ => trivial

omit [UrlLibrary] [IconDecoder] in
theorem plain_sendForStatus {request : Request} (h : Plain (.send client.transport request)) :
    CallsE Plain (client.sendForStatus request) :=
  CallsE.bind ⟨h, fun _ => trivial⟩ fun _ => trivial

omit [UrlLibrary] [Endpoints] [IconDecoder] in
theorem plain_withTx {s : Statement} (hs : ¬Queues s) : CallsE Plain (Action.withTx [s]) :=
  plain_calls (Action.calls_withTx (by simpa using hs))

omit [UrlLibrary] [Endpoints] [IconDecoder] in
theorem plain_thenWrite {request : Action Unit} {s : Statement} (hrequest : CallsE Plain request)
    (hs : ¬Queues s) : CallsE Plain (thenWrite request [s]) := by
  refine hrequest.attempt.bind ?_
  rintro (e | u)
  · exact .pure _
  · exact (plain_withTx hs).attempt.bind fun _ => .pure _

omit [UrlLibrary] [IconDecoder] in
theorem plain_fetchOriginal (entryId : EntryId) :
    CallsE Plain (fetchOriginal client entryId) := by
  have hask : CallsE Plain (client.fetchOriginalContent entryId) :=
    plain_getJson (by exact trivial)
  refine hask.attempt.bind ?_
  rintro (e | content)
  · exact .pure _
  · refine (plain_calls (Action.calls_query _)).attempt.bind fun previous => ?_
    split
    · exact (plain_withTx id).attempt.bind fun _ => .pure _
    · exact .pure _

theorem wpe_command (options : SyncOptions) (command : Command) (hw : Serves client w) :
    (provenance SameServer).setting.wpe (Within client) (perform client options command)
      (fun _ => Serves client) (fun _ => Serves client) w := by
  have hstable (_ : Error) : (provenance SameServer).setting.Stable (Serves client) :=
    stable_serves
  have hthen {α : Type} {p : Action α} {f : Except Error α → Bool} {w : World Provenance}
      (hp : (provenance SameServer).setting.wpe (Within client) p (fun _ => Serves client)
        (fun _ => Serves client) w) :
      (provenance SameServer).setting.wpe (Within client)
        (do return f (← Action.attempt p)) (fun _ => Serves client) (fun _ => Serves client) w := by
    refine Setting.wpe_bind hstable (Setting.wpe_attempt (Setting.wpe_mono ?_ ?_ hp))
    · exact fun _ _ h => Setting.wpe_pure stable_serves h
    · exact fun _ _ h => Setting.wpe_pure stable_serves h
  have hsync {w : World Provenance} (h : Serves client w) :
      (provenance SameServer).setting.wpe (Within client) (Sync.sync client options)
        (fun _ => Serves client) (fun _ => Serves client) w :=
    Sync.wpe_sync (passRules client options) h
  cases command with
  | sync => exact hthen (hsync hw)
  | flushOutbox => exact hthen (wpe_flush hw)
  | subscribe feedUrl =>
      have hcreate : CallsE Plain (client.createFeed feedUrl none) :=
        plain_getJson (by exact trivial)
      refine Setting.wpe_bind hstable (Setting.wpe_attempt
        (Setting.wpe_mono ?_ ?_ (wpe_plain hcreate hw)))
      · exact fun _ _ h => hthen (f := fun _ => true) (hsync h)
      · exact fun _ _ h => Setting.wpe_pure stable_serves h
  | unsubscribe feedId =>
      exact wpe_plain (plain_thenWrite (plain_sendForStatus trivial) id) hw
  | updateFeed feedId update =>
      exact wpe_plain (plain_thenWrite (plain_sendForStatus trivial) id) hw
  | fetchOriginal id => exact wpe_plain (plain_fetchOriginal id) hw

/-! ## Runs of a worker that keeps the servers apart -/

omit [UrlLibrary] [Endpoints] [IconDecoder] in
theorem Apart.of_outside (h : Apart w) (hdb : w'.db = w.db)
    (hqueued : w'.outside.queuedBy = w.outside.queuedBy)
    (hrecorded : w'.outside.recordedBy = w.outside.recordedBy)
    (hconfigured : w'.outside.configured = w.outside.configured) : Apart w' := by
  constructor
  · intro id f v hv server hserver
    rw [hdb] at hv
    rw [hqueued] at hserver
    rw [hconfigured]
    exact h.outbox id f v hv server hserver
  · intro x hx server hserver
    rw [hdb] at hx
    rw [hrecorded] at hserver
    rw [hconfigured]
    exact h.records x hx server hserver

theorem Apart.work {options : SyncOptions} {command : Command}
    {p : Program Op Op.Ans (Except Error Bool)} (h : Apart w)
    (hclient : w.outside.client = some client) (hbegin : separate.begin w)
    (hrun : (provenance separate.busy).setting.Reaches
      ((perform client options command).run, w) (p, w')) : Apart w' := by
  have hserves : Serves client w := ⟨h, hclient, hbegin client hclient⟩
  have hkept : Serves client w' := Setting.invariant_of_wp (wpe_command options command hserves)
    stable_serves (fun _ _ _ _ hwithin => hwithin.2) hserves hrun
  exact hkept.toApart

theorem Run.apart (h : Run separate w) : Apart w := by
  induction h with
  | start cells => exact ⟨fun _ _ _ _ => nofun, fun _ _ => nofun⟩
  | pages h henv ih =>
      rcases henv with ⟨s, hs, hdb, houtside⟩ | ⟨hdb, account, hmay, houtside⟩
      · exact apart_byReader hs ih hdb houtside
      · exact apart_sendAccount ih hmay hdb houtside
  | configure h opened built cell hcell ih => exact ih.of_outside rfl rfl rfl rfl
  | work h hclient hbegin hrun ih => exact ih.work hclient hbegin hrun
  | cut h hclient hbegin hrun cells ih =>
      exact (ih.work hclient hbegin hrun).of_outside rfl rfl rfl rfl
  | stop h cells ih => exact ih.of_outside rfl rfl rfl rfl

/-- Where another server is configured only over a blank mirror, and nothing is begun
for the one before, no intent goes to a server it was not queued for, and no pass goes
by what was recorded from another. -/
theorem isolated_of_separate {p : Program Op Op.Ans (Except Error Bool)}
    (h : Working separate client p w') : Isolated client p w' := by
  obtain ⟨w, hrun, hclient, hbegin, options, command, hreach⟩ := h
  have hserves : Serves client w := ⟨hrun.apart, hclient, hbegin client hclient⟩
  have hleft := Setting.wp_reaches (wpe_command options command hserves) hreach
  cases p with
  | done result => trivial
  | call op next =>
      cases op with
      | query q => exact (hleft w' (.refl w') _ _ (Outside.act_query_ok q w')).1.1
      | send t request =>
          have hact : (provenance SameServer).setting.act (.send t request) w'
              (.error .cancelled) (w'.setOutside w'.outside) :=
            Outside.act_send_of rfl
          exact (hleft w' (.refl w') _ _ hact).1.1
      | _ => trivial

end Steps

/-! ### Two accounts -/

section TwoAccounts

open scoped Vuo.Reader

def readerAccount : WorkerAccount where
  server := readerTransport.origin
  token := readerTransport.token

def otherAccount : WorkerAccount where
  server :=
    { scheme := "https"
      hostStr := some "other.example"
      portOrKnownDefault := some 443
      href := "https://other.example/" }
  token := "other"

/-- A server without feeds that hides its version may be any. -/
theorem bare_provenance (may : World Provenance → Url → Prop) (client : MinifluxClient)
    (time : DateTime) : Sync.Bare (provenance may) client time where
  now := fun _ => rfl
  version := fun _ => ⟨.cancelled, rfl⟩
  categories := fun _ => rfl
  feeds := fun _ => rfl

/-- A first pass that left a cursor, and a star queued after it, all of the reader's
server. -/
structure Starred (w : World Provenance) : Prop where
  serving : w.outside.toServing = ⟨[], some readerClient⟩
  configured : w.outside.configured = some readerTransport.origin
  cells : w.cells = fun _ => none
  batches : Outbox.batches (Outbox.pending w.db) = [Replay.starBatch]
  queuedBy : w.outside.queuedBy 7 (.starred true) = some readerTransport.origin
  cursor : Record.cursor.value w.db.syncState ≠ none
  recordedBy : w.outside.recordedBy .cursor = some readerTransport.origin

/-- The reader's account on a fresh install, taken by the worker. -/
def firstServed : World Provenance :=
  ⟨Db.empty, fun _ => none,
    { Provenance.start with
      client := some readerClient
      configured := some readerTransport.origin }⟩

theorem run_firstServed {R : Rules}
    (hidle : ∀ w : World Provenance, SameServer w readerAccount.server →
      R.idle w readerAccount.server) : Run R firstServed := by
  have hsent : Run R ⟨Db.empty, fun _ => none, Provenance.start.sendAccount readerAccount⟩ :=
    .pages (.start fun _ => none) (.inr ⟨rfl, readerAccount, hidle _ (.inl rfl), rfl⟩)
  exact .configure hsent true true 0 rfl

theorem begin_firstServed : separate.begin firstServed := by
  intro client h
  obtain rfl : readerClient = client := Option.some.inj h
  rfl

/-- A first pass, over one page of one entry. -/
def firstPassed (report : SyncReport) : World Provenance :=
  (provenance SameServer).commitTo
    [.setSyncState (Sync.nextState Db.empty.syncState 100 report .default none)]
    ((provenance SameServer).commitTo (Pull.answerTx ⟨[wireEntry 7]⟩ none 1) firstServed)

/-- A star queued after it. -/
def firstStarred (report : SyncReport) : World Provenance :=
  { firstPassed report with
    db := (Statement.queue 7 (.starred true) 0).exec (firstPassed report).db
    outside := (firstPassed report).outside.queueAll [(7, .starred true)] }

theorem batches_firstStarred (report : SyncReport) :
    Outbox.batches (Outbox.pending (firstStarred report).db) = [Replay.starBatch] := by
  have hsame : Outbox.pending (firstStarred report).db =
      Outbox.pending ((Statement.queue 7 (.starred true) 0).exec
        ((Pull.answerTx ⟨[wireEntry 7]⟩ none 1).exec Db.empty)) := rfl
  rw [hsame]
  decide

theorem run_starred {R : Rules}
    (hidle : ∀ w : World Provenance, SameServer w readerAccount.server →
      R.idle w readerAccount.server)
    (hbegin : ∀ w, separate.begin w → R.begin w) : ∃ w, Run R w ∧ Starred w := by
  have hsend : (provenance R.busy).send readerClient.transport
      (.entries (Pull.pageQuery none none)) firstServed.outside
      (answered 200 ⟨[wireEntry 7]⟩ (some (secondsAfter 100 (by decide)))) firstServed.outside :=
    rfl
  have hicons : withoutIcons.iconsPerPass ≤ 0 := le_rfl
  obtain ⟨report, w₁, hnext, rfl, hrun⟩ :=
    (bare_provenance R.busy readerClient (secondsAfter 100 (by decide))).reaches_sync
      (w := firstServed) hicons rfl rfl rfl (by decide) hsend (by decide)
  have hreach : (provenance R.busy).setting.Reaches
      ((perform readerClient withoutIcons .sync).run, firstServed)
      (.done (.ok (syncChanged (.ok report))), firstPassed report) :=
    hrun.attempt.bind_ok _
  have hpass : Run R (firstPassed report) :=
    .work (run_firstServed hidle) rfl (hbegin _ begin_firstServed) hreach
  have hstarred : Run R (firstStarred report) :=
    .pages hpass (.inl ⟨.queue 7 (.starred true) 0, trivial, rfl, rfl⟩)
  have hcursor : Record.cursor.value (firstStarred report).db.syncState ≠ none := by
    change (report.pull.nextCursor.or none).map Sum.inl ≠ none
    rw [hnext]
    exact Option.some_ne_none _
  have htag : (firstStarred report).outside.recordedBy .cursor =
      if Record.cursor.value (firstStarred report).db.syncState = none then none
      else some readerTransport.origin := rfl
  rw [if_neg hcursor] at htag
  exact ⟨_, hstarred, rfl, rfl, rfl, batches_firstStarred report, rfl, hcursor, htag⟩

/-- A flush of the star, as far as its write. -/
theorem reaches_write (may : World Provenance → Url → Prop) (client : MinifluxClient)
    {w : World Provenance} (hcell : w.cells client.cell = none)
    (hbatches : Outbox.batches (Outbox.pending w.db) = [Replay.starBatch]) :
    ∃ next w', w'.outside = w.outside ∧ (provenance may).setting.Reaches
      ((perform client withoutIcons .flushOutbox).run, w)
      (.call (.send client.transport (Replay.batchRequest Replay.starBatch)) next, w') := by
  have hprobe : (provenance may).send client.transport .version w.outside
      (answered 200 ⟨"2.3.2"⟩ none) w.outside := rfl
  obtain ⟨next, hwrite⟩ := Replay.reaches_write_of_probe (b := Replay.starBatch)
    (v := ⟨"2.3.2", 2, 3, 2⟩) (List.cons_ne_nil 7 []) hcell hprobe rfl (by decide) (by decide)
  have hflush : (provenance may).setting.Reaches ((Replay.flush client).run, w) _ :=
    Replay.reaches_flushBatches w
  rw [hbatches] at hflush
  have hsent := hflush.trans ((hwrite.bind _).bind _)
  refine ⟨_, _, ?_, Setting.Reaches.bind (Setting.Reaches.bind hsent _) _⟩
  rfl

/-- The star goes to the server it was queued for. -/
theorem isolated_star : ∃ next w,
    Working separate readerClient
      (.call (.send readerTransport (Replay.batchRequest Replay.starBatch)) next) w ∧
    ∀ server, w.outside.queuedBy 7 (.starred true) = some server →
      server = readerTransport.origin := by
  obtain ⟨w, hrun, hstarred⟩ := run_starred (R := separate) (fun _ h => .inl h) fun _ h => h
  have hclient : w.outside.client = some readerClient :=
    congrArg Serving.client hstarred.serving
  have hbegin : separate.begin w := by
    intro client h
    obtain rfl : readerClient = client := Option.some.inj (hclient.symm.trans h)
    exact hstarred.configured
  obtain ⟨next, w', houtside, hreach⟩ := reaches_write separate.busy readerClient
    (congrFun hstarred.cells 0) hstarred.batches
  have hworking : Working separate readerClient _ w' :=
    ⟨w, hrun, hclient, hbegin, withoutIcons, .flushOutbox, hreach⟩
  exact ⟨next, w', hworking, (isolated_of_separate hworking) 7 List.mem_cons_self .starred _ rfl⟩

/-- Another account is configured over what is left of the first: its server is sent the
star, and its pass goes by the cursor of the other server. -/
theorem servers_mixed : ∃ client : MinifluxClient,
    (∃ next w, Working unruly client
        (.call (.send client.transport (Replay.batchRequest Replay.starBatch)) next) w ∧
      ¬Isolated client (.call (.send client.transport (Replay.batchRequest Replay.starBatch)) next)
        w) ∧
    ∃ next w, Working unruly client (.call (.query .syncState) next) w ∧
      ¬Isolated client (.call (.query .syncState) next) w := by
  obtain ⟨w, hrun, hstarred⟩ := run_starred (R := unruly) (fun _ _ => trivial) fun _ _ => trivial
  let client := otherAccount.client 1
  let sent := w.setOutside (w.outside.sendAccount otherAccount)
  let served : World Provenance := sent.setOutside
    { sent.outside with toServing := sent.outside.toServing.configure true true 1 }
  have hsent : Run unruly sent := .pages hrun (.inr ⟨rfl, otherAccount, trivial, rfl⟩)
  have hserved : Run unruly served :=
    .configure hsent true true 1 (by rw [World.cells_setOutside, hstarred.cells])
  have hclient : served.outside.client = some client := by
    have hconfigured : served.outside.toServing =
        (w.outside.toServing.send otherAccount).configure true true 1 := rfl
    rw [hconfigured, hstarred.serving]
    rfl
  have hother : client.transport.origin ≠ readerTransport.origin := by decide
  refine ⟨client, ?_, ?_⟩
  · obtain ⟨next, w', houtside, hreach⟩ := reaches_write unruly.busy client (w := served)
      (congrFun hstarred.cells 1) hstarred.batches
    refine ⟨next, w', ⟨served, hserved, hclient, trivial, withoutIcons, .flushOutbox, hreach⟩, ?_⟩
    intro hisolated
    have htag : w'.outside.queuedBy 7 (.starred true) = some readerTransport.origin :=
      houtside ▸ hstarred.queuedBy
    exact hother (hisolated 7 List.mem_cons_self .starred _ rfl _ htag).symm
  · refine ⟨_, served, ⟨served, hserved, hclient, trivial, withoutIcons, .sync, .refl⟩, ?_⟩
    intro hisolated
    exact hother (hisolated .cursor hstarred.cursor _ hstarred.recordedBy).symm

end TwoAccounts

end Vuo.Shim
