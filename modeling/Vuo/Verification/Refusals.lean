import Vuo.Verification.Budget

/-!
# When the server refuses the credentials

The requests a pass cannot do without are its writes, its two listings, its
pages and the listing of ids. Once one of them is refused the pass makes no other
request, and all it may still write is that a batch failed.
-/

namespace Vuo

open Foundation Program MinifluxClient Action

/-- A request the pass cannot do without. -/
def Request.Essential : Request → Prop
  | .updateEntries _ | .categories | .feeds | .entries _ | .entryIds _ _ => True
  | _ => False

/-- The answer refuses the credentials. -/
def Refused {request : Request} (r : Answer request) : Prop :=
  match r with
  | .ok response => response.status = 401 ∨ response.status = 403
  | .error e => e.isAuthFailure = true

/-- The answer to an essential request refuses the credentials. -/
def Refusal : (op : Op) → op.Ans → Prop
  | .send _ request, r => request.Essential ∧ Refused r
  | _, _ => False

/-- All the operation does is to record that a batch failed. -/
def ChargesAttempt : Op → Prop
  | .transact body => ∃ batch message, body = [.recordFailure batch message]
  | _ => False

/-- No answer to the operation is a refusal that matters. -/
def Op.Optional : Op → Prop
  | .send _ request => ¬request.Essential
  | _ => True

theorem not_refusal_of_optional {op : Op} (h : op.Optional) (r : op.Ans) : ¬Refusal op r := by
  cases op with
  | send t request => exact fun hr => h hr.1
  | _ => exact id

/-- A program that fails on the credentials once it is refused. -/
abbrev GivesUp {α : Type} (p : Action α) : Prop :=
  Fails ChargesAttempt Refusal (fun e => e.isAuthFailure = true) p

theorem givesUp_of_optional {α : Type} {p : Action α} (h : CallsE Op.Optional p) : GivesUp p :=
  fails_of_calls (fun _ hop r => not_refusal_of_optional hop r) h

section Requests

variable [Endpoints] (client : MinifluxClient)

namespace MinifluxClient

omit [Endpoints] in
theorem checkStatus_of_refused {α : Type} {response : BoundedResponse α} (endpoint : String)
    (h : response.status = 401 ∨ response.status = 403) :
    ∃ e, checkStatus response endpoint = .error e ∧ e.isAuthFailure = true := by
  unfold checkStatus
  rw [if_neg (by omega)]
  exact ⟨_, rfl, by simpa [Error.isAuthFailure] using h⟩

omit [Endpoints] in
theorem decode_of_refused {α : Type} {response : BoundedResponse α} (endpoint : String)
    (h : response.status = 401 ∨ response.status = 403) :
    ∃ e, decode response endpoint = .error e ∧ e.isAuthFailure = true := by
  obtain ⟨e, he, hauth⟩ := checkStatus_of_refused endpoint h
  refine ⟨e, ?_, hauth⟩
  unfold decode
  rw [he]
  rfl

omit [Endpoints] in
/-- A request of any kind, followed by a reading of its answer that fails where
it is refused. -/
theorem givesUp_send {α : Type} {request : Request}
    {f : BoundedResponse request.Payload → Action α}
    (hrefused : ∀ response, response.status = 401 ∨ response.status = 403 →
      ∃ e, f response = ofResult (.error e) ∧ e.isAuthFailure = true)
    (hf : ∀ response, GivesUp (f response)) :
    GivesUp (send client.transport request >>= f) := by
  intro r
  cases r with
  | error e => exact ⟨fun hr => ⟨e, rfl, hr.2⟩, fun _ => trivial⟩
  | ok response =>
      refine ⟨fun hr => ?_, fun _ => hf response⟩
      obtain ⟨e, he, hauth⟩ := hrefused response hr.2
      change (f response).run.Quits _ _
      rw [he]
      exact ⟨e, rfl, hauth⟩

theorem givesUp_getJson (request : Request) : GivesUp (client.getJson request) := by
  refine givesUp_send client (fun response h => ?_) fun response => trivial
  obtain ⟨e, he, hauth⟩ := decode_of_refused (Endpoints.endpoint client.transport request) h
  exact ⟨e, by rw [he], hauth⟩

theorem givesUp_entries (query : EntriesQuery) : GivesUp (client.entries query) := by
  refine givesUp_send client (fun response h => ?_) fun response => ?_
  · obtain ⟨e, he, hauth⟩ := decode_of_refused (α := Wire.EntriesResponse)
      (Endpoints.endpoint client.transport (.entries query)) h
    exact ⟨e, by rw [he]; rfl, hauth⟩
  · exact givesUp_of_optional (CallsE.bind (by exact trivial) fun _ => .pure _)

theorem optional_getJson {request : Request} (h : ¬request.Essential) :
    CallsE Op.Optional (client.getJson request) := by
  refine CallsE.bind ⟨h, fun _ => trivial⟩ fun response => ?_
  trivial

theorem optional_version : CallsE Op.Optional client.version :=
  (client.optional_getJson (by exact id)).bind fun _ =>
    CallsE.bind (p := rememberVersion _ _) ⟨trivial, fun _ => trivial⟩ fun _ => .pure _

theorem givesUp_updateEntries (ids : List EntryId) (mutation : EntryMutation) :
    GivesUp (client.updateEntries ids mutation) := by
  have hcapable : GivesUp client.writeCapableVersion := by
    refine Fails.bind (givesUp_of_optional ⟨trivial, fun _ => trivial⟩) ?_
    rintro (_ | v)
    · exact givesUp_of_optional client.optional_version
    · exact .pure v
  have hrefuse : GivesUp client.refuseEntryWritesBeforeFloor := by
    refine hcapable.bind fun v => ?_
    split
    · exact .pure _
    · exact .throw _
  unfold updateEntries
  split
  · exact .throw _
  · refine hrefuse.bind fun _ => givesUp_send client (fun response h => ?_) fun response => trivial
    obtain ⟨e, he, hauth⟩ := checkStatus_of_refused (Endpoints.endpoint client.transport
      (.updateEntries (updateRequest ids mutation))) h
    exact ⟨e, by rw [he], hauth⟩

end MinifluxClient

/-! ## The replay -/

/-- A replay that was refused says so, or fails to record it. -/
def SaysSo : Except Error ReplayOutcome → Prop
  | .ok outcome => outcome.authFailed = true
  | .error _ => True

omit [Endpoints] in
/-- Statements and reads are no refusals. -/
theorem stops_call {α : Type} {op : Op} {next : op.Ans → Program Op Op.Ans α} {Q : α → Prop}
    (hop : op.Optional) (h : ∀ r, (next r).Stops ChargesAttempt Refusal Q) :
    (call op next).Stops ChargesAttempt Refusal Q :=
  fun r => ⟨fun hr => absurd hr (not_refusal_of_optional hop r), fun _ => h r⟩

theorem Replay.stops_flushBatches (batches : List Batch) (outcome : ReplayOutcome) :
    (flushBatches client batches outcome).run.Stops ChargesAttempt Refusal SaysSo := by
  induction batches generalizing outcome with
  | nil => trivial
  | cons b bs ih =>
      have hnext : ∀ (body : Transaction) (next : ℕ → Action ReplayOutcome),
          (∀ n, (next n).run.Stops ChargesAttempt Refusal SaysSo) →
          (withTx body >>= next).run.Stops ChargesAttempt Refusal SaysSo := by
        intro body next h
        refine stops_call trivial fun r => ?_
        cases r with
        | error e => trivial
        | ok n => exact h n
      have hsend : (Action.attempt (client.updateEntries b.entryIds (mutation b.value))).run.Stops
          ChargesAttempt Refusal fun r => ∃ e, r = .ok (.error e) ∧ e.isAuthFailure = true := by
        refine Stops.bind (client.givesUp_updateEntries _ _) (fun _ => by trivial) ?_
        rintro _ ⟨e, rfl, he⟩
        exact ⟨e, rfl, he⟩
      refine Stops.bind hsend ?_ ?_
      · rintro (e | e | u)
        · trivial
        · change Stops _ _ _ (ExceptT.run (if _ then _ else _))
          split
          · exact hnext _ _ fun _ => trivial
          · split
            · exact hnext _ _ fun _ => ih _
            · exact hnext _ _ fun _ => ih _
        · exact hnext _ _ fun _ => ih _
      · rintro _ ⟨e, rfl, he⟩
        change Quits _ _ (ExceptT.run (if _ then _ else _))
        rw [if_pos he]
        refine ⟨⟨b, _, rfl⟩, fun r => ?_⟩
        cases r <;> trivial

theorem Replay.stops_flush :
    (flush client).run.Stops ChargesAttempt Refusal SaysSo := by
  refine stops_call trivial fun r => ?_
  cases r with
  | error e => trivial
  | ok pending => exact stops_flushBatches client _ _

/-! ## The pull -/

namespace Pull

theorem givesUp_taxonomy [UrlLibrary] (generation : ℤ) : GivesUp (taxonomy client generation) := by
  refine (client.givesUp_getJson _).bind fun _ => (client.givesUp_getJson _).bind fun _ =>
    givesUp_of_optional ?_
  refine CallsE.bind ⟨trivial, fun _ => trivial⟩ fun _ =>
    CallsE.bind ⟨trivial, fun _ => trivial⟩ fun _ => ?_
  split
  · exact .pure _
  · dsimp only
    split
    · exact .pure _
    · exact CallsE.bind ⟨trivial, fun _ => trivial⟩ fun _ => .pure _

theorem givesUp_entriesPages [UrlLibrary] (cursor : Option ℤ) (generation : ℤ) (budget : ℕ)
    (after : Option EntryId) (serverNow : Option ℤ) (outcome : PullOutcome) :
    GivesUp (entriesPages client cursor generation budget after serverNow outcome) := by
  induction budget generalizing after serverNow outcome with
  | zero => exact .pure _
  | succ budget ih =>
      refine (client.givesUp_entries _).bind fun answer =>
        Fails.bind (givesUp_of_optional ⟨trivial, fun _ => trivial⟩) fun _ => ?_
      split
      · exact .pure _
      · split
        · split
          · exact ih _ _ _
          · exact .pure _
        · exact .pure _

theorem givesUp_entries [UrlLibrary] (cursor : Option ℤ) (generation : ℤ) :
    GivesUp (entries client cursor generation) := by
  refine (givesUp_entriesPages client cursor generation _ _ _ _).bind ?_
  rintro ⟨outcome, serverNow, complete⟩
  refine givesUp_of_optional ?_
  dsimp only
  split
  · split
    · exact .pure _
    · exact CallsE.bind ⟨trivial, fun _ => trivial⟩ fun _ => .pure _
  · exact .pure _

theorem givesUp_reconcilePages (offset : ℕ) (total : Option ℤ) (seen : List ℤ) :
    GivesUp (reconcilePages client offset total seen) := by
  induction hleft : reconcileLimit + reconcilePage - offset using Nat.strongRecOn
    generalizing offset total seen with
  | ind left ih =>
      rw [reconcilePages]
      refine (client.givesUp_getJson _).bind fun page => ?_
      dsimp only
      by_cases hshort : page.entryIds.length < reconcilePage
      · rw [if_pos hshort]
        exact .pure _
      · rw [if_neg hshort]
        rw [Fails.dite_iff]
        refine ⟨fun _ => .pure _, fun hlimit => ih _ ?_ _ _ _ rfl⟩
        simp only [reconcileLimit, reconcilePage] at *
        omega

theorem givesUp_reconcile : GivesUp (reconcile client) := by
  refine (givesUp_reconcilePages client 0 none []).bind ?_
  rintro (_ | ⟨total, seen⟩)
  · exact .pure _
  · refine givesUp_of_optional ?_
    rw [deleteUnlisted]
    split
    · refine CallsE.bind ⟨trivial, fun _ => trivial⟩ fun localIds => ?_
      dsimp only
      split
      · exact .pure _
      · exact CallsE.bind ⟨trivial, fun _ => trivial⟩ fun _ => .pure _
    · exact .pure _

end Pull

/-! ## A pass -/

namespace Sync

theorem optional_resolveVersion (state : SyncState) (now ttl : ℤ) :
    CallsE Op.Optional (resolveVersion client state now ttl) := by
  unfold resolveVersion
  cases cachedVersion state now ttl with
  | some version => exact .pure _
  | none =>
      refine client.optional_version.attempt.bind ?_
      rintro (e | version)
      · exact .pure _
      · exact .pure _

theorem optional_divergenceStep (worthAsking : Bool) :
    CallsE Op.Optional (divergenceStep client worthAsking) := by
  unfold divergenceStep
  split
  · have hfeeds : CallsE Op.Optional (Pull.divergingFeeds client) :=
      (client.optional_getJson (by exact id)).bind fun _ =>
        CallsE.bind (p := query .entryCountsByFeed) ⟨trivial, fun _ => trivial⟩ fun _ => .pure _
    refine hfeeds.attempt.bind ?_
    rintro (e | feeds)
    · exact .pure _
    · exact .pure _
  · exact .pure _

variable [IconDecoder]

theorem optional_fetchIcons (limit : ℤ) : CallsE Op.Optional (fetchIcons client limit) := by
  have hwanted : ∀ (wanted : List (FeedId × IconId)) (fetched : ℕ),
      CallsE Op.Optional (fetchIconsFor client wanted fetched) := by
    intro wanted
    induction wanted with
    | nil => exact fun _ => .pure _
    | cons pair wanted ih =>
        intro fetched
        refine (client.optional_getJson (by exact id)).attempt.bind ?_
        rintro (e | wire)
        · exact CallsE.bind ⟨trivial, fun _ => trivial⟩ fun _ => ih _
        · dsimp only
          split
          · exact CallsE.bind ⟨trivial, fun _ => trivial⟩ fun _ => ih _
          · exact CallsE.bind ⟨trivial, fun _ => trivial⟩ fun _ => ih _
  unfold fetchIcons
  split
  · exact .pure _
  · exact CallsE.bind ⟨trivial, fun _ => trivial⟩ fun _ => hwanted _ _

theorem givesUp_afterReplay [UrlLibrary] (options : SyncOptions) (state : SyncState) (now : ℤ)
    (replay : ReplayOutcome) : GivesUp (afterReplay client options state now replay) := by
  refine (givesUp_of_optional (optional_resolveVersion client _ _ _)).bind fun version => ?_
  refine (Pull.givesUp_taxonomy client _).bind fun _ => ?_
  refine (Pull.givesUp_entries client _ _).bind fun pull => ?_
  have hreconcile : GivesUp (reconcileStep client state version.1 now
      options.reconcileIntervalSecs) := by
    refine (givesUp_of_optional (optional_divergenceStep client _)).bind fun diverging => ?_
    split
    · exact Pull.givesUp_reconcile client
    · exact .pure _
  refine hreconcile.bind fun reconcile => givesUp_of_optional ?_
  refine (optional_fetchIcons client _).bind fun icons => ?_
  have hprune : CallsE Op.Optional (pruneStep options now) := by
    unfold pruneStep
    split
    · exact ⟨trivial, fun _ => trivial⟩
    · exact .pure _
  exact hprune.bind fun _ => CallsE.bind ⟨trivial, fun _ => trivial⟩ fun _ => .pure _

/-- A pass that was refused reports a refused replay, or fails. -/
def RefusedPass : Except Error SyncReport → Prop
  | .ok report => report.replay.authFailed = true
  | .error _ => True

theorem stops_sync [UrlLibrary] (options : SyncOptions) :
    (sync client options).run.Stops ChargesAttempt Refusal RefusedPass := by
  have hread {α : Type} {p : Action α} (hp : CallsE Op.Optional p) :
      p.run.Stops ChargesAttempt Refusal fun _ => False :=
    stops_of_calls (fun _ hop r => not_refusal_of_optional hop r) hp
  refine Stops.bind (hread (p := query .syncState) ⟨trivial, fun _ => trivial⟩) ?_ fun _ h => h.elim
  rintro (e | state)
  · trivial
  refine Stops.bind (hread (p := now) ⟨trivial, fun _ => trivial⟩) ?_ fun _ h => h.elim
  rintro (e | now)
  · trivial
  have hreplay : (replayStep client options).run.Stops ChargesAttempt Refusal SaysSo := by
    unfold replayStep
    split
    · trivial
    · exact Replay.stops_flush client
  refine Stops.bind hreplay ?_ ?_
  · rintro (e | replay)
    · trivial
    · change Stops _ _ _ (ExceptT.run (if _ then _ else _))
      split
      · trivial
      · refine Stops.mono ?_ (givesUp_afterReplay client options _ _ replay)
        rintro _ ⟨e, rfl, -⟩
        trivial
  · rintro (e | replay) hsays
    · trivial
    · change Quits _ _ (ExceptT.run (if _ then _ else _))
      have hauth : replay.authFailed = true := hsays
      rw [if_pos hauth]
      exact hauth

/-- Once an essential request is refused, a pass makes no other request and
writes nothing but that a batch failed; it ends by reporting that, or in an
error. -/
theorem refusal_ends_pass [UrlLibrary] {σ : Type*} {O : Outside σ} (options : SyncOptions)
    {w : World σ} {before after : Log Op Op.Ans} {t : Transport} {request : Request}
    {r : Answer request} {c : Program Op Op.Ans (Except Error SyncReport) × World σ}
    (hrun : O.setting.Runs ((sync client options).run, w)
      (before ++ ⟨.send t request, r⟩ :: after) c)
    (hessential : request.Essential) (hrefused : Refused r) :
    (∀ x ∈ after, ∃ batch message, x.1 = .transact [.recordFailure batch message]) ∧
      ∀ a, c.1 = .done a → (∃ report, a = .ok report ∧ report.replay.authFailed = true) ∨
        ∃ e, a = .error e := by
  obtain ⟨hafter, hend⟩ := (stops_sync client options).log hrun ⟨hessential, hrefused⟩
  constructor
  · rintro ⟨op, s⟩ hx
    have hop := hafter _ hx
    cases op with
    | transact body =>
        obtain ⟨batch, message, rfl⟩ := hop
        exact ⟨batch, message, rfl⟩
    | _ => exact hop.elim
  · rintro a ha
    rw [ha] at hend
    cases a with
    | ok report => exact .inl ⟨report, rfl, hend⟩
    | error e => exact .inr ⟨e, rfl⟩

end Sync

end Requests

section Refusing

open scoped Reader

/-- A write waits, and the server is known to take it. -/
def waiting : World Unit :=
  ⟨Outbox.queue 7 (.starred true) 0 (mirrorOf 7), fun _ => some ⟨"2.3.2", 2, 3, 2⟩, ()⟩

def waitingWrite : Request :=
  .updateEntries (updateRequest [7] (.starred true))

/-- What is written once it is refused. -/
def refusedWrite : Transaction :=
  [.recordFailure ⟨.starred true, [7]⟩
    (Error.http 401 (Endpoints.endpoint readerTransport waitingWrite) none).toString]

theorem runs_waiting : ∃ (before : Log Op Op.Ans) (report : SyncReport) (w : World Unit),
    refusing.setting.Runs ((Sync.sync readerClient withoutIcons).run, waiting)
      (before ++ ⟨.send readerTransport waitingWrite, refusal waitingWrite⟩ ::
        [⟨.transact refusedWrite, .ok (refusedWrite.run waiting.db).1⟩])
      (.done (.ok report), w) := by
  refine ⟨[⟨.query .syncState, .ok waiting.db.syncState⟩, ⟨.now, secondsAfter 100 (by decide)⟩,
    ⟨.query .pending, .ok (Outbox.pending waiting.db)⟩, ⟨.knownVersion 0, some ⟨"2.3.2", 2, 3, 2⟩⟩],
    { SyncReport.default with replay := ⟨0, 1, 0, true⟩ }, refusing.commitTo refusedWrite waiting,
    ?_⟩
  exact .call (Outside.act_query_ok .syncState _) (.call (Outside.act_now_of trivial)
    (.call (Outside.act_query_ok .pending _) (.call (Outside.act_knownVersion 0 _)
      (.call (act_refusing _ _) (.call (Outside.act_transact_ok _ _) .refl)))))

/-- The write is refused; nothing is asked for after it. -/
theorem Sync.refusal_ends_pass_waiting : ∃ (before : Log Op Op.Ans) (report : SyncReport)
    (w : World Unit),
    refusing.setting.Runs ((Sync.sync readerClient withoutIcons).run, waiting)
      (before ++ ⟨.send readerTransport waitingWrite, refusal waitingWrite⟩ ::
        [⟨.transact refusedWrite, .ok (refusedWrite.run waiting.db).1⟩])
      (.done (.ok report), w) ∧
    report.replay.authFailed = true := by
  obtain ⟨before, report, w, hrun⟩ := runs_waiting
  obtain ⟨-, hend⟩ := Sync.refusal_ends_pass readerClient withoutIcons hrun trivial (.inl rfl)
  refine ⟨before, report, w, hrun, ?_⟩
  obtain ⟨report', hreport, hauth⟩ | ⟨e, he⟩ := hend _ rfl
  · cases hreport
    exact hauth
  · cases he

end Refusing

end Vuo
