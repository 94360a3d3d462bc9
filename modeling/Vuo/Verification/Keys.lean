import Vuo.Foundation.Renaming
import Vuo.Model.Http
import Vuo.Model.Shim.Worker
import Vuo.Verification.Budget
import Vuo.Verification.Http.Origin

/-!
# The key shows nowhere

With another key a command asks the same of the server, writes the same to the
mirror and ends in the same: the key goes into the header of a request and into
nothing else.
-/

namespace Vuo

open Foundation Program MinifluxClient Action

/-! ## Another key -/

def Transport.withToken (k : String) (t : Transport) : Transport :=
  { t with token := k }

def MinifluxClient.withToken (k : String) (client : MinifluxClient) : MinifluxClient :=
  { client with transport := client.transport.withToken k }

/-- The operation as another key asks for it. -/
def Op.withToken (k : String) : Op → Op
  | .send t request => .send (t.withToken k) request
  | op => op

def anotherKey (k : String) : Renaming Op Op.Ans where
  op := Op.withToken k
  ans
    | .send _ _ => Equiv.refl _
    | .query _ => Equiv.refl _
    | .transact _ => Equiv.refl _
    | .now => Equiv.refl _
    | .knownVersion _ => Equiv.refl _
    | .rememberVersion _ _ => Equiv.refl _

/-- The outside answers every key alike. -/
def Outside.Indifferent {σ : Type*} (O : Outside σ) : Prop :=
  ∀ t k, O.send (Transport.withToken k t) = O.send t

/-- What an error says of the place a request went to. -/
abbrev safeEndpoints [Http.UrlMessages] [Http.UrlParts] : Endpoints where
  endpoint t request :=
    Http.UrlMessages.safe (Http.urlWith
      { t with configMaxBytes := 0, maxRedirects := 0, requestTimeout := 0 }
      request.path request.parameters)

/-- ... in which the key has no part. -/
def Keyless [Endpoints] : Prop :=
  ∀ t k request, Endpoints.endpoint (Transport.withToken k t) request =
    Endpoints.endpoint t request

/-! ## The client -/

section Programs

variable [Endpoints] (hkeyless : Keyless) (k : String) (client : MinifluxClient)

include hkeyless

omit [Endpoints] hkeyless in
/-- A request, followed by a reading of its answer in which the key has no part. -/
theorem renames_send {α : Type} {request : Request}
    {f f' : BoundedResponse request.Payload → Action α}
    (hf : ∀ response, Renames (anotherKey k) (f response) (f' response)) :
    Renames (anotherKey k) (send client.transport request >>= f)
      (send (client.withToken k).transport request >>= f') :=
  Renames.bind rfl hf

theorem endpoint_withToken (request : Request) :
    Endpoints.endpoint (client.withToken k).transport request =
      Endpoints.endpoint client.transport request :=
  hkeyless _ _ _

namespace MinifluxClient

theorem renames_getJson (request : Request) :
    Renames (anotherKey k) (client.getJson request) ((client.withToken k).getJson request) := by
  refine renames_send k client fun response => ?_
  rw [endpoint_withToken hkeyless]
  rfl

theorem renames_version :
    Renames (anotherKey k) client.version (client.withToken k).version :=
  (renames_getJson hkeyless k client _).bind fun _ => .bind rfl fun _ => .pure _

theorem renames_updateEntries (ids : List EntryId) (mutation : EntryMutation) :
    Renames (anotherKey k) (client.updateEntries ids mutation)
      ((client.withToken k).updateEntries ids mutation) := by
  have hcapable : Renames (anotherKey k) client.writeCapableVersion
      (client.withToken k).writeCapableVersion := by
    refine .bind rfl ?_
    rintro (_ | v)
    · exact renames_version hkeyless k client
    · exact .pure v
  have hrefuse : Renames (anotherKey k) client.refuseEntryWritesBeforeFloor
      (client.withToken k).refuseEntryWritesBeforeFloor := by
    refine hcapable.bind fun v => ?_
    split
    · exact .pure _
    · exact .throw _
  unfold updateEntries
  split
  · exact .throw _
  · refine hrefuse.bind fun _ => renames_send k client fun response => ?_
    rw [endpoint_withToken hkeyless]
    rfl

theorem renames_entries (query : EntriesQuery) :
    Renames (anotherKey k) (client.entries query) ((client.withToken k).entries query) := by
  refine renames_send k client fun response => ?_
  rw [endpoint_withToken hkeyless]
  exact .bind rfl fun _ => .pure _

theorem renames_sendForStatus (request : Request) :
    Renames (anotherKey k) (client.sendForStatus request)
      ((client.withToken k).sendForStatus request) := by
  refine renames_send k client fun response => ?_
  rw [endpoint_withToken hkeyless]
  rfl

end MinifluxClient

/-! ## A pass -/

theorem Replay.renames_flushBatches (batches : List Batch) (outcome : ReplayOutcome) :
    Renames (anotherKey k) (flushBatches client batches outcome)
      (flushBatches (client.withToken k) batches outcome) := by
  induction batches generalizing outcome with
  | nil => exact .pure _
  | cons b bs ih =>
      refine (client.renames_updateEntries hkeyless k _ _).attempt.bind ?_
      rintro (e | u)
      · dsimp only
        split
        · exact .bind rfl fun _ => .pure _
        · split
          · exact .bind rfl fun _ => ih _
          · exact .bind rfl fun _ => ih _
      · exact .bind rfl fun _ => ih _

theorem Replay.renames_flush :
    Renames (anotherKey k) (flush client) (flush (client.withToken k)) :=
  .bind rfl fun _ => renames_flushBatches hkeyless k client _ _

namespace Pull

theorem renames_taxonomy [UrlLibrary] (generation : ℤ) :
    Renames (anotherKey k) (taxonomy client generation)
      (taxonomy (client.withToken k) generation) := by
  refine (client.renames_getJson hkeyless k _).bind fun _ =>
    (client.renames_getJson hkeyless k _).bind fun _ => .bind rfl fun _ => .bind rfl fun _ => ?_
  split
  · exact .pure _
  · dsimp only
    split
    · exact .pure _
    · exact .bind rfl fun _ => .pure _

theorem renames_entriesPages [UrlLibrary] (cursor : Option ℤ) (generation : ℤ) (budget : ℕ)
    (after : Option EntryId) (serverNow : Option ℤ) (outcome : PullOutcome) :
    Renames (anotherKey k) (entriesPages client cursor generation budget after serverNow outcome)
      (entriesPages (client.withToken k) cursor generation budget after serverNow outcome) := by
  induction budget generalizing after serverNow outcome with
  | zero => exact .pure _
  | succ budget ih =>
      refine (client.renames_entries hkeyless k _).bind fun answer => .bind rfl fun _ => ?_
      split
      · exact .pure _
      · split
        · split
          · exact ih _ _ _
          · exact .pure _
        · exact .pure _

theorem renames_entries [UrlLibrary] (cursor : Option ℤ) (generation : ℤ) :
    Renames (anotherKey k) (entries client cursor generation)
      (entries (client.withToken k) cursor generation) := by
  refine (renames_entriesPages hkeyless k client cursor generation _ _ _ _).bind ?_
  rintro ⟨outcome, serverNow, complete⟩
  dsimp only
  split
  · split
    · exact .pure _
    · exact .bind rfl fun _ => .pure _
  · exact .pure _

theorem renames_reconcilePages (offset : ℕ) (total : Option ℤ) (seen : List ℤ) :
    Renames (anotherKey k) (reconcilePages client offset total seen)
      (reconcilePages (client.withToken k) offset total seen) := by
  induction hleft : reconcileLimit + reconcilePage - offset using Nat.strongRecOn
    generalizing offset total seen with
  | ind left ih =>
      rw [reconcilePages, reconcilePages]
      refine (client.renames_getJson hkeyless k _).bind fun page => ?_
      dsimp only
      by_cases hshort : page.entryIds.length < reconcilePage
      · rw [if_pos hshort, if_pos hshort]
        exact .pure _
      · rw [if_neg hshort, if_neg hshort]
        refine .dite (fun _ => .pure _) fun hlimit => ih _ ?_ _ _ _ rfl
        simp only [reconcileLimit, reconcilePage] at *
        omega

theorem renames_reconcile :
    Renames (anotherKey k) (reconcile client) (reconcile (client.withToken k)) := by
  refine (renames_reconcilePages hkeyless k client 0 none []).bind ?_
  rintro (_ | ⟨total, seen⟩)
  · exact .pure _
  · dsimp only [deleteUnlisted]
    split
    · refine .bind rfl fun localIds => ?_
      split
      · exact .pure _
      · exact .bind rfl fun _ => .pure _
    · exact .pure _

end Pull

namespace Sync

theorem renames_resolveVersion (state : SyncState) (now ttl : ℤ) :
    Renames (anotherKey k) (resolveVersion client state now ttl)
      (resolveVersion (client.withToken k) state now ttl) := by
  unfold resolveVersion
  cases cachedVersion state now ttl with
  | some version => exact .pure _
  | none =>
      refine (client.renames_version hkeyless k).attempt.bind ?_
      rintro (e | version)
      · exact .pure _
      · exact .pure _

theorem renames_reconcileStep (state : SyncState) (version : ServerVersion) (now interval : ℤ) :
    Renames (anotherKey k) (reconcileStep client state version now interval)
      (reconcileStep (client.withToken k) state version now interval) := by
  have hdiverging : Renames (anotherKey k) (Pull.divergingFeeds client)
      (Pull.divergingFeeds (client.withToken k)) :=
    (client.renames_getJson hkeyless k _).bind fun _ => .bind rfl fun _ => .pure _
  have hdivergence (worthAsking : Bool) : Renames (anotherKey k)
      (divergenceStep client worthAsking) (divergenceStep (client.withToken k) worthAsking) := by
    unfold divergenceStep
    split
    · refine hdiverging.attempt.bind ?_
      rintro (e | feeds)
      · exact .pure _
      · exact .pure _
    · exact .pure _
  refine (hdivergence _).bind fun feeds => ?_
  split
  · exact Pull.renames_reconcile hkeyless k client
  · exact .pure _

variable [IconDecoder]

theorem renames_fetchIcons (limit : ℤ) : Renames (anotherKey k) (fetchIcons client limit)
    (fetchIcons (client.withToken k) limit) := by
  have hwanted (wanted : List (FeedId × IconId)) (fetched : ℕ) : Renames (anotherKey k)
      (fetchIconsFor client wanted fetched)
      (fetchIconsFor (client.withToken k) wanted fetched) := by
    induction wanted generalizing fetched with
    | nil => exact .pure _
    | cons pair wanted ih =>
        refine (client.renames_getJson hkeyless k _).attempt.bind ?_
        rintro (e | wire)
        · exact .bind rfl fun _ => ih _
        · dsimp only
          split
          · exact .bind rfl fun _ => ih _
          · exact .bind rfl fun _ => ih _
  unfold fetchIcons
  split
  · exact .pure _
  · exact .bind rfl fun _ => hwanted _ _

theorem renames_sync [UrlLibrary] (options : SyncOptions) :
    Renames (anotherKey k) (sync client options) (sync (client.withToken k) options) := by
  refine .bind rfl fun state => .bind rfl fun now => ?_
  have hreplay : Renames (anotherKey k) (replayStep client options)
      (replayStep (client.withToken k) options) := by
    unfold replayStep
    split
    · exact .pure _
    · exact Replay.renames_flush hkeyless k client
  refine hreplay.bind fun replay => ?_
  split
  · exact .pure _
  · refine (renames_resolveVersion hkeyless k client _ _ _).bind fun version => ?_
    refine (Pull.renames_taxonomy hkeyless k client _).bind fun _ => ?_
    refine (Pull.renames_entries hkeyless k client _ _).bind fun pull => ?_
    refine (renames_reconcileStep hkeyless k client _ _ _ _).bind fun reconcile => ?_
    refine (renames_fetchIcons hkeyless k client _).bind fun icons => ?_
    have hprune : Renames (anotherKey k) (pruneStep options now.timestamp)
        (pruneStep options now.timestamp) := by
      unfold pruneStep
      split
      · rfl
      · exact .pure _
    exact hprune.bind fun _ => .bind rfl fun _ => .pure _

end Sync

/-! ## The commands of the worker -/

namespace Shim

variable [UrlLibrary] [IconDecoder]

omit [Endpoints] [UrlLibrary] [IconDecoder] hkeyless in
theorem renames_thenWrite {request request' : Action Unit}
    (h : Renames (anotherKey k) request request') (body : Transaction) :
    Renames (anotherKey k) (thenWrite request body) (thenWrite request' body) := by
  refine h.attempt.bind ?_
  rintro (e | u)
  · exact .pure _
  · exact .bind (Renames.attempt rfl) fun _ => .pure _

omit [UrlLibrary] [IconDecoder] in
theorem renames_fetchOriginal (id : EntryId) : Renames (anotherKey k) (fetchOriginal client id)
    (fetchOriginal (client.withToken k) id) := by
  refine (client.renames_getJson hkeyless k _).attempt.bind ?_
  rintro (e | content)
  · exact .pure _
  · refine .bind (Renames.attempt rfl) fun previous => ?_
    split
    · exact .bind (Renames.attempt rfl) fun _ => .pure _
    · exact .pure _

theorem renames_perform (options : SyncOptions) (command : Command) :
    Renames (anotherKey k) (perform client options command)
      (perform (client.withToken k) options command) := by
  have hsync := Sync.renames_sync hkeyless k client options
  cases command with
  | sync => exact hsync.attempt.bind fun _ => .pure _
  | flushOutbox => exact (Replay.renames_flush hkeyless k client).attempt.bind fun _ => .pure _
  | subscribe feedUrl =>
      refine (client.renames_getJson hkeyless k _).attempt.bind ?_
      rintro (e | feedId)
      · exact .pure _
      · exact hsync.attempt.bind fun _ => .pure _
  | unsubscribe feedId =>
      exact renames_thenWrite k (client.renames_sendForStatus hkeyless k _) _
  | updateFeed feedId update =>
      exact renames_thenWrite k (client.renames_sendForStatus hkeyless k _) _
  | fetchOriginal id => exact renames_fetchOriginal hkeyless k client id

end Shim

end Programs

/-! ## The wire -/

namespace Http

/-- A request of a hop as another key makes it. -/
def HopRequest.withToken (k : String) (r : HopRequest) : HopRequest :=
  { r with token := r.token.map fun _ => k }

def HopOp.withToken (k : String) : HopOp → HopOp
  | .request r => .request (r.withToken k)
  | .elapsed => .elapsed

def anotherHop (k : String) : Renaming HopOp HopOp.Ans where
  op := HopOp.withToken k
  ans
    | .request _ => Equiv.refl _
    | .elapsed => Equiv.refl _

def Transport.withToken (k : String) (t : Transport) : Transport :=
  { t with token := k }

namespace Transport

variable (k : String) (t : Transport)

theorem hopRequest_withToken (method : String) (body : Option (List UInt8)) (url : Url) :
    (t.withToken k).hopRequest method body url = (t.hopRequest method body url).withToken k := by
  unfold hopRequest HopRequest.withToken
  change HopRequest.mk _ _ (if t.isConfiguredOrigin url then _ else _) _ = _
  split <;> rfl

variable [UrlMessages]

theorem readBounded_withToken (url : Url) (out : List UInt8)
    (chunks : List (Except Error (List UInt8))) :
    (t.withToken k).readBounded url out chunks = t.readBounded url out chunks := by
  induction chunks generalizing out with
  | nil => rfl
  | cons chunk chunks ih =>
      cases chunk with
      | error e => rfl
      | ok chunk =>
          unfold readBounded
          rw [ih]
          rfl

theorem finish_withToken (url : Url) (response : HopResponse) :
    (t.withToken k).finish url response = t.finish url response := by
  unfold finish
  rw [readBounded_withToken]
  rfl

variable [UrlLibrary]

theorem renames_sendFrom (method : String) (body : Option (List UInt8)) (hops : ℕ)
    (current : Url) :
    Renames (anotherHop k) (t.sendFrom method body hops current)
      ((t.withToken k).sendFrom method body hops current) := by
  induction hleft : t.maxRedirects - hops using Nat.strongRecOn generalizing hops current with
  | ind left ih =>
      rw [sendFrom, sendFrom]
      refine .bind rfl fun elapsed => .ite (.throw_bind _ _ _) (.bind ?_ fun response =>
        .ite (.throw_bind _ _ _) (.ite ?_ ?_))
      · rw [hopRequest_withToken]
        rfl
      · split
        · next e he =>
            split
            · next e' he' =>
                obtain rfl : e = e' := Except.error.inj (he.symm.trans he')
                exact .throw _
            · next next' he' => cases he.symm.trans he'
        · next next he =>
            split
            · next e' he' => cases he.symm.trans he'
            · next next' he' =>
                obtain rfl : next = next' := Except.ok.inj (he.symm.trans he')
                have hlt := hops_lt_of_redirectTarget he
                exact ih _ (by omega) _ _ rfl
      · rw [finish_withToken]
        rfl

theorem renames_send (method : String) (url : Url) (body : Option (List UInt8)) :
    Renames (anotherHop k) (t.send method url body) ((t.withToken k).send method url body) :=
  renames_sendFrom k t method body 0 url

end Transport

end Http

/-! ## Both levels -/

section Key

variable [Http.UrlMessages] [Http.UrlParts] [UrlLibrary] [IconDecoder] {σ W : Type*}

attribute [local instance] safeEndpoints

end Key

section Refused

open scoped Http.Site

attribute [local instance] safeEndpoints noIcons

/-- A wire on which no time passes and no one answers. -/
def deadWire : Setting Http.HopOp Http.HopOp.Ans Unit where
  act
    | .elapsed, _, r, _ => r = (0 : ℕ)
    | .request _, _, r, _ => r = .error .cancelled
  env _ _ := False

theorem runs_deadWire : deadWire.Runs ((Http.site.send "GET" Http.site.origin none).run, ())
    [⟨.elapsed, (0 : ℕ)⟩, ⟨.request ⟨"GET", Http.site.origin, some "secret", none⟩,
      .error .cancelled⟩] (.done (.error .cancelled), ()) := by
  have helapsed : deadWire.act .elapsed () (0 : ℕ) () := rfl
  have hrequest (r : Http.HopRequest) : deadWire.act (.request r) () (.error .cancelled) () := rfl
  unfold Http.Transport.send
  rw [Http.Transport.sendFrom]
  exact .call helapsed (.call (hrequest _) .refl)

end Refused

end Vuo
