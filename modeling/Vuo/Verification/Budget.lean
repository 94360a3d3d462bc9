import Mathlib.Algebra.Group.Action.Defs
import Mathlib.Algebra.Order.BigOperators.Group.List
import Mathlib.Algebra.Order.Ring.Nat
import Vuo.Foundation.Budget
import Vuo.Verification.Calls
import Vuo.Verification.Pass
import Vuo.Verification.Replay.Requests

/-!
# What a pass may cost

However the server answers, a pass makes a bounded number of requests: two for
each batch of the outbox, and after the replay a number that the options fix.
-/

namespace Vuo

open Foundation Program MinifluxClient

/-! ## The number of batches -/

namespace Outbox

theorem length_chunks_le {α : Type*} {size : ℕ} (hsize : 0 < size) (xs : List α) :
    (chunks size xs).length ≤ xs.length / size + 1 := by
  have hfull : ∀ c ∈ (chunks size xs).dropLast, c.length = size := fun c hc =>
    length_of_mem_dropLast_chunks hsize hc
  have hsum : ((chunks size xs).dropLast.map List.length).sum =
      ((chunks size xs).length - 1) * size := by
    rw [List.map_congr_left hfull, List.map_const', List.sum_replicate, List.length_dropLast,
      smul_eq_mul]
  have hle : ((chunks size xs).dropLast.map List.length).sum ≤ xs.length := by
    conv_rhs => rw [← chunks_flatten size xs, List.length_flatten]
    exact ((List.dropLast_sublist _).map _).sum_le_sum (by simp)
  rw [hsum] at hle
  have hdiv := (Nat.le_div_iff_mul_le hsize).2 hle
  omega

theorem length_batches_le (l : List PendingMutation) :
    (batches l).length ≤ l.length / maxIdsPerRequest + 4 := by
  have hcount : (l.countP fun item => item.value = .status .unread) +
      (l.countP fun item => item.value = .status .read) +
      (l.countP fun item => item.value = .starred false) +
      (l.countP fun item => item.value = .starred true) = l.length := by
    induction l with
    | nil => rfl
    | cons item l ih =>
        simp only [List.countP_cons, List.length_cons]
        obtain ⟨id, (_ | _) | (_ | _), attempts⟩ := item <;> simp <;> omega
  have hvalue : ∀ v, ((chunks maxIdsPerRequest (idsOf v l)).map fun ids =>
      ({ value := v, entryIds := ids } : Batch)).length ≤
        (l.countP fun item => item.value = v) / maxIdsPerRequest + 1 := by
    intro v
    have hlimit : 0 < maxIdsPerRequest := by decide
    have hle := length_chunks_le hlimit (idsOf v l)
    have hids : (idsOf v l).length = l.countP fun item => item.value = v := by
      rw [idsOf, List.length_map, List.countP_eq_length_filter]
    rwa [List.length_map, ← hids]
  have h₁ := hvalue (.status .unread)
  have h₂ := hvalue (.status .read)
  have h₃ := hvalue (.starred false)
  have h₄ := hvalue (.starred true)
  have hlength : (batches l).length = _ := List.length_flatMap
  simp only [DesiredValue.all, List.map_cons, List.map_nil, List.sum_cons, List.sum_nil] at hlength
  simp only [idsOf, maxIdsPerRequest] at *
  omega

end Outbox

/-! ## Requests counted -/

/-- Requests are what is counted. -/
def Op.sends : Op → Bool
  | .send _ _ => true
  | _ => false

/-- An outbox that was read holds at most `n` intents, and of the feeds without
an icon no more are read than were asked for. -/
def Queued (n : ℕ) : (op : Op) → op.Ans → Prop
  | .query .pending, r => ∀ l : List PendingMutation, r = .ok l → l.length ≤ n
  | .query (.feedsMissingIcons limit), r =>
      ∀ l : List (FeedId × IconId), r = .ok l → l.length ≤ limit.toNat
  | _, _ => True

variable {n : ℕ}

/-- A program that makes no request. -/
abbrev Silent {α : Type} (p : Action α) : Prop :=
  CallsE (fun op => op.sends = false) p

theorem atMost_zero {α : Type} {p : Action α} (h : Silent p) :
    AtMostE (Queued n) Op.sends p 0 := by
  have hrun : ∀ p : Program Op Op.Ans (Except Error α), p.Calls (fun op => op.sends = false) →
      p.AtMost (Queued n) Op.sends 0 := by
    intro p hp
    induction p with
    | done a => trivial
    | call op next ih => exact atMost_free hp.1 fun r _ => ih r (hp.2 r)
  exact hrun _ h

namespace Action

theorem silent_query (q : Query) : Silent (query q) :=
  ⟨rfl, fun _ => trivial⟩

theorem silent_withTx (body : Transaction) : Silent (withTx body) :=
  ⟨rfl, fun _ => trivial⟩

theorem silent_now : Silent now :=
  ⟨rfl, fun _ => trivial⟩

theorem silent_knownVersion (cell : ℕ) : Silent (knownVersion cell) :=
  ⟨rfl, fun _ => trivial⟩

theorem silent_rememberVersion (cell : ℕ) (version : ServerVersion) :
    Silent (rememberVersion cell version) :=
  ⟨rfl, fun _ => trivial⟩

end Action

open Vuo.Action

section Cost

variable [Endpoints] (client : MinifluxClient)

namespace MinifluxClient

theorem atMost_getJson (request : Request) :
    AtMostE (Queued n) Op.sends (client.getJson request) 1 := by
  refine AtMostE.bind (m := 1) (n := 0) (atMost_counted rfl fun _ _ => trivial) fun response => ?_
  exact atMost_zero trivial

theorem atMost_version : AtMostE (Queued n) Op.sends client.version 1 := by
  refine AtMostE.bind (n := 0) (client.atMost_getJson .version) fun w => ?_
  exact atMost_zero ((silent_rememberVersion _ _).bind fun _ => .pure _)

/-- An entry-state write and the probe before it. -/
theorem atMost_updateEntries (ids : List EntryId) (mutation : EntryMutation) :
    AtMostE (Queued n) Op.sends (client.updateEntries ids mutation) 2 := by
  have hcapable : AtMostE (Queued n) Op.sends client.writeCapableVersion 1 := by
    refine AtMostE.after (atMost_zero (silent_knownVersion _)) ?_
    rintro (_ | v)
    · exact client.atMost_version
    · exact .pure v 1
  have hrefuse : AtMostE (Queued n) Op.sends client.refuseEntryWritesBeforeFloor 1 := by
    refine hcapable.bind (n := 0) fun v => ?_
    split
    · exact .pure _ _
    · exact .throw _ _
  unfold updateEntries
  split
  · exact .throw _ _
  · refine hrefuse.bind (n := 1) fun _ => ?_
    exact AtMostE.bind (m := 1) (n := 0) (atMost_counted rfl fun _ _ => trivial) fun _ =>
      atMost_zero trivial

theorem atMost_entries (query : EntriesQuery) :
    AtMostE (Queued n) Op.sends (client.entries query) 1 := by
  refine AtMostE.bind (m := 1) (n := 0) (atMost_counted rfl fun _ _ => trivial) fun response => ?_
  exact atMost_zero (CallsE.bind (by exact trivial) fun _ => .pure _)

end MinifluxClient

omit [Endpoints] in
/-- A transaction makes no request. -/
theorem atMost_withTx (body : Transaction) :
    AtMostE (Queued n) Op.sends (Action.withTx body) 0 :=
  atMost_zero (silent_withTx body)

/-! ### The replay -/

theorem Replay.atMost_flushBatches (batches : List Batch) (outcome : ReplayOutcome) :
    AtMostE (Queued n) Op.sends (flushBatches client batches outcome) (2 * batches.length) := by
  induction batches generalizing outcome with
  | nil => exact .pure _ _
  | cons b bs ih =>
      have hlength : 2 * (b :: bs).length = 2 + 2 * bs.length := by
        rw [List.length_cons]
        omega
      rw [hlength]
      refine (client.atMost_updateEntries _ _).attempt.bind ?_
      rintro (e | u)
      · dsimp only
        split
        · exact (atMost_withTx _).after fun _ => .pure _ _
        · split
          · exact (atMost_withTx _).after fun _ => ih _
          · exact (atMost_withTx _).after fun _ => ih _
      · exact (atMost_withTx _).after fun _ => ih _

/-- The requests a replay of `n` intents may take. -/
def Replay.budget (n : ℕ) : ℕ :=
  2 * (n / Outbox.maxIdsPerRequest + 4)

theorem Replay.atMost_flush : AtMostE (Queued n) Op.sends (flush client) (budget n) := by
  refine atMost_free rfl fun r hr => ?_
  cases r with
  | error e => trivial
  | ok pending =>
      have hle := Outbox.length_batches_le pending
      have hdiv := Nat.div_le_div_right (c := Outbox.maxIdsPerRequest) (hr pending rfl)
      exact AtMostE.mono (atMost_flushBatches client _ _) (by unfold budget; omega)

/-! ### The pull -/

namespace Pull

theorem atMost_taxonomy [UrlLibrary] (generation : ℤ) :
    AtMostE (Queued n) Op.sends (taxonomy client generation) 2 := by
  refine (client.atMost_getJson _).bind (n := 1) fun _ =>
    (client.atMost_getJson _).bind (n := 0) fun _ => ?_
  refine atMost_zero ((silent_withTx _).bind fun _ => (silent_query _).bind fun _ => ?_)
  split
  · exact .pure _
  · dsimp only
    split
    · exact .pure _
    · exact (silent_withTx _).bind fun _ => .pure _

/-- A request for each page the cap allows. -/
theorem atMost_entriesPages [UrlLibrary] (cursor : Option ℤ) (generation : ℤ) (budget : ℕ)
    (after : Option EntryId) (serverNow : Option ℤ) (outcome : PullOutcome) :
    AtMostE (Queued n) Op.sends
      (entriesPages client cursor generation budget after serverNow outcome) budget := by
  induction budget generalizing after serverNow outcome with
  | zero => exact .pure _ _
  | succ budget ih =>
      refine AtMostE.mono (m := 1 + budget)
        (AtMostE.bind (client.atMost_entries _) fun answer => ?_) (by omega)
      refine (atMost_withTx _).after fun _ => ?_
      split
      · exact .pure _ _
      · split
        · split
          · exact ih _ _ _
          · exact .pure _ _
        · exact .pure _ _

theorem atMost_entries [UrlLibrary] (cursor : Option ℤ) (generation : ℤ) :
    AtMostE (Queued n) Op.sends (entries client cursor generation) maxPagesPerPass := by
  refine AtMostE.bind (n := 0) (atMost_entriesPages client cursor generation _ _ _ _) ?_
  rintro ⟨outcome, serverNow, complete⟩
  refine atMost_zero ?_
  dsimp only
  split
  · split
    · exact .pure _
    · exact silent_now.bind fun _ => .pure _
  · exact .pure _

/-- The pages of the deletion listing, one more than fit below its limit. -/
def listingPages : ℕ :=
  reconcileLimit / reconcilePage + 1

theorem atMost_reconcilePages (offset : ℕ) (total : Option ℤ) (seen : List ℤ) (left : ℕ)
    (hleft : reconcileLimit < offset + (left + 1) * reconcilePage) :
    AtMostE (Queued n) Op.sends (reconcilePages client offset total seen) (left + 1) := by
  induction left generalizing offset total seen with
  | zero =>
      rw [reconcilePages]
      refine AtMostE.bind (m := 1) (n := 0) (client.atMost_getJson _) fun page => ?_
      dsimp only
      by_cases hshort : page.entryIds.length < reconcilePage
      · rw [if_pos hshort]
        exact .pure _ _
      · rw [if_neg hshort]
        have hlimit : reconcileLimit < offset + reconcilePage := by omega
        rw [dif_pos hlimit]
        exact .pure _ _
  | succ left ih =>
      rw [reconcilePages]
      refine AtMostE.mono (m := 1 + (left + 1))
        (AtMostE.bind (client.atMost_getJson _) fun page => ?_) (by omega)
      dsimp only
      by_cases hshort : page.entryIds.length < reconcilePage
      · rw [if_pos hshort]
        exact .pure _ _
      · rw [if_neg hshort]
        rw [AtMostE.dite_iff]
        refine ⟨fun _ => .pure _ _, fun _ => ih _ _ _ ?_⟩
        simp only [reconcilePage] at *
        omega

theorem atMost_reconcile : AtMostE (Queued n) Op.sends (reconcile client) listingPages := by
  refine AtMostE.bind (n := 0) (atMost_reconcilePages client 0 none [] _ (by decide)) ?_
  rintro (_ | ⟨total, seen⟩)
  · exact .pure _ _
  · refine atMost_zero ?_
    rw [deleteUnlisted]
    split
    · refine (silent_query _).bind fun localIds => ?_
      dsimp only
      split
      · exact .pure _
      · exact (silent_withTx _).bind fun _ => .pure _
    · exact .pure _

end Pull

/-! ### A whole pass -/

namespace Sync

theorem atMost_resolveVersion (state : SyncState) (now ttl : ℤ) :
    AtMostE (Queued n) Op.sends (resolveVersion client state now ttl) 1 := by
  unfold resolveVersion
  cases cachedVersion state now ttl with
  | some version => exact .pure _ _
  | none =>
      refine client.atMost_version.attempt.bind (n := 0) ?_
      rintro (e | version)
      · exact .pure _ _
      · exact .pure _ _

theorem atMost_reconcileStep (state : SyncState) (version : ServerVersion) (now interval : ℤ) :
    AtMostE (Queued n) Op.sends (reconcileStep client state version now interval)
      (1 + Pull.listingPages) := by
  have hdivergence (worthAsking : Bool) :
      AtMostE (Queued n) Op.sends (divergenceStep client worthAsking) 1 := by
    unfold divergenceStep
    split
    · have hfeeds : AtMostE (Queued n) Op.sends (Pull.divergingFeeds client) 1 :=
        AtMostE.bind (n := 0) (client.atMost_getJson .counters) fun _ =>
          atMost_zero ((silent_query _).bind fun _ => .pure _)
      refine hfeeds.attempt.bind (n := 0) ?_
      rintro (e | feeds)
      · exact .pure _ _
      · exact .pure _ _
    · exact .pure _ _
  unfold reconcileStep
  refine (hdivergence _).bind fun diverging => ?_
  split
  · exact Pull.atMost_reconcile client
  · exact .pure _ _

variable [IconDecoder]

theorem atMost_fetchIconsFor (wanted : List (FeedId × IconId)) (fetched : ℕ) :
    AtMostE (Queued n) Op.sends (fetchIconsFor client wanted fetched) wanted.length := by
  induction wanted generalizing fetched with
  | nil => exact .pure _ _
  | cons pair wanted ih =>
      refine AtMostE.mono (m := 1 + wanted.length)
        (AtMostE.bind (client.atMost_getJson _).attempt ?_) (by simp; omega)
      rintro (e | wire)
      · exact (atMost_withTx _).after fun _ => ih _
      · dsimp only
        split
        · exact (atMost_withTx _).after fun _ => ih _
        · exact (atMost_withTx _).after fun _ => ih _

theorem atMost_fetchIcons (limit : ℤ) :
    AtMostE (Queued n) Op.sends (fetchIcons client limit) limit.toNat := by
  unfold fetchIcons
  split
  · exact .pure _ _
  · refine atMost_free rfl fun r hr => ?_
    cases r with
    | error e => trivial
    | ok wanted => exact AtMostE.mono (atMost_fetchIconsFor client wanted 0) (hr wanted rfl)

/-- The requests of a pass after its replay: the version, the two listings, the
pages, the counters and the listing of ids, and the icons. -/
def pullBudget (options : SyncOptions) : ℕ :=
  1 + (2 + (Pull.maxPagesPerPass + (1 + Pull.listingPages + options.iconsPerPass.toNat)))

theorem atMost_afterReplay [UrlLibrary] (options : SyncOptions) (state : SyncState) (now : ℤ)
    (replay : ReplayOutcome) :
    AtMostE (Queued n) Op.sends (afterReplay client options state now replay)
      (pullBudget options) := by
  refine (atMost_resolveVersion client _ _ _).bind fun version => ?_
  refine (Pull.atMost_taxonomy client _).bind fun _ => ?_
  refine (Pull.atMost_entries client _ _).bind fun pull => ?_
  refine (atMost_reconcileStep client _ _ _ _).bind fun reconcile => ?_
  refine (atMost_fetchIcons client _).bind (n := 0) fun icons => ?_
  have hprune : Silent (pruneStep options now) := by
    unfold pruneStep
    split
    · exact silent_withTx _
    · exact .pure _
  exact atMost_zero (hprune.bind fun _ => (silent_withTx _).bind fun _ => .pure _)

theorem atMost_sync [UrlLibrary] (options : SyncOptions) :
    AtMostE (Queued n) Op.sends (sync client options)
      (Replay.budget n + pullBudget options) := by
  refine AtMostE.after (atMost_zero (silent_query _)) fun state =>
    AtMostE.after (atMost_zero silent_now) fun now => ?_
  have hreplay : AtMostE (Queued n) Op.sends (replayStep client options) (Replay.budget n) := by
    unfold replayStep
    split
    · exact .pure _ _
    · exact Replay.atMost_flush client
  refine hreplay.bind fun replay => ?_
  split
  · exact .pure _ _
  · exact atMost_afterReplay client options _ _ _

/-- The intents a read of the outbox found. -/
def intentsOf : (op : Op) × op.Ans → ℕ
  | ⟨.query .pending, .ok l⟩ => List.length (α := PendingMutation) l
  | _ => 0

/-- The most intents any read of a run found. -/
def intentsRead (log : Log Op Op.Ans) : ℕ :=
  (log.map intentsOf).foldr max 0

omit [Endpoints] [IconDecoder] in
theorem intentsOf_le {log : Log Op Op.Ans} {x : (op : Op) × op.Ans} (h : x ∈ log) :
    intentsOf x ≤ intentsRead log := by
  induction log with
  | nil => cases h
  | cons y log ih =>
      rcases List.mem_cons.1 h with rfl | h
      · exact Nat.le_max_left _ _
      · exact (ih h).trans (Nat.le_max_right _ _)

/-- However the server answers and whatever else happens, a pass makes at most
two requests for each five hundred intents it read, and a number that its
options fix. -/
theorem requests_bounded [UrlLibrary] {σ : Type*} {O : Outside σ} (options : SyncOptions)
    {w : World σ} {log : Log Op Op.Ans}
    {c : Program Op Op.Ans (Except Error SyncReport) × World σ}
    (hrun : O.setting.Runs ((sync client options).run, w) log c) :
    log.countP (fun x => x.1.sends) ≤ Replay.budget (intentsRead log) + pullBudget options := by
  refine AtMost.count_le (atMost_sync client options) hrun ?_
  rintro ⟨op, r⟩ hx
  obtain ⟨w₁, w₂, hact⟩ := hrun.act_of_mem hx
  cases op with
  | query q =>
      cases q with
      | pending =>
          rintro l rfl
          exact intentsOf_le hx
      | feedsMissingIcons limit =>
          rintro l rfl
          obtain ⟨-, hr | ⟨m, hr⟩⟩ := Outside.act_query hact
          · cases hr
            exact List.length_take_le _ _
          · cases hr
      | _ => trivial
  | _ => trivial

end Sync

end Cost

section Refusing

open scoped Reader

/-- The credentials are refused. -/
def refusal (request : Request) : Answer request :=
  .ok { status := 401, body := .error (1, 0), errorMessage := none, serverDate := none }

/-- A server that refuses whatever it is asked. -/
def refusing : Outside Unit where
  send _ request _ r _ := r = refusal request
  now _ _ _ := True
  commit _ _ o := o
  env _ _ := False

/-- A pass over an empty mirror asks for the version, then for the categories. -/
def refusedLog (time : DateTime) : Log Op Op.Ans :=
  [⟨.query .syncState, .ok (Query.run .syncState Db.empty)⟩, ⟨.now, time⟩,
    ⟨.query .pending, .ok []⟩, ⟨.send readerTransport .version, refusal .version⟩,
    ⟨.send readerTransport .categories, refusal .categories⟩]

theorem act_refusing (request : Request) (w : World Unit) :
    refusing.setting.act (.send readerTransport request) w (refusal request) w :=
  ⟨(), rfl, rfl⟩

/-- Two requests, of the hundreds the options allow. -/
theorem Sync.requests_bounded_refused :
    2 ≤ Replay.budget 0 + Sync.pullBudget withoutIcons := by
  let w : World Unit := ⟨Db.empty, fun _ => none, ()⟩
  let time := secondsAfter 100 (by decide)
  let e : Error := .http 401 (Endpoints.endpoint readerTransport .categories) none
  have hrun : refusing.setting.Runs ((Sync.sync readerClient withoutIcons).run, w)
      (refusedLog time) (.done (.error e), w) :=
    .call (Outside.act_query_ok .syncState w) (.call (Outside.act_now_of trivial)
      (.call (Outside.act_query_ok .pending w) (.call (act_refusing .version w)
        (.call (act_refusing .categories w) .refl))))
  exact Sync.requests_bounded readerClient withoutIcons hrun

end Refusing

end Vuo
