import Vuo.Model.Shim.Worker
import Vuo.Verification.Calls
import Vuo.Verification.Mirror.Visible
import Vuo.Verification.Pass
import Vuo.Verification.Shim.Reloads

/-!
# Visible changes are announced

The transactions a command of the worker commits are put on record, each with
the mirror it found. A pass says afterwards that it changed the mirror by what
it counted; the record tells what it counted from what it did.
-/

namespace Vuo.Shim

open Foundation Vuo.Action
open Program (CallsE)

/-! ## The record -/

/-- A transaction the worker committed, and the mirror it found. -/
structure Write where
  body : Transaction
  db : Db

/-- Answers of any kind, and a reader who writes whatever the reader writes in
between. -/
def ledger : Outside (List Write) where
  send _ _ o _ o' := o' = o
  now o _ o' := o' = o
  commit body db o := o ++ [⟨body, db⟩]
  env w w' := w'.outside = w.outside

/-- The statements that raise one of the counts a pass is judged by. -/
def counted (db : Db) : Statement → Bool
  | .upsertEntry .. | .deleteEntry _ | .upsertIcon _ => true
  | .confirm batch => 0 < (Outbox.confirm batch db).1
  | _ => false

namespace Write

/-- The pages would show something else afterwards. -/
def Changes (x : Write) : Prop :=
  ¬SameShown x.db (x.body.exec x.db)

def Counted (x : Write) : Prop :=
  ∃ s ∈ x.body, counted x.db s = true

/-- The bookkeeping, the last that a pass writes. -/
def Completes (x : Write) : Prop :=
  ∃ state, x.body = [.setSyncState state]

end Write

theorem stable_record {P : List Write → Prop} : ledger.setting.Stable fun w => P w.outside := by
  intro w w' henv hw
  have hsame : w'.outside = w.outside := henv
  rwa [hsame]

/-! ## Commands that change nothing unless they say so -/

/-- Nothing on record shows. -/
def Still (log : List Write) : Prop :=
  ∀ x ∈ log, ¬x.Changes

theorem still_append {log : List Write} {body : Transaction} {db : Db} (h : Still log)
    (hbody : ∀ s ∈ body, s.unseen = true) : Still (log ++ [⟨body, db⟩]) := by
  intro x hx
  rcases List.mem_append.1 hx with hx | hx
  · exact h x hx
  · obtain rfl := List.mem_singleton.1 hx
    exact fun hchanges => hchanges (sameShown_exec hbody db)

/-- A command that says the mirror changed, or shows nothing new. -/
def Honest (changed : Bool) (w : World (List Write)) : Prop :=
  changed = false → Still w.outside

theorem stable_honest (changed : Bool) : ledger.setting.Stable (Honest changed) :=
  @stable_record fun log => changed = false → Still log

theorem stable_never : ledger.setting.Stable fun _ => False :=
  Setting.stable_const False

theorem honest_true (w : World (List Write)) : Honest true w :=
  fun h => by cases h

section Commands

variable [Endpoints] {client : MinifluxClient} {w : World (List Write)}

omit [Endpoints] in
theorem wpe_still {α : Type} {p : Action α}
    (hp : CallsE (Op.Commits fun s => s.unseen = true) p) (hw : Still w.outside) :
    ledger.setting.wpe Outside.noPromise p (fun _ w => Still w.outside)
      (fun _ w => Still w.outside) w := by
  refine Setting.wpe_of_calls stable_record ?_ hp hw
  intro op hop w r w' hact hstill
  refine ⟨trivial, ?_⟩
  cases op with
  | transact body =>
      obtain ⟨-, rfl⟩ | ⟨-, rfl⟩ := Outside.act_transact hact
      · exact still_append hstill hop
      · exact hstill
  | send t request =>
      obtain ⟨o, rfl, rfl⟩ := Outside.act_send hact
      exact hstill
  | query q =>
      obtain ⟨rfl, -⟩ := Outside.act_query hact
      exact hstill
  | now =>
      obtain ⟨o, rfl, rfl⟩ := hact
      exact hstill
  | knownVersion cell =>
      obtain ⟨-, rfl⟩ := hact
      exact hstill
  | rememberVersion cell version =>
      cases hact
      exact hstill

theorem commits_getJson {A : Statement → Prop} (request : Request) :
    CallsE (Op.Commits A) (client.getJson request) := by
  have hsend : CallsE (Op.Commits A) (send client.transport request) :=
    ⟨trivial, fun _ => trivial⟩
  exact hsend.bind fun _ => commits_of_reads (calls_ofResult _)

theorem commits_sendForStatus {A : Statement → Prop} (request : Request) :
    CallsE (Op.Commits A) (client.sendForStatus request) := by
  have hsend : CallsE (Op.Commits A) (send client.transport request) :=
    ⟨trivial, fun _ => trivial⟩
  exact hsend.bind fun _ => commits_of_reads (calls_ofResult _)

omit [Endpoints] in
/-- A program attempted, and what is made of its outcome. -/
theorem wpe_attempt_still {α : Type} {p : Action α} {next : Except Error α → Action Bool}
    (hp : CallsE (Op.Commits fun s => s.unseen = true) p) (hw : Still w.outside)
    (hnext : ∀ r w, Still w.outside →
      ledger.setting.wpe Outside.noPromise (next r) Honest (fun _ _ => False) w) :
    ledger.setting.wpe Outside.noPromise (attempt p >>= next) Honest (fun _ _ => False) w :=
  Setting.wpe_bind (fun _ => stable_never) (Setting.wpe_attempt (Setting.wpe_mono
    (fun a w h => hnext (.ok a) w h) (fun e w h => hnext (.error e) w h) (wpe_still hp hw)))

omit [Endpoints] in
/-- A transaction whose success is the command's answer. -/
theorem wpe_withTx_honest (body : Transaction) (hw : Still w.outside) :
    ledger.setting.wpe Outside.noPromise
      (attempt (withTx body) >>= fun r => (pure (isOk r) : Action Bool)) Honest
      (fun _ _ => False) w := by
  refine Setting.wpe_bind (fun _ => stable_never) (Setting.wpe_attempt
    (Outside.wpe_withTx (P := fun w => Still w.outside) stable_record hw
      (fun _ => Setting.wpe_stable _) (fun _ => Setting.wpe_stable _) ?_ ?_))
  · intro w _
    exact ⟨trivial, Setting.wpe_pure (stable_honest _) (honest_true _)⟩
  · intro m w hstill
    exact ⟨trivial, Setting.wpe_pure (stable_honest _) fun _ => hstill⟩

theorem wpe_thenWrite (request : Request) (body : Transaction) (hw : Still w.outside) :
    ledger.setting.wpe Outside.noPromise (thenWrite (client.sendForStatus request) body) Honest
      (fun _ _ => False) w := by
  refine wpe_attempt_still (commits_sendForStatus request) hw ?_
  rintro (e | u) w₁ h₁
  · exact Setting.wpe_pure (stable_honest _) fun _ => h₁
  · exact wpe_withTx_honest body h₁

theorem wpe_fetchOriginal (id : EntryId) (hw : Still w.outside) :
    ledger.setting.wpe Outside.noPromise (fetchOriginal client id) Honest
      (fun _ _ => False) w := by
  refine wpe_attempt_still (commits_getJson _) hw ?_
  rintro (e | content) w₁ h₁
  · exact Setting.wpe_pure (stable_honest _) fun _ => h₁
  · refine wpe_attempt_still (commits_of_reads (calls_query _)) h₁ fun previous w₂ h₂ => ?_
    split
    · exact wpe_withTx_honest _ h₂
    · exact Setting.wpe_pure (stable_honest _) fun _ => h₂

theorem wpe_flushOutbox (hw : Still w.outside) :
    ledger.setting.wpe Outside.noPromise
      (attempt (Replay.flush client) >>= fun r => (pure (flushChanged r) : Action Bool)) Honest
      (fun _ _ => False) w :=
  wpe_attempt_still (Replay.calls_flush client (fun _ => rfl) (fun _ => rfl) fun _ _ => rfl) hw
    fun _ _ hstill => Setting.wpe_pure (stable_honest _) fun _ => hstill

end Commands

/-! ## What a pass counts -/

/-- A pass under way, which has counted something exactly if `h`. -/
structure Tally (h : Prop) (w : World (List Write)) : Prop where
  unfinished : ∀ x ∈ w.outside, ¬x.Completes
  counted : (∃ x ∈ w.outside, x.Counted) ↔ h

/-- Where a pass fails. -/
def Unfinished (w : World (List Write)) : Prop :=
  ∀ x ∈ w.outside, ¬x.Completes

theorem stable_tally (h : Prop) : ledger.setting.Stable (Tally h) := by
  intro w w' henv hw
  have hsame : w'.outside = w.outside := henv
  exact ⟨by simpa [hsame] using hw.unfinished, by simpa [hsame] using hw.counted⟩

theorem stable_unfinished : ledger.setting.Stable Unfinished :=
  @stable_record fun log => ∀ x ∈ log, ¬x.Completes

/-- What neither raises a count nor ends a pass. -/
def Uncounted (s : Statement) : Prop :=
  (∀ db, counted db s = false) ∧ ∀ state, s ≠ .setSyncState state

section Tally

variable {h k : Prop} {w : World (List Write)}

theorem Tally.congr (hw : Tally h w) (hiff : h ↔ k) : Tally k w :=
  ⟨hw.unfinished, hw.counted.trans hiff⟩

theorem Tally.commit {body : Transaction} (hw : Tally h w)
    (hopen : ∀ state, body ≠ [.setSyncState state])
    (hk : (⟨body, w.db⟩ : Write).Counted ↔ k) : Tally (h ∨ k) (ledger.commitTo body w) := by
  have hlog : (ledger.commitTo body w).outside = w.outside ++ [⟨body, w.db⟩] := rfl
  constructor
  · intro x hx
    rw [hlog, List.mem_append, List.mem_singleton] at hx
    rcases hx with hx | rfl
    · exact hw.unfinished x hx
    · rintro ⟨state, hbody⟩
      exact hopen state hbody
  · rw [hlog, ← hw.counted, ← hk]
    simp only [List.mem_append, List.mem_singleton, or_and_right, exists_or, exists_eq_left]

theorem Tally.commit_uncounted {body : Transaction} (hw : Tally h w)
    (hbody : ∀ s ∈ body, Uncounted s) : Tally h (ledger.commitTo body w) := by
  refine (hw.commit (k := False) ?_ ?_).congr (by simp)
  · rintro state rfl
    exact (hbody _ (List.mem_singleton_self _)).2 state rfl
  · simp only [iff_false]
    rintro ⟨s, hs, hcounted⟩
    rw [(hbody s hs).1] at hcounted
    cases hcounted

theorem wpe_uncounted {α : Type} {p : Action α} (hp : CallsE (Op.Commits Uncounted) p)
    (hw : Tally h w) :
    ledger.setting.wpe Outside.noPromise p (fun _ => Tally h) (fun _ => Tally h) w := by
  refine Setting.wpe_of_calls (stable_tally h) ?_ hp hw
  intro op hop w r w' hact htally
  refine ⟨trivial, ?_⟩
  have hsame : w'.outside = w.outside → Tally h w' := by
    intro hsame
    exact ⟨by simpa [hsame] using htally.unfinished, by simpa [hsame] using htally.counted⟩
  cases op with
  | transact body =>
      obtain ⟨-, rfl⟩ | ⟨-, rfl⟩ := Outside.act_transact hact
      · exact htally.commit_uncounted hop
      · exact htally
  | send t request =>
      obtain ⟨o, rfl, rfl⟩ := Outside.act_send hact
      exact hsame rfl
  | query q =>
      obtain ⟨rfl, -⟩ := Outside.act_query hact
      exact htally
  | now =>
      obtain ⟨o, rfl, rfl⟩ := hact
      exact hsame rfl
  | knownVersion cell =>
      obtain ⟨-, rfl⟩ := hact
      exact htally
  | rememberVersion cell version =>
      cases hact
      exact hsame rfl

variable {α β : Type} {Q : β → World (List Write) → Prop}

/-- A step that counts nothing, and what follows it. -/
theorem wpe_uncounted_then {p : Action α} {next : α → Action β}
    (hp : CallsE (Op.Commits Uncounted) p) (hw : Tally h w)
    (hnext : ∀ a w, Tally h w →
      ledger.setting.wpe Outside.noPromise (next a) Q (fun _ => Unfinished) w) :
    ledger.setting.wpe Outside.noPromise (p >>= next) Q (fun _ => Unfinished) w :=
  Setting.wpe_bind (fun _ => stable_unfinished) (Setting.wpe_mono hnext
    (fun _ _ he => he.unfinished) (wpe_uncounted hp hw))

/-- A transaction, by the count it answers, and what follows it. -/
theorem wpe_counted_then {body : Transaction} {next : ℕ → Action β} (c : ℕ → Prop)
    (hopen : ∀ state, body ≠ [.setSyncState state])
    (hc : ∀ db, (⟨body, db⟩ : Write).Counted ↔ c (body.run db).1) (hw : Tally h w)
    (hnext : ∀ n w, Tally (h ∨ c n) w →
      ledger.setting.wpe Outside.noPromise (next n) Q (fun _ => Unfinished) w) :
    ledger.setting.wpe Outside.noPromise (withTx body >>= next) Q (fun _ => Unfinished) w := by
  refine Setting.wpe_bind (fun _ => stable_unfinished) (Outside.wpe_withTx (stable_tally h) hw
    (fun _ => Setting.wpe_stable _) (fun _ => stable_unfinished) ?_ ?_)
  · intro w hw
    exact ⟨trivial, hnext _ _ (hw.commit hopen (hc w.db))⟩
  · intro m w hw
    exact ⟨trivial, hw.unfinished⟩

end Tally

section Pass

variable [UrlLibrary] [Endpoints] [IconDecoder] {client : MinifluxClient} {h : Prop}
  {w : World (List Write)}

omit [UrlLibrary] [IconDecoder] in
theorem wpe_flushBatches (batches : List Batch) (outcome : ReplayOutcome)
    (hw : Tally (0 < outcome.confirmed) w) :
    ledger.setting.wpe Outside.noPromise (Replay.flushBatches client batches outcome)
      (fun outcome => Tally (0 < outcome.confirmed)) (fun _ => Unfinished) w := by
  induction batches generalizing outcome w with
  | nil => exact Setting.wpe_pure (stable_tally _) hw
  | cons b bs ih =>
      have hrecord (error : String) : CallsE (Op.Commits Uncounted)
          (withTx [.recordFailure b error]) := by
        refine commits_of_reads (calls_withTx ?_)
        simp [Uncounted, counted]
      have hdiscard : CallsE (Op.Commits Uncounted) (withTx [.discard b]) := by
        refine commits_of_reads (calls_withTx ?_)
        simp [Uncounted, counted]
      refine wpe_uncounted_then (client.calls_updateEntries _ _).attempt hw ?_
      rintro (e | u) w₁ h₁
      · dsimp only
        split
        · exact wpe_uncounted_then (hrecord _) h₁ fun _ w₂ h₂ =>
            Setting.wpe_pure (stable_tally _) h₂
        · split
          · exact wpe_uncounted_then hdiscard h₁ fun _ w₂ h₂ => ih _ h₂
          · exact wpe_uncounted_then (hrecord _) h₁ fun _ w₂ h₂ => ih _ h₂
      · refine wpe_counted_then (fun n => 0 < n) (by simp) ?_ h₁ fun n w₂ h₂ => ih _ (h₂.congr ?_)
        · intro db
          simp [Write.Counted, counted, Transaction.run, Statement.run]
        · simp only
          omega

omit [UrlLibrary] [IconDecoder] in
theorem wpe_replayStep (options : SyncOptions) (hw : Tally False w) :
    ledger.setting.wpe Outside.noPromise (Sync.replayStep client options)
      (fun outcome => Tally (0 < outcome.confirmed)) (fun _ => Unfinished) w := by
  have hnone : Tally (0 < ReplayOutcome.default.confirmed) w :=
    hw.congr (by simp [ReplayOutcome.default])
  unfold Sync.replayStep
  split
  · exact Setting.wpe_pure (stable_tally _) hnone
  · exact wpe_uncounted_then (commits_of_reads (calls_query _)) hnone fun pending w₁ h₁ =>
      wpe_flushBatches _ _ h₁

omit [UrlLibrary] [Endpoints] [IconDecoder] in
theorem counted_pageTx (page : Convert.Page) (cursor : Option ℤ) (generation : ℤ) (db : Db) :
    (⟨Pull.pageTx page cursor generation, db⟩ : Write).Counted ↔
      0 < page.valid.length ∨ 0 < page.removed.length := by
  simp [Write.Counted, Pull.pageTx, or_and_right, exists_or, counted,
    List.length_pos_iff_exists_mem]

omit [IconDecoder] in
theorem wpe_entriesPages {cursor : Option ℤ} {generation : ℤ} (budget : ℕ)
    (after : Option EntryId) (serverNow : Option ℤ) (outcome : PullOutcome)
    (hw : Tally (h ∨ 0 < outcome.upserted ∨ 0 < outcome.removed) w) :
    ledger.setting.wpe Outside.noPromise
      (Pull.entriesPages client cursor generation budget after serverNow outcome)
      (fun r => Tally (h ∨ 0 < r.1.upserted ∨ 0 < r.1.removed)) (fun _ => Unfinished) w := by
  induction budget generalizing after serverNow outcome w with
  | zero => exact Setting.wpe_pure (stable_tally _) hw
  | succ budget ih =>
      refine wpe_uncounted_then (commits_of_fetches (client.fetches_entries _)) hw ?_
      rintro ⟨page, date⟩ w₁ h₁
      let decoded := Convert.entries page.entries
      have hopen : ∀ state, Pull.pageTx decoded cursor generation ≠ [.setSyncState state] := by
        intro state heq
        have hmem : Statement.setSyncState state ∈ Pull.pageTx decoded cursor generation := by
          rw [heq]
          exact List.mem_singleton_self _
        simp [Pull.pageTx] at hmem
      refine wpe_counted_then
        (fun _ => 0 < decoded.valid.length ∨ 0 < decoded.removed.length) hopen
        (counted_pageTx decoded cursor generation) h₁ fun n w₂ h₂ => ?_
      have hnext : Tally (h ∨ 0 < outcome.upserted + decoded.valid.length ∨
          0 < outcome.removed + decoded.removed.length) w₂ := by
        refine h₂.congr ?_
        simp only [Nat.add_pos_iff_pos_or_pos]
        tauto
      split
      · exact Setting.wpe_pure (stable_tally _) hnext
      · split
        · split
          · exact ih _ _ _ hnext
          · exact Setting.wpe_pure (stable_tally _) hnext
        · exact Setting.wpe_pure (stable_tally _) hnext

omit [IconDecoder] in
theorem wpe_entries {cursor : Option ℤ} {generation : ℤ} (hw : Tally h w) :
    ledger.setting.wpe Outside.noPromise (Pull.entries client cursor generation)
      (fun outcome => Tally (h ∨ 0 < outcome.upserted ∨ 0 < outcome.removed))
      (fun _ => Unfinished) w := by
  have hnone : Tally (h ∨ 0 < PullOutcome.default.upserted ∨ 0 < PullOutcome.default.removed) w :=
    hw.congr (by simp [PullOutcome.default])
  refine Setting.wpe_bind (fun _ => stable_unfinished) (Setting.wpe_mono ?_ (fun _ _ he => he)
    (wpe_entriesPages _ _ _ _ hnone))
  rintro ⟨outcome, serverNow, complete⟩ w₁ h₁
  dsimp only
  split
  · split
    · exact Setting.wpe_pure (stable_tally _) h₁
    · exact wpe_uncounted_then (commits_of_reads calls_now) h₁ fun _ w₂ h₂ =>
        Setting.wpe_pure (stable_tally _) h₂
  · exact Setting.wpe_pure (stable_tally _) h₁

omit [UrlLibrary] [IconDecoder] in
theorem wpe_reconcile (hw : Tally h w) :
    ledger.setting.wpe Outside.noPromise (Pull.reconcile client)
      (fun r => Tally (h ∨ 0 < r.deleted)) (fun _ => Unfinished) w := by
  refine wpe_uncounted_then
    (commits_of_fetches (Pull.fetches_reconcilePages client 0 none [])) hw ?_
  rintro (_ | ⟨total, seen⟩) w₁ h₁
  · exact Setting.wpe_pure (stable_tally _) (h₁.congr (by simp [Reconcile.aborted]))
  · simp only [Pull.deleteUnlisted]
    split
    · refine wpe_uncounted_then (commits_of_reads (calls_query _)) h₁ fun localIds w₂ h₂ => ?_
      split
      · exact Setting.wpe_pure (stable_tally _) (h₂.congr (by simp))
      · next hstale =>
          have hpos := List.length_pos_iff.2 hstale
          refine wpe_counted_then (fun _ => True) ?_ ?_ h₂ fun _ w₃ h₃ =>
            Setting.wpe_pure (stable_tally _) (h₃.congr (by simp [hpos]))
          · intro state heq
            have hmem := List.mem_singleton_self (Statement.setSyncState state)
            rw [← heq] at hmem
            simp at hmem
          · intro db
            simpa [Write.Counted, counted] using List.exists_mem_of_length_pos hpos
    · exact Setting.wpe_pure (stable_tally _) (h₁.congr (by simp [Reconcile.aborted]))

omit [UrlLibrary] [IconDecoder] in
theorem wpe_reconcileStep (state : SyncState) (version : ServerVersion) (now interval : ℤ)
    (hw : Tally h w) :
    ledger.setting.wpe Outside.noPromise (Sync.reconcileStep client state version now interval)
      (fun r => Tally (h ∨ 0 < r.deleted)) (fun _ => Unfinished) w := by
  refine wpe_uncounted_then (commits_of_fetches (Sync.fetches_divergenceStep client _)) hw
    fun diverging w₁ h₁ => ?_
  split
  · exact wpe_reconcile h₁
  · exact Setting.wpe_pure (stable_tally _) (h₁.congr (by simp [Reconcile.aborted]))

omit [UrlLibrary] in
theorem wpe_fetchIconsFor (wanted : List (FeedId × IconId)) (fetched : ℕ)
    (hw : Tally (h ∨ 0 < fetched) w) :
    ledger.setting.wpe Outside.noPromise (Sync.fetchIconsFor client wanted fetched)
      (fun n => Tally (h ∨ 0 < n)) (fun _ => Unfinished) w := by
  induction wanted generalizing fetched w with
  | nil => exact Setting.wpe_pure (stable_tally _) hw
  | cons pair wanted ih =>
      have hfailure : CallsE (Op.Commits Uncounted) (withTx [.recordIconFailure pair.1]) := by
        refine commits_of_reads (calls_withTx ?_)
        simp [Uncounted, counted]
      refine wpe_uncounted_then (CallsE.attempt (commits_getJson _)) hw ?_
      rintro (e | wire) w₁ h₁
      · exact wpe_uncounted_then hfailure h₁ fun _ w₂ h₂ => ih _ h₂
      · dsimp only
        split
        · refine wpe_counted_then (fun _ => True) (by simp) ?_ h₁ fun _ w₂ h₂ =>
            ih _ (h₂.congr (by simp))
          intro db
          simp [Write.Counted, counted]
        · exact wpe_uncounted_then hfailure h₁ fun _ w₂ h₂ => ih _ h₂

omit [UrlLibrary] in
theorem wpe_fetchIcons (limit : ℤ) (hw : Tally h w) :
    ledger.setting.wpe Outside.noPromise (Sync.fetchIcons client limit)
      (fun n => Tally (h ∨ 0 < n)) (fun _ => Unfinished) w := by
  have hnone : Tally (h ∨ 0 < 0) w := hw.congr (by simp)
  unfold Sync.fetchIcons
  split
  · exact Setting.wpe_pure (stable_tally _) hnone
  · exact wpe_uncounted_then (commits_of_reads (calls_query _)) hnone fun wanted w₁ h₁ =>
      wpe_fetchIconsFor _ _ h₁

/-- What a pass that returned says of its record. -/
def Judged (report : SyncReport) (w : World (List Write)) : Prop :=
  if report.replay.authFailed then Unfinished w
  else (∃ x ∈ w.outside, x.Completes) ∧
    ((∃ x ∈ w.outside, x.Counted) ↔ passChanged report = true)

omit [UrlLibrary] [Endpoints] [IconDecoder] in
theorem stable_judged (report : SyncReport) : ledger.setting.Stable (Judged report) := by
  unfold Judged
  split
  · exact stable_unfinished
  · exact @stable_record fun log => (∃ x ∈ log, x.Completes) ∧
      ((∃ x ∈ log, x.Counted) ↔ passChanged report = true)

omit [UrlLibrary] [Endpoints] [IconDecoder] in
/-- The bookkeeping ends a pass and counts nothing. -/
theorem judged_commit {report : SyncReport} {state : SyncState}
    (hauth : report.replay.authFailed = false) (hw : Tally (passChanged report = true) w) :
    Judged report (ledger.commitTo [.setSyncState state] w) := by
  have hlog : (ledger.commitTo [.setSyncState state] w).outside =
      w.outside ++ [⟨[.setSyncState state], w.db⟩] := rfl
  simp only [Judged, hauth, Bool.false_eq_true, if_false, hlog, List.mem_append,
    List.mem_singleton]
  refine ⟨⟨_, .inr rfl, state, rfl⟩, ?_⟩
  rw [← hw.counted]
  constructor
  · rintro ⟨x, hx | rfl, hcounted⟩
    · exact ⟨x, hx, hcounted⟩
    · simp [Write.Counted, counted] at hcounted
  · rintro ⟨x, hx, hcounted⟩
    exact ⟨x, .inl hx, hcounted⟩

theorem wpe_afterReplay (options : SyncOptions) (state : SyncState) (now : ℤ)
    {replay : ReplayOutcome} (hauth : replay.authFailed = false)
    (hw : Tally (0 < replay.confirmed) w) :
    ledger.setting.wpe Outside.noPromise (Sync.afterReplay client options state now replay)
      Judged (fun _ => Unfinished) w := by
  have hthen {α β : Type} {A : α → World (List Write) → Prop} {p : Action α} {f : α → Action β}
      {Q : β → World (List Write) → Prop} {w : World (List Write)}
      (hp : ledger.setting.wpe Outside.noPromise p A (fun _ => Unfinished) w)
      (hf : ∀ a w, A a w →
        ledger.setting.wpe Outside.noPromise (f a) Q (fun _ => Unfinished) w) :
      ledger.setting.wpe Outside.noPromise (p >>= f) Q (fun _ => Unfinished) w :=
    Setting.wpe_bind (fun _ => stable_unfinished) (Setting.wpe_mono hf (fun _ _ he => he) hp)
  have htaxonomy (generation : ℤ) :
      CallsE (Op.Commits Uncounted) (Pull.taxonomy client generation) := by
    refine commits_of_fetches (Pull.fetches_taxonomy client generation ?_ ?_ ?_) <;>
      simp [Uncounted, counted]
  have hprune : CallsE (Op.Commits Uncounted) (Sync.pruneStep options now) := by
    refine commits_of_fetches (Sync.fetches_pruneStep options now ?_)
    simp [Uncounted, counted]
  refine wpe_uncounted_then (commits_of_reads (Sync.calls_resolveVersion client _ _ _)) hw
    fun version w₁ h₁ => ?_
  refine wpe_uncounted_then (htaxonomy _) h₁ fun _ w₂ h₂ => ?_
  refine hthen (wpe_entries h₂) fun outcome w₃ h₃ => ?_
  refine hthen (wpe_reconcileStep _ _ _ _ h₃) fun r w₄ h₄ => ?_
  refine hthen (wpe_fetchIcons _ h₄) fun icons w₅ h₅ => ?_
  refine wpe_uncounted_then hprune h₅ fun pruned w₆ h₆ => ?_
  refine Setting.wpe_bind (fun _ => stable_unfinished) (Outside.wpe_withTx (stable_tally _) h₆
    (fun _ => Setting.wpe_stable _) (fun _ => stable_unfinished) ?_ ?_)
  · intro w₇ h₇
    refine ⟨trivial, Setting.wpe_pure (stable_judged _) (judged_commit hauth (h₇.congr ?_))⟩
    simp only [passChanged, Bool.or_eq_true, decide_eq_true_eq]
    tauto
  · intro m w₇ h₇
    exact ⟨trivial, h₇.unfinished⟩

theorem wpe_sync (options : SyncOptions) (hw : Tally False w) :
    ledger.setting.wpe Outside.noPromise (Sync.sync client options) Judged
      (fun _ => Unfinished) w := by
  refine wpe_uncounted_then (commits_of_reads (calls_query _)) hw fun state w₁ h₁ => ?_
  refine wpe_uncounted_then (commits_of_reads calls_now) h₁ fun now w₂ h₂ => ?_
  refine Setting.wpe_bind (fun _ => stable_unfinished) (Setting.wpe_mono ?_ (fun _ _ he => he)
    (wpe_replayStep options h₂))
  intro replay w₃ h₃
  split
  · next hauth =>
      refine Setting.wpe_pure (stable_judged _) ?_
      rw [Judged, if_pos hauth]
      exact h₃.unfinished
  · next hauth => exact wpe_afterReplay options _ _ (by simpa using hauth) h₃

/-! ## Commands -/

/-- A pass says it changed the mirror unless it went through and counted
nothing. -/
theorem wpe_perform_sync (options : SyncOptions) (hw : Tally False w) :
    ledger.setting.wpe Outside.noPromise (perform client options .sync)
      (fun changed w => changed = true ↔
        ((∃ x ∈ w.outside, x.Completes) → ∃ x ∈ w.outside, x.Counted))
      (fun _ _ => False) w := by
  have hstable (changed : Bool) : ledger.setting.Stable fun w => changed = true ↔
      ((∃ x ∈ w.outside, x.Completes) → ∃ x ∈ w.outside, x.Counted) :=
    @stable_record fun log => changed = true ↔
      ((∃ x ∈ log, x.Completes) → ∃ x ∈ log, x.Counted)
  have hunfinished {w : World (List Write)} (hw : Unfinished w) : true = true ↔
      ((∃ x ∈ w.outside, x.Completes) → ∃ x ∈ w.outside, x.Counted) := by
    simp only [true_iff]
    rintro ⟨x, hx, hcompletes⟩
    exact absurd hcompletes (hw x hx)
  refine Setting.wpe_bind (fun _ => stable_never) (Setting.wpe_attempt
    (Setting.wpe_mono ?_ ?_ (wpe_sync options hw)))
  · intro report w₁ hjudged
    refine Setting.wpe_pure (hstable _) ?_
    by_cases hauth : report.replay.authFailed = true
    · rw [Judged, if_pos hauth] at hjudged
      simpa only [syncChanged, hauth, if_true] using hunfinished hjudged
    · rw [Judged, if_neg hauth] at hjudged
      obtain ⟨hcompletes, hcounted⟩ := hjudged
      simp only [syncChanged, hauth, Bool.false_eq_true, if_false, ← hcounted]
      exact ⟨fun h _ => h, fun h => h hcompletes⟩
  · intro e w₁ hw₁
    exact Setting.wpe_pure (hstable _) (hunfinished hw₁)

theorem wpe_perform (options : SyncOptions) {command : Command} (hcommand : command ≠ .sync)
    (hw : Still w.outside) :
    ledger.setting.wpe Outside.noPromise (perform client options command) Honest
      (fun _ _ => False) w := by
  cases command with
  | sync => exact absurd rfl hcommand
  | flushOutbox => exact wpe_flushOutbox hw
  | subscribe feedUrl =>
      refine wpe_attempt_still (commits_getJson _) hw ?_
      rintro (e | id) w₁ h₁
      · exact Setting.wpe_pure (stable_honest _) fun _ => h₁
      · have hpass : ledger.setting.wpe Outside.noPromise (Sync.sync client options)
            (fun _ _ => True) (fun _ _ => True) w₁ :=
          Setting.wpe_of_calls (Setting.stable_const True) (fun _ _ _ _ _ _ _ => ⟨trivial, trivial⟩)
            (Program.Calls.any (Sync.sync client options).run) trivial
        refine Setting.wpe_bind (fun _ => stable_never) (Setting.wpe_attempt
          (Setting.wpe_mono ?_ ?_ hpass))
        · exact fun _ _ _ => Setting.wpe_pure (stable_honest _) (honest_true _)
        · exact fun _ _ _ => Setting.wpe_pure (stable_honest _) (honest_true _)
  | unsubscribe feedId => exact wpe_thenWrite _ _ hw
  | updateFeed feedId update => exact wpe_thenWrite _ _ hw
  | fetchOriginal id => exact wpe_fetchOriginal id hw

omit [UrlLibrary] [Endpoints] [IconDecoder] in
theorem lt_dropGuard_iff (command : Command) (changed : Bool) (signal : SyncSignal) :
    signal.generation < (dropGuard command changed signal).generation ↔ changed = true := by
  cases changed <;> cases command <;> simp [dropGuard, clearsSpinner, SyncSignal.setRunning,
    SyncSignal.bump]

/-- A command announces what it changed, except for a pass that goes through
and counts nothing of it. -/
theorem command_announces_iff {options : SyncOptions} {command : Command}
    {cells : ℕ → Option ServerVersion} {db : Db} {changed : Bool}
    (hrun : ledger.setting.Reaches ((perform client options command).run, ⟨db, cells, []⟩)
      (.done (.ok changed), w)) (signal : SyncSignal) :
    ((∃ x ∈ w.outside, x.Changes) →
        signal.generation < (dropGuard command changed signal).generation) ↔
      (command = .sync → (∃ x ∈ w.outside, x.Completes) → (∃ x ∈ w.outside, x.Changes) →
        ∃ x ∈ w.outside, x.Counted) := by
  rw [lt_dropGuard_iff]
  by_cases hcommand : command = .sync
  · subst hcommand
    have hfresh : Tally False (⟨db, cells, []⟩ : World (List Write)) := by
      constructor <;> simp
    have hjudged := Setting.wpe_finished (wpe_perform_sync options hfresh) hrun
    rw [hjudged]
    exact ⟨fun h _ hcompletes hchanges => h hchanges hcompletes,
      fun h hchanges hcompletes => h rfl hcompletes hchanges⟩
  · have hstill : Still (⟨db, cells, []⟩ : World (List Write)).outside := by
      simp [Still]
    have hhonest := Setting.wpe_finished (wpe_perform options hcommand hstill) hrun
    constructor
    · intro _ h
      exact absurd h hcommand
    · rintro - ⟨x, hx, hchanges⟩
      cases changed with
      | true => rfl
      | false => exact absurd hchanges (hhonest rfl x hx)

end Pass

/-! ## Handlers of the pages -/

/-- The handler in progress has yet to bump. -/
def Qt.Owes : Qt → Prop
  | .startOver .. | .bump .. | .bumpForOthers => True
  | _ => False

/-- The generation is past `n`, or about to be. -/
def App.PastOrOwes (n : ℕ) (a : App) : Prop :=
  n < a.signal.generation ∨ n ≤ a.signal.generation ∧ a.qt.Owes

section Handlers

variable [UrlLibrary] [Finder]

theorem generation_le_of_step {e : App.Event} {a a' : App} (h : App.step e a = some a') :
    a.signal.generation ≤ a'.signal.generation := by
  cases effect_of_step (x := ⟨a, e, a'⟩) h with
  | bump hgeneration => exact hgeneration ▸ Nat.le_succ _
  | looked _ _ _ _ hgeneration => exact hgeneration.ge
  | stored _ _ _ _ _ hgeneration => exact hgeneration.ge
  | steady hgeneration => exact hgeneration.ge

theorem pastOrOwes_step {n : ℕ} {e : App.Event} {a a' : App} (ha : a.PastOrOwes n)
    (h : App.step e a = some a') : a'.PastOrOwes n := by
  have hle := generation_le_of_step h
  rcases ha with hlt | ⟨hn, howes⟩
  · exact .inl (hlt.trans_le hle)
  · have hbusy : a.qt ≠ .idle := by
      intro hidle
      rw [hidle] at howes
      exact howes
    cases e with
    | worker e =>
        have ha' : App.work e a = a' := Option.some.inj h
        have hqt : a'.qt = a.qt := by
          rw [← ha']
          cases e <;> rfl
        exact .inr ⟨hn.trans hle, hqt ▸ howes⟩
    | start handler => simp [App.step, hbusy] at h
    | resume =>
        simp only [App.step, hbusy, if_false, Option.some.injEq] at h
        subst h
        rcases hq : a.qt with _ | ⟨page, notice⟩ | v | v | ⟨i, sync⟩ | ⟨i, sync⟩ | ⟨i, sync⟩ | _ <;>
          rw [hq] at howes
        case startOver =>
          simp only [App.resume, hq]
          exact .inr ⟨hn, trivial⟩
        case bump =>
          simp only [App.resume, hq]
          exact .inl (Nat.lt_succ_of_le hn)
        case bumpForOthers =>
          simp only [App.resume, hq]
          exact .inl (Nat.lt_succ_of_le hn)
        all_goals exact howes.elim

/-- What a handler does to the mirror: nothing, or it is going to announce it,
or it is the feed list marking a feed read. -/
theorem handle_cases (h : App.Handler) {a : App} :
    (App.handle h a).db = a.db ∨ (App.handle h a).qt.Owes ∨
      ∃ i row now id, h = .markFeedRead i row now ∧ (a.feedModels i).idAt row = some id ∧
        (App.handle h a).db = (Outbox.queueMarkFeedRead id now a.db).2 ∧
        (App.handle h a).qt = a.qt := by
  cases h with
  | poll page =>
      have hdraw : (App.drawSpinner page a).db = a.db := by
        rcases page with (i | i) | k <;> rfl
      refine .inl ?_
      simp only [App.handle, App.poll]
      split
      · rcases page with v | k <;> exact hdraw
      · exact hdraw
  | pollArticle k =>
      refine .inl ?_
      simp only [App.handle, App.pollArticle]
      split
      · rfl
      · split <;> rfl
  | refresh v => cases v <;> exact .inl rfl
  | setScope i scope => exact .inl rfl
  | setSearch i text =>
      refine .inl ?_
      simp only [App.handle]
      split
      · rfl
      · split <;> rfl
  | loadMore i =>
      refine .inl ?_
      simp only [App.handle]
      split <;> rfl
  | setRead i row read now =>
      simp only [App.handle, App.setRead]
      split
      · exact .inl rfl
      · exact .inr (.inl trivial)
  | setReadMany i ids read now =>
      simp only [App.handle, App.setReadMany]
      split
      · exact .inl rfl
      · exact .inr (.inl trivial)
  | setStarred i row starred now =>
      simp only [App.handle, App.setStarred]
      split
      · exact .inl rfl
      · exact .inr (.inl trivial)
  | markAllReadIn i scope now =>
      simp only [App.handle, App.markAllReadIn]
      split
      · exact .inl rfl
      · exact .inr (.inl trivial)
  | requestSync i sent => exact .inr (.inl trivial)
  | markFeedRead i row now =>
      cases hid : (a.feedModels i).idAt row with
      | none =>
          refine .inl ?_
          simp only [App.handle, App.markFeedRead, hid]
      | some id =>
          refine .inr (.inr ⟨i, row, now, id, rfl, hid, ?_, ?_⟩)
          · simp only [App.handle, App.markFeedRead, hid]
          · simp only [App.handle, App.markFeedRead, hid]
            rfl
  | openArticle k entryId => exact .inl rfl
  | fetchOriginal k => exact .inl rfl
  | applyArticle k value now =>
      simp only [App.handle, App.applyArticle]
      split
      · exact .inl rfl
      · exact .inr (.inl trivial)

/-- A handler announces what it changed by the time it is done, except for the
feed list's, of a feed with something unread. -/
theorem handler_announces_iff {h : App.Handler} {a b : App}
    (hstart : App.step (.start h) a = some b) :
    (∀ t a', Run App.step b t a' → a'.qt = .idle → ¬SameShown a.db b.db →
        a.signal.generation < a'.signal.generation) ↔
      ∀ i row now id, h = .markFeedRead i row now → (a.feedModels i).idAt row = some id →
        Outbox.unreadOfFeed id a.db = [] := by
  by_cases hidle : a.qt = .idle
  swap
  · simp [App.step, hidle] at hstart
  have hle := generation_le_of_step hstart
  have hsteady := App.steady_handle (h := h) hidle
  simp only [App.step, hidle, if_true, Option.some.injEq] at hstart
  subst hstart
  constructor
  · rintro hannounces i row now id rfl hid
    by_contra hunread
    have hdb : (App.handle (.markFeedRead i row now) a).db =
        (Outbox.queueMarkFeedRead id now a.db).2 := by
      simp only [App.handle, App.markFeedRead, hid]
    have hqt : (App.handle (.markFeedRead i row now) a).qt = .idle := by
      simp only [App.handle, App.markFeedRead, hid]
      exact hidle
    have hlt := hannounces [] _ .start hqt (by
      rw [hdb, sameShown_queueMarkFeedRead]
      exact hunread)
    rw [hsteady.generation] at hlt
    exact lt_irrefl _ hlt
  · intro hread t a' hrun hdone hchanged
    rcases handle_cases h (a := a) with hdb | howes | ⟨i, row, now, id, rfl, hid, hdb, -⟩
    · rw [hdb] at hchanged
      exact absurd (.refl _) hchanged
    · have hpast := hrun.invariant (I := App.PastOrOwes a.signal.generation) (.inr ⟨hle, howes⟩)
        fun e a₁ a₂ h₁ hstep => pastOrOwes_step h₁ hstep
      rcases hpast with hlt | ⟨-, howes'⟩
      · exact hlt
      · rw [hdone] at howes'
        exact howes'.elim
    · rw [hdb, sameShown_queueMarkFeedRead] at hchanged
      exact absurd (hread i row now id rfl hid) hchanged

end Handlers

/-! ## Commands and handlers -/

/-- What changes in sight of the pages is announced, except by a pass that goes
through and counts none of it, and by the feed list. -/
theorem visible_changes_announced_iff [UrlLibrary] [Endpoints] [IconDecoder] [Finder] :
    (∀ (client : MinifluxClient) (options : SyncOptions) (command : Command)
      (cells : ℕ → Option ServerVersion) (db : Db) (changed : Bool) (w : World (List Write))
      (signal : SyncSignal),
      ledger.setting.Reaches ((perform client options command).run, ⟨db, cells, []⟩)
        (.done (.ok changed), w) →
      (((∃ x ∈ w.outside, x.Changes) →
          signal.generation < (dropGuard command changed signal).generation) ↔
        (command = .sync → (∃ x ∈ w.outside, x.Completes) → (∃ x ∈ w.outside, x.Changes) →
          ∃ x ∈ w.outside, x.Counted))) ∧
    (∀ (h : App.Handler) (a b : App), App.step (.start h) a = some b →
      ((∀ t a', Run App.step b t a' → a'.qt = .idle → ¬SameShown a.db b.db →
          a.signal.generation < a'.signal.generation) ↔
        ∀ i row now id, h = .markFeedRead i row now → (a.feedModels i).idAt row = some id →
          Outbox.unreadOfFeed id a.db = [])) ∧
    (∀ (active enabled readable written : Bool) (a : Notify.Arrivals),
      SameShown a.db (a.decide active enabled readable written).2.db ∧
        SameShown a.db (a.dismissed written).db) :=
  ⟨fun _ _ _ _ _ _ _ signal hrun => command_announces_iff hrun signal,
    fun _ _ _ hstart => handler_announces_iff hstart,
    fun active enabled readable written a =>
      ⟨Notify.Arrivals.sameShown_decide active enabled readable written a,
        Notify.Arrivals.sameShown_dismissed written a⟩⟩

section Runs

open scoped Vuo.Shim.Reader Vuo.Reader

/-- A mirror that knows a category by the name it had. -/
def olderName : Db :=
  { Db.empty with
    categories := Table.empty.put
      { id := 3, title := "News", hideGlobally := false, lastSeenSync := 0 } }

def newerName : Wire.Category where
  id := 3
  title := "World"
  hideGlobally := false

/-- A pass that has nothing new to write but the name of a category. -/
theorem reaches_rename :
    ∃ (changed : Bool) (w : World (List Write)),
      ledger.setting.Reaches ((perform readerClient withoutIcons .sync).run,
        ⟨olderName, fun _ => none, []⟩) (.done (.ok changed), w) ∧
      (∃ x ∈ w.outside, x.Changes) ∧ (∃ x ∈ w.outside, x.Completes) ∧
      ¬∃ x ∈ w.outside, x.Counted := by
  let time := secondsAfter 100 (by decide)
  let names : Transaction := [.upsertCategory ⟨3, "World", false⟩ 1]
  have hget (request : Request) (r : Answer request) (w : World (List Write)) :
      ledger.setting.Reaches ((readerClient.getJson request).run, w)
        (.done (MinifluxClient.readResult readerClient request r), w) :=
    MinifluxClient.reaches_getJson rfl
  have hreplay (w : World (List Write)) (hw : w.db = olderName) : ledger.setting.Reaches
      ((Sync.replayStep readerClient withoutIcons).run, w) (.done (.ok .default), w) := by
    refine ((Outside.reaches_query .pending w).bind_ok _).trans ?_
    rw [hw]
    exact .refl
  have hversion (w : World (List Write)) : ledger.setting.Reaches
      ((Sync.resolveVersion readerClient olderName.syncState 100
        withoutIcons.serverVersionTtlSecs).run, w) (.done (.ok (.default, none)), w) := by
    have hrefused : ledger.setting.Reaches (readerClient.version.run, w)
        (.done (.error .cancelled), w) :=
      (hget .version (.error .cancelled) w).bind_error _
    exact hrefused.attempt.bind_ok _
  have htaxonomy (w : World (List Write)) (hw : w.db = olderName) : ledger.setting.Reaches
      ((Pull.taxonomy readerClient 1).run, w) (.done (.ok ()), ledger.commitTo names w) := by
    have hcategories : ledger.setting.Reaches (readerClient.categories.run, w)
        (.done (.ok [newerName]), w) := hget .categories (answered 200 [newerName] none) w
    have hfeeds : ledger.setting.Reaches (readerClient.feeds.run, w) (.done (.ok []), w) :=
      hget .feeds (answered 200 [] none) w
    refine (hcategories.bind_ok _).trans ((hfeeds.bind_ok _).trans ?_)
    refine ((Outside.reaches_withTx names w).bind_ok _).trans ?_
    refine ((Outside.reaches_query .feeds _).bind_ok _).trans ?_
    have hnone : Query.run .feeds (ledger.commitTo names w).db = [] := by
      rw [Outside.db_commitTo, hw]
      rfl
    rw [hnone]
    exact .refl
  have hentries (w : World (List Write)) : ∃ outcome, ledger.setting.Reaches
      ((Pull.entries readerClient none 1).run, w) (.done (.ok outcome), ledger.commitTo [] w) := by
    have hsend : ledger.send readerClient.transport (.entries (Pull.pageQuery none none))
        w.outside (answered 200 ⟨[]⟩ (some time)) w.outside := rfl
    obtain ⟨outcome, -, hrun⟩ := Pull.reaches_entries_shortPage 1 hsend (by decide)
    exact ⟨outcome, hrun⟩
  let w₀ : World (List Write) := ⟨olderName, fun _ => none, []⟩
  let w₁ := ledger.commitTo [] (ledger.commitTo names w₀)
  obtain ⟨outcome, hentries⟩ := hentries (ledger.commitTo names w₀)
  have hsync : ∃ report state, ledger.setting.Reaches
      ((Sync.sync readerClient withoutIcons).run, w₀)
      (.done (.ok report), ledger.commitTo [.setSyncState state] w₁) := by
    apply Exists.intro
    apply Exists.intro
    refine ((Outside.reaches_query .syncState w₀).bind_ok _).trans ?_
    refine Setting.Reaches.call (Outside.act_now_of (t := time) (o := w₀.outside) rfl) ?_
    refine ((hreplay w₀ rfl).bind_ok _).trans ?_
    refine ((hversion w₀).bind_ok _).trans ?_
    refine ((htaxonomy w₀ rfl).bind_ok _).trans ?_
    refine (hentries.bind_ok _).trans ?_
    exact (Outside.reaches_withTx _ _).bind_ok _
  obtain ⟨report, state, hsync⟩ := hsync
  refine ⟨_, _, hsync.attempt.bind_ok _, ⟨⟨names, olderName⟩, ?_, ?_⟩,
    ⟨⟨[.setSyncState state], w₁.db⟩, ?_, state, rfl⟩, ?_⟩
  · simp [w₁, w₀, Outside.commitTo, ledger]
  · intro hsame
    have htitle := congrArg (Option.map CategoryRow.title) (hsame.categories 3)
    revert htitle
    decide
  · simp [w₁, w₀, Outside.commitTo, ledger]
  · rintro ⟨x, hx, s, hs, hcounted⟩
    have hx : x = ⟨names, olderName⟩ ∨ x.body = [] ∨ x.body = [.setSyncState state] := by
      simp only [w₁, w₀, Outside.commitTo, ledger, List.mem_append, List.mem_singleton] at hx
      rcases hx with ((hx | rfl) | rfl) | rfl
      · simp at hx
      · exact .inl rfl
      · exact .inr (.inl rfl)
      · exact .inr (.inr rfl)
    rcases hx with rfl | hbody | hbody
    · simp [names] at hs
      subst hs
      cases hcounted
    · rw [hbody] at hs
      cases hs
    · rw [hbody, List.mem_singleton] at hs
      subst hs
      cases hcounted

/-- The pass goes through unannounced; a reader who marks an entry of a list
read is heard. -/
theorem visible_changes_announced_rename :
    (∃ (changed : Bool) (w : World (List Write)),
      ledger.setting.Reaches ((perform readerClient withoutIcons .sync).run,
        ⟨olderName, fun _ => none, []⟩) (.done (.ok changed), w) ∧
      ¬((∃ x ∈ w.outside, x.Changes) → SyncSignal.default.generation <
        (dropGuard .sync changed SyncSignal.default).generation)) ∧
    ∀ t a', Run App.step (App.handle (.setReadMany 0 [7] true 5) (App.start (held false))) t a' →
      a'.qt = .idle → ¬SameShown (held false)
        (App.handle (.setReadMany 0 [7] true 5) (App.start (held false))).db →
      0 < a'.signal.generation := by
  obtain ⟨changed, w, hrun, hchanges, hcompletes, hcounted⟩ := reaches_rename
  refine ⟨⟨changed, w, hrun, ?_⟩, ?_⟩
  · rw [visible_changes_announced_iff.1 _ _ _ _ _ _ _ SyncSignal.default hrun]
    exact fun hcond => hcounted (hcond rfl hcompletes hchanges)
  · refine (visible_changes_announced_iff.2.1 (.setReadMany 0 [7] true 5)
      (App.start (held false)) _ rfl).2 ?_
    rintro i row now id heq
    cases heq

/-- A feed whose one entry is unread. -/
def unreadFeed : Db :=
  { held false with
    feeds := Table.empty.put
      { id := 1, categoryId := none, title := "Feed", siteUrl := none, feedUrl := none,
        iconId := none, checkedAt := none, parsingErrorMessage := "", parsingErrorCount := 0,
        disabled := false, hideGlobally := false, crawler := false, iconFailures := 0,
        lastSeenSync := 1 } }

/-- The feed list on screen. -/
def feedList : App :=
  App.handle (.refresh (.feeds 0)) (App.start unreadFeed)

/-- A pass that renames a category leaves the generation, and so does marking a
feed read from the feed list. -/
theorem silent_changes :
    (∃ (changed : Bool) (w : World (List Write)),
      ledger.setting.Reaches ((perform readerClient withoutIcons .sync).run,
        ⟨olderName, fun _ => none, []⟩) (.done (.ok changed), w) ∧
      (∃ x ∈ w.outside, x.Changes) ∧
      (dropGuard .sync changed SyncSignal.default).generation = SyncSignal.default.generation) ∧
    ∃ b, App.step (.start (.markFeedRead 0 0 5)) feedList = some b ∧ b.qt = .idle ∧
      ¬SameShown feedList.db b.db ∧ b.signal.generation = feedList.signal.generation := by
  constructor
  · obtain ⟨changed, w, hrun, hchanges, hcompletes, hcounted⟩ := reaches_rename
    refine ⟨changed, w, hrun, hchanges, ?_⟩
    have hfresh : Tally False (⟨olderName, fun _ => none, []⟩ : World (List Write)) := by
      constructor <;> simp
    have hjudged := Setting.wpe_finished (wpe_perform_sync withoutIcons hfresh) hrun
    cases changed with
    | false => rfl
    | true => exact absurd (hjudged.1 rfl hcompletes) hcounted
  · refine ⟨_, rfl, rfl, ?_, rfl⟩
    have hdb : (App.handle (.markFeedRead 0 0 5) feedList).db =
        (Outbox.queueMarkFeedRead 1 5 unreadFeed).2 := rfl
    have hbefore : feedList.db = unreadFeed := rfl
    rw [hdb, hbefore, sameShown_queueMarkFeedRead]
    decide

end Runs

end Vuo.Shim
