import Vuo.Verification.Pull.Rules

/-!
# The rule of a sync pass

`I` holds before the pass, `B` once its state was read, `P` from the moment it
looked at the clock until the entries were pulled, and `R` from there until the
bookkeeping is written.
-/

namespace Vuo

open Foundation MinifluxClient

namespace Sync

variable {σ : Type*} {O : Outside σ} [UrlLibrary] [Endpoints] [IconDecoder]
  {G : Setting.Guarantee Op Op.Ans (World σ)} {client : MinifluxClient}
  {options : SyncOptions} {I : World σ → Prop} {B : SyncState → World σ → Prop}
  {P : SyncState → ℤ → World σ → Prop} {R : SyncState → ℤ → Option ℤ → World σ → Prop}
  {Q : SyncReport → World σ → Prop} {E : Error → World σ → Prop}

/-- What the worker does with the server: a flush on its own, or a pass. -/
inductive Job : ∀ α : Type, Program Op Op.Ans α → Prop
  | flush (client : MinifluxClient) : Job _ (Replay.flush client).run
  | sync (client : MinifluxClient) (options : SyncOptions) : Job _ (sync client options).run

/-- What is asked of the steps of a pass. -/
structure PassRules (O : Outside σ) (G : Setting.Guarantee Op Op.Ans (World σ))
    (client : MinifluxClient) (options : SyncOptions) (I : World σ → Prop)
    (B : SyncState → World σ → Prop) (P : SyncState → ℤ → World σ → Prop)
    (R : SyncState → ℤ → Option ℤ → World σ → Prop) (Q : SyncReport → World σ → Prop)
    (E : Error → World σ → Prop) : Prop where
  stable_start : O.setting.Stable I
  stable_read : ∀ state, O.setting.Stable (B state)
  stable_running : ∀ state now, O.setting.Stable (P state now)
  stable_pulled : ∀ state now next, O.setting.Stable (R state now next)
  stable_end : ∀ report, O.setting.Stable (Q report)
  stable_error : ∀ e, O.setting.Stable (E e)
  read : ∀ w, I w → (∀ r, G (.query .syncState) w r w) ∧ B w.db.syncState w ∧
    ∀ m, E (.db m) w
  now : ∀ state w, B state w → ∀ t o, O.now w.outside t o →
    G .now w t (w.setOutside o) ∧ P state t.timestamp (w.setOutside o)
  replay : ∀ state now w, P state now w →
    O.setting.wpe G (replayStep client options) (fun _ => P state now) E w
  version : ∀ state now ttl w, P state now w →
    O.setting.wpe G (resolveVersion client state now ttl) (fun _ => P state now) E w
  taxonomy : ∀ state now generation w, P state now w →
    O.setting.wpe G (Pull.taxonomy client generation) (fun _ => P state now) E w
  entries : ∀ state now generation w, P state now w →
    O.setting.wpe G (Pull.entries client state.cursorChangedAfter generation)
      (fun outcome => R state now outcome.nextCursor) E w
  reconcile : ∀ state now next version interval w, R state now next w →
    O.setting.wpe G (reconcileStep client state version now interval)
      (fun _ => R state now next) E w
  icons : ∀ state now next limit w, R state now next w →
    O.setting.wpe G (fetchIcons client limit) (fun _ => R state now next) E w
  prune : ∀ state now next w, R state now next w →
    O.setting.wpe G (pruneStep options now) (fun _ => R state now next) E w
  commit : ∀ state now report version checkedAt w, R state now report.pull.nextCursor w →
    G (.transact [.setSyncState (nextState state now report version checkedAt)]) w
        (.ok (Transaction.run [.setSyncState (nextState state now report version checkedAt)]
          w.db).1)
        (O.commitTo [.setSyncState (nextState state now report version checkedAt)] w) ∧
      Q report (O.commitTo [.setSyncState (nextState state now report version checkedAt)] w)
  commit_fails : ∀ state now next body m w, R state now next w →
    G (.transact body) w (.error (.db m)) w ∧ E (.db m) w
  refused : ∀ state now replay w, P state now w →
    Q { SyncReport.default with replay := replay } w

theorem wpe_afterReplay (h : PassRules O G client options I B P R Q E) (state : SyncState)
    (now : ℤ) (replay : ReplayOutcome) {w : World σ} (hw : P state now w) :
    O.setting.wpe G (afterReplay client options state now replay) Q E w := by
  have hnext {α β : Type} {A : α → World σ → Prop} {p : Action α} {f : α → Action β}
      {B : β → World σ → Prop} {w : World σ} (hp : O.setting.wpe G p A E w)
      (hf : ∀ a w, A a w → O.setting.wpe G (f a) B E w) :
      O.setting.wpe G (p >>= f) B E w :=
    Setting.wpe_bind h.stable_error (Setting.wpe_mono hf (fun _ _ he => he) hp)
  refine hnext (h.version state now _ w hw) fun version w₁ h₁ => ?_
  refine hnext (h.taxonomy state now _ w₁ h₁) fun _ w₂ h₂ => ?_
  refine hnext (h.entries state now _ w₂ h₂) fun outcome w₃ h₃ => ?_
  refine hnext (h.reconcile state now _ _ _ w₃ h₃) fun _ w₄ h₄ => ?_
  refine hnext (h.icons state now _ _ w₄ h₄) fun _ w₅ h₅ => ?_
  refine hnext (h.prune state now _ w₅ h₅) fun _ w₆ h₆ => ?_
  refine Setting.wpe_bind h.stable_error (Outside.wpe_withTx (h.stable_pulled _ _ _) h₆
    (fun _ => Setting.wpe_stable _) h.stable_error ?_
    (fun m w hw => h.commit_fails state now _ _ m w hw))
  intro w₇ h₇
  obtain ⟨hg, hq⟩ := h.commit state now
    { replay := replay
      pull := outcome
      entriesDeleted := _
      iconsFetched := _
      entriesPruned := _
      reconciled := _
      serverVersion := _ } _ _ w₇ h₇
  exact ⟨hg, Setting.wpe_pure (h.stable_end _) hq⟩

theorem wpe_sync (h : PassRules O G client options I B P R Q E) {w : World σ} (hw : I w) :
    O.setting.wpe G (sync client options) Q E w := by
  refine Setting.wpe_bind h.stable_error (Outside.wpe_query h.stable_start hw
    (fun _ => Setting.wpe_stable _) h.stable_error ?_ (fun m w hw => (h.read w hw).2.2 m)
    (fun w r hw => (h.read w hw).1 r))
  intro w₁ h₁
  refine Setting.wpe_bind h.stable_error (Outside.wpe_now (h.stable_read w₁.db.syncState)
    (h.read w₁ h₁).2.1 (fun _ => Setting.wpe_stable _) ?_)
  intro w₂ h₂ t o hnow
  obtain ⟨hg, h₃⟩ := h.now _ w₂ h₂ t o hnow
  refine ⟨hg, Setting.wpe_bind h.stable_error (Setting.wpe_mono ?_ (fun _ _ he => he)
    (h.replay _ _ _ h₃))⟩
  intro replay w₄ h₄
  split
  · exact Setting.wpe_pure (h.stable_end _) (h.refused _ _ replay w₄ h₄)
  · exact wpe_afterReplay h _ _ replay h₄

/-! ## A pass that goes through -/

/-- A server without feeds that will not name its version, and a clock that
stands still. -/
structure Bare (O : Outside σ) (client : MinifluxClient) (time : DateTime) : Prop where
  now : ∀ o, O.now o time o
  version : ∀ o, ∃ e, O.send client.transport .version o (.error e) o
  categories : ∀ o, O.send client.transport .categories o (answered 200 [] none) o
  feeds : ∀ o, O.send client.transport .feeds o (answered 200 [] none) o

section Bare

variable {time : DateTime} (h : Bare O client time)

include h

omit [UrlLibrary] [IconDecoder] in
theorem Bare.reaches_resolveVersion {state : SyncState} (now ttl : ℤ)
    (hunchecked : state.serverVersionCheckedAt = none) (w : World σ) :
    O.setting.Reaches ((resolveVersion client state now ttl).run, w)
      (.done (.ok ((state.serverVersion.bind ServerVersion.parse).getD .default, none)), w) := by
  have hcached : cachedVersion state now ttl = none := by
    simp [cachedVersion, hunchecked]
  obtain ⟨e, hsend⟩ := h.version w.outside
  have hversion : O.setting.Reaches (client.version.run, w) (.done (.error e), w) := by
    have hget := reaches_getJson hsend
    exact hget.bind_error _
  unfold resolveVersion
  rw [hcached, hunchecked]
  exact hversion.attempt.bind_ok _

omit [IconDecoder] in
theorem Bare.reaches_taxonomy (generation : ℤ) (w : World σ) :
    O.setting.Reaches ((Pull.taxonomy client generation).run, w)
      (.done (.ok ()), O.commitTo [] w) := by
  have hcategories : O.setting.Reaches (client.categories.run, w) (.done (.ok []), w) :=
    reaches_getJson (h.categories w.outside)
  have hfeeds : O.setting.Reaches (client.feeds.run, w) (.done (.ok []), w) :=
    reaches_getJson (h.feeds w.outside)
  refine (hcategories.bind_ok _).trans ((hfeeds.bind_ok _).trans ?_)
  refine ((Outside.reaches_withTx [] w).bind_ok _).trans ?_
  refine ((Outside.reaches_query .feeds _).bind_ok _).trans ?_
  cases hlocal : Query.run .feeds (O.commitTo [] w).db with
  | nil => exact .refl
  | cons f fs => exact .refl

/-- A pass that goes through: with nothing to replay, it writes the one page it
is answered, then its bookkeeping. -/
theorem Bare.reaches_sync {options : SyncOptions} (hicons : options.iconsPerPass ≤ 0)
    (hretention : options.retentionSecs = none) {w : World σ} (hpending : Outbox.pending w.db = [])
    (hunchecked : w.db.syncState.serverVersionCheckedAt = none)
    (hold : ((w.db.syncState.serverVersion.bind ServerVersion.parse).getD
      .default).hasEntryIdsEndpoint = false)
    {page : Wire.EntriesResponse} {date : DateTime} {o : σ}
    (hsend : O.send client.transport
      (.entries (Pull.pageQuery w.db.syncState.cursorChangedAfter none))
      (O.commit [] w.db w.outside) (answered 200 page (some date)) o)
    (hshort : page.entries.length < Pull.pageSize) :
    ∃ (report : SyncReport) (w₁ : World σ),
      report.pull.nextCursor = some (saturatingSub date.timestamp Pull.cursorSkewSecs) ∧
      w₁ = O.commitTo (Pull.answerTx page w.db.syncState.cursorChangedAfter
        (saturatingAdd w.db.syncState.syncGeneration 1)) ((O.commitTo [] w).setOutside o) ∧
      O.setting.Reaches ((sync client options).run, w) (.done (.ok report),
        O.commitTo [.setSyncState (nextState w.db.syncState time.timestamp report
          ((w.db.syncState.serverVersion.bind ServerVersion.parse).getD .default) none)] w₁) := by
  have hreplay : O.setting.Reaches ((replayStep client options).run, w)
      (.done (.ok .default), w) := by
    unfold replayStep
    split
    · exact .refl
    · refine ((Outside.reaches_query .pending w).bind_ok _).trans ?_
      have hnone : Query.run .pending w.db = [] := hpending
      rw [hnone]
      exact .refl
  obtain ⟨outcome, hnext, hentries⟩ := Pull.reaches_entries_shortPage (w := O.commitTo [] w)
    (saturatingAdd w.db.syncState.syncGeneration 1) hsend hshort
  let version := (w.db.syncState.serverVersion.bind ServerVersion.parse).getD .default
  let report : SyncReport :=
    { replay := .default
      pull := outcome
      entriesDeleted := 0
      iconsFetched := 0
      entriesPruned := 0
      reconciled := false
      serverVersion := some version.raw }
  have hreconcile (now interval : ℤ) (w' : World σ) : O.setting.Reaches
      ((reconcileStep client w.db.syncState version now interval).run, w')
      (.done (.ok .aborted), w') := by
    simp only [reconcileStep, divergenceStep, version, hold, Bool.and_false, Bool.false_and]
    exact .refl
  have hfetch (w : World σ) : O.setting.Reaches ((fetchIcons client options.iconsPerPass).run, w)
      (.done (.ok 0), w) := by
    rw [fetchIcons, if_pos hicons]
    exact .refl
  have hprune (now : ℤ) (w : World σ) : O.setting.Reaches ((pruneStep options now).run, w)
      (.done (.ok 0), w) := by
    rw [pruneStep, hretention]
    exact .refl
  refine ⟨report, _, hnext, rfl, ?_⟩
  refine ((Outside.reaches_query .syncState w).bind_ok _).trans ?_
  refine Setting.Reaches.call (Outside.act_now_of (h.now w.outside)) ?_
  refine (hreplay.bind_ok _).trans ?_
  refine ((h.reaches_resolveVersion _ _ hunchecked w).bind_ok _).trans ?_
  refine ((h.reaches_taxonomy _ w).bind_ok _).trans ?_
  refine (hentries.bind_ok _).trans ?_
  refine ((hreconcile _ _ _).bind_ok _).trans ?_
  refine ((hfetch _).bind_ok _).trans ?_
  refine ((hprune _ _).bind_ok _).trans ?_
  exact (Outside.reaches_withTx _ _).bind_ok _

end Bare

end Sync

/-- No icon is ever accepted. -/
abbrev noIcons : IconDecoder :=
  ⟨fun _ => .error .cancelled⟩

/-- The default options, without icons. -/
def withoutIcons : SyncOptions :=
  { SyncOptions.default with iconsPerPass := 0 }

namespace Reader

scoped instance : IconDecoder := noIcons

end Reader

end Vuo
