import Vuo.Verification.Requests

/-!
# Rules for the replay

What has to be known of one request, and of one transaction, to follow a whole
flush: `I` is the invariant before the batches still to come, `A` holds once a
batch was accepted and `F` once it failed.
-/

namespace Vuo

open Foundation

namespace Replay

open MinifluxClient

variable {σ : Type*} {O : Outside σ} [Endpoints]
  {G : Setting.Guarantee Op Op.Ans (World σ)}

/-- The request a batch is sent in. -/
def batchRequest (batch : Batch) : Request :=
  .updateEntries (updateRequest batch.entryIds (mutation batch.value))

section UpdateEntries

variable {client : MinifluxClient} {P : World σ → Prop} {E : Error → World σ → Prop}

theorem wpe_writeCapableVersion (hP : O.setting.Stable P) (hE : ∀ e, O.setting.Stable (E e))
    (hquiet : ∀ op, op.Quiet → ∀ w r w', O.setting.act op w r w' → P w →
      G op w r w' ∧ P w')
    (hprobe : ∀ w, P w → ∀ r o, O.send client.transport .version w.outside r o →
      G (.send client.transport .version) w r (w.setOutside o) ∧
        Setting.ends (fun _ => P) E (readResult client .version r) (w.setOutside o))
    {w : World σ} (hw : P w) :
    O.setting.wpe G client.writeCapableVersion (fun _ => P) E w := by
  refine Setting.wpe_bind hE (Setting.wpe_lift (Setting.wp_call hP hw ?_))
  intro w₁ h₁ known w₂ hact
  obtain ⟨hg, h₂⟩ := hquiet (.knownVersion _) trivial w₁ _ w₂ hact h₁
  refine ⟨hg, Setting.wp_done' (Setting.wpe_stable _) ?_⟩
  cases known with
  | some v => exact Setting.wpe_pure hP h₂
  | none => exact wpe_version hP hE hquiet hprobe h₂

/-- The rule of an entry-state write: what a probe may answer, what the write
itself may answer, and the two refusals that send nothing. -/
theorem wpe_updateEntries {b : Batch} {Q : World σ → Prop}
    (hP : O.setting.Stable P) (hQ : O.setting.Stable Q) (hE : ∀ e, O.setting.Stable (E e))
    (hquiet : ∀ op, op.Quiet → ∀ w r w', O.setting.act op w r w' → P w →
      G op w r w' ∧ P w')
    (hempty : ∀ w, P w → E emptyError w)
    (hfloor : ∀ v w, P w → E (floorError v) w)
    (hprobe : ∀ w, P w → ∀ r o, O.send client.transport .version w.outside r o →
      G (.send client.transport .version) w r (w.setOutside o) ∧
        Setting.ends (fun _ => P) E (readResult client .version r) (w.setOutside o))
    (hput : ∀ w, P w → ∀ r o,
      O.send client.transport (batchRequest b) w.outside r o →
      G (.send client.transport (batchRequest b)) w r (w.setOutside o) ∧
        Setting.ends (fun _ => Q) E (writeResult client (batchRequest b) r) (w.setOutside o))
    {w : World σ} (hw : P w) :
    O.setting.wpe G (client.updateEntries b.entryIds (mutation b.value)) (fun _ => Q) E w := by
  unfold MinifluxClient.updateEntries
  split
  · exact Setting.wpe_throw (hE _) (hempty w hw)
  · refine Setting.wpe_bind hE ?_
    have hrefuse : O.setting.wpe G client.refuseEntryWritesBeforeFloor (fun _ => P) E w := by
      refine Setting.wpe_bind hE ?_
      refine Setting.wpe_mono ?_ (fun _ _ h => h)
        (wpe_writeCapableVersion hP hE hquiet hprobe hw)
      intro version w₁ h₁
      split
      · exact Setting.wpe_pure hP h₁
      · exact Setting.wpe_throw (hE _) (hfloor version w₁ h₁)
    refine Setting.wpe_mono ?_ (fun _ _ h => h) hrefuse
    intro _ w₁ h₁
    refine Setting.wpe_bind hE
      (Outside.wpe_send hP h₁ (fun _ => Setting.wpe_stable _) hE ?_)
    intro w₂ h₂ r o hsend
    obtain ⟨hg, hr⟩ := hput w₂ h₂ r o hsend
    refine ⟨hg, ?_⟩
    cases r with
    | error e => exact hr
    | ok response => exact Outside.wpe_ofResult (fun _ => hQ) hE hr

end UpdateEntries

section Flush

variable {client : MinifluxClient} {I : List Batch → World σ → Prop}
  {A : Batch → List Batch → World σ → Prop}
  {F : Error → Batch → List Batch → World σ → Prop} {D : World σ → Prop}

/-- The rule of a flush over the batches it built: `hsend` for the request of a
batch, and one premise for each way of recording what became of it. `D` is what
is known wherever the flush ends. -/
theorem wpe_flushBatches
    (hA : ∀ b bs, O.setting.Stable (A b bs)) (hF : ∀ e b bs, O.setting.Stable (F e b bs))
    (hD : O.setting.Stable D)
    (hsend : ∀ b bs w, I (b :: bs) w →
      O.setting.wpe G (client.updateEntries b.entryIds (mutation b.value))
        (fun _ => A b bs) (fun e => F e b bs) w)
    (hconfirm : ∀ b bs w, A b bs w →
      G (.transact [.confirm b]) w (.ok (Transaction.run [.confirm b] w.db).1)
        (O.commitTo [.confirm b] w) ∧ I bs (O.commitTo [.confirm b] w))
    (hdiscard : ∀ e b bs w, F e b bs w → wouldDiscard e = true →
      G (.transact [.discard b]) w (.ok (Transaction.run [.discard b] w.db).1)
        (O.commitTo [.discard b] w) ∧ I bs (O.commitTo [.discard b] w))
    (hrecord : ∀ e b bs w, F e b bs w → wouldDiscard e = false →
      G (.transact [.recordFailure b e.toString]) w
          (.ok (Transaction.run [.recordFailure b e.toString] w.db).1)
          (O.commitTo [.recordFailure b e.toString] w) ∧
        I bs (O.commitTo [.recordFailure b e.toString] w))
    (hA_fail : ∀ b bs body m w, A b bs w → G (.transact body) w (.error (.db m)) w ∧ D w)
    (hF_fail : ∀ e b bs body m w, F e b bs w →
      G (.transact body) w (.error (.db m)) w ∧ D w)
    (hend : ∀ bs w, I bs w → D w)
    (batches : List Batch) (outcome : ReplayOutcome) {w : World σ} (hw : I batches w) :
    O.setting.wpe G (flushBatches client batches outcome) (fun _ => D) (fun _ => D) w := by
  induction batches generalizing outcome w with
  | nil => exact Setting.wpe_pure hD (hend [] w hw)
  | cons b bs ih =>
      have hdone : ∀ outcome w, I bs w →
          O.setting.wpe G (pure outcome : Action ReplayOutcome) (fun _ => D) (fun _ => D) w :=
        fun outcome w h => Setting.wpe_pure hD (hend bs w h)
      have hcommit : ∀ (body : Transaction) (P : World σ → Prop)
          (next : ℕ → Action ReplayOutcome), O.setting.Stable P →
          (∀ w, P w → G (.transact body) w (.ok (body.run w.db).1) (O.commitTo body w) ∧
            I bs (O.commitTo body w)) →
          (∀ m w, P w → G (.transact body) w (.error (.db m)) w ∧ D w) →
          (∀ n w, I bs w → O.setting.wpe G (next n) (fun _ => D) (fun _ => D) w) →
          ∀ w, P w → O.setting.wpe G (Action.withTx body >>= next) (fun _ => D)
            (fun _ => D) w := by
        intro body P next hP hok hfail hnext w hw
        refine Setting.wpe_bind (fun _ => hD) ?_
        refine Outside.wpe_withTx hP hw (fun _ => Setting.wpe_stable _) (fun _ => hD) ?_ hfail
        intro w₁ h₁
        exact ⟨(hok w₁ h₁).1, hnext _ _ (hok w₁ h₁).2⟩
      refine Setting.wpe_bind (fun _ => hD) (Setting.wpe_attempt ?_)
      refine Setting.wpe_mono ?_ ?_ (hsend b bs w hw)
      · intro _ w₁ h₁
        exact hcommit [.confirm b] (A b bs) _ (hA b bs) (hconfirm b bs)
          (fun m w h => hA_fail b bs _ m w h) (fun _ w h => ih _ h) w₁ h₁
      · intro e w₁ h₁
        have hfail := fun (body : Transaction) (m : String) (w : World σ)
          (h : F e b bs w) => hF_fail e b bs body m w h
        by_cases hauth : e.isAuthFailure = true
        · have hkeep : wouldDiscard e = false := by simp [wouldDiscard, hauth]
          simp only [hauth, if_true]
          exact hcommit [.recordFailure b e.toString] (F e b bs) _ (hF e b bs)
            (fun w h => hrecord e b bs w h hkeep) (hfail _) (fun _ w h => hdone _ w h) w₁ h₁
        · by_cases hdrop : wouldDiscard e = true
          · simp only [hauth, hdrop, if_true]
            exact hcommit [.discard b] (F e b bs) _ (hF e b bs)
              (fun w h => hdiscard e b bs w h hdrop) (hfail _) (fun _ w h => ih _ h) w₁ h₁
          · simp only [hauth, hdrop]
            exact hcommit [.recordFailure b e.toString] (F e b bs) _ (hF e b bs)
              (fun w h => hrecord e b bs w h (by simpa using hdrop)) (hfail _)
              (fun _ w h => ih _ h) w₁ h₁

end Flush

/-! ## Runs of a flush -/

section Runs

variable {client : MinifluxClient} {w : World σ} {o : σ}

theorem reaches_flushBatches (w : World σ) :
    O.setting.Reaches ((flush client).run, w)
      ((flushBatches client (Outbox.batches (Outbox.pending w.db)) .default).run, w) :=
  .call (Outside.act_query_ok .pending w) .refl

/-- To a server known to be new enough the write is sent, and its answer is the
result. -/
theorem reaches_updateEntries {b : Batch} {v : ServerVersion} {r : Answer (batchRequest b)}
    (hne : b.entryIds ≠ []) (hcell : w.cells client.cell = some v)
    (hfloor : v.supportsEntryStateWrites = true)
    (hsend : O.send client.transport (batchRequest b) w.outside r o) :
    O.setting.Reaches ((client.updateEntries b.entryIds (mutation b.value)).run, w)
      (.done (writeResult client (batchRequest b) r), w.setOutside o) := by
  have hcapable : O.setting.Reaches (client.writeCapableVersion.run, w)
      (.done (.ok v), w) := by
    refine .call (Outside.act_knownVersion client.cell w) ?_
    rw [hcell]
    exact .refl
  have hrefuse : O.setting.Reaches (client.refuseEntryWritesBeforeFloor.run, w)
      (.done (.ok ()), w) := by
    refine (hcapable.bind_ok _).trans ?_
    rw [if_pos hfloor]
    exact .refl
  unfold MinifluxClient.updateEntries
  rw [if_neg hne]
  refine (hrefuse.bind_ok _).trans ?_
  refine Setting.Reaches.call (Outside.act_send_of hsend) ?_
  cases r <;> exact .refl

/-- Where no version is known, a failed probe is the result of the write. -/
theorem reaches_updateEntries_of_probe {b : Batch} {r : Answer .version} {e : Error}
    (hne : b.entryIds ≠ []) (hcell : w.cells client.cell = none)
    (hsend : O.send client.transport .version w.outside r o)
    (hresult : readResult client .version r = .error e) :
    O.setting.Reaches ((client.updateEntries b.entryIds (mutation b.value)).run, w)
      (.done (.error e), w.setOutside o) := by
  have hversion : O.setting.Reaches (client.version.run, w)
      (.done (.error e), w.setOutside o) := by
    have hget : O.setting.Reaches ((client.getJson .version).run, w)
        (.done (readResult client .version r), w.setOutside o) := reaches_getJson hsend
    rw [hresult] at hget
    exact hget.bind_error _
  have hcapable : O.setting.Reaches (client.writeCapableVersion.run, w)
      (.done (.error e), w.setOutside o) := by
    refine .call (Outside.act_knownVersion client.cell w) ?_
    rw [hcell]
    exact hversion
  unfold MinifluxClient.updateEntries
  rw [if_neg hne]
  exact (hcapable.bind_error _).bind_error _

/-- Where no version is known, a probe that names one new enough leads to the write. -/
theorem reaches_write_of_probe {b : Batch} {r : Answer .version} {raw : String}
    {v : ServerVersion} (hne : b.entryIds ≠ []) (hcell : w.cells client.cell = none)
    (hsend : O.send client.transport .version w.outside r o)
    (hresult : readResult client .version r = .ok ⟨raw⟩)
    (hparse : ServerVersion.parse raw = some v) (hfloor : v.supportsEntryStateWrites = true) :
    ∃ next, O.setting.Reaches ((client.updateEntries b.entryIds (mutation b.value)).run, w)
      (.call (.send client.transport (batchRequest b)) next,
        (w.setOutside o).setCell client.cell v) := by
  have hversion : O.setting.Reaches (client.version.run, w)
      (.done (.ok v), (w.setOutside o).setCell client.cell v) := by
    have hget : O.setting.Reaches ((client.getJson .version).run, w)
        (.done (readResult client .version r), w.setOutside o) := reaches_getJson hsend
    rw [hresult] at hget
    refine (hget.bind_ok _).trans ?_
    rw [hparse]
    exact Setting.Reaches.call (Outside.act_rememberVersion client.cell v _) .refl
  have hcapable : O.setting.Reaches (client.writeCapableVersion.run, w)
      (.done (.ok v), (w.setOutside o).setCell client.cell v) := by
    refine .call (Outside.act_knownVersion client.cell w) ?_
    rw [hcell]
    exact hversion
  have hrefuse : O.setting.Reaches (client.refuseEntryWritesBeforeFloor.run, w)
      (.done (.ok ()), (w.setOutside o).setCell client.cell v) := by
    refine (hcapable.bind_ok _).trans ?_
    rw [if_pos hfloor]
    exact .refl
  unfold MinifluxClient.updateEntries
  rw [if_neg hne]
  exact ⟨_, (hrefuse.bind_ok _).trans .refl⟩

/-- An accepted write leads to the confirmation of its batch. -/
theorem reaches_confirm {b : Batch} {bs : List Batch} {outcome : ReplayOutcome}
    {w' : World σ}
    (h : O.setting.Reaches ((client.updateEntries b.entryIds (mutation b.value)).run, w)
      (.done (.ok ()), w')) :
    ∃ next, O.setting.Reaches ((flushBatches client (b :: bs) outcome).run, w)
      (.call (.transact [.confirm b]) next, w') := by
  apply Exists.intro
  exact (h.attempt.bind_ok _).trans .refl

/-- A write that fails with a rejection leads to the loss of its batch,
whichever request the rejection answered. -/
theorem reaches_discard {b : Batch} {bs : List Batch} {outcome : ReplayOutcome}
    {w' : World σ} {e : Error} (hdrop : wouldDiscard e = true)
    (h : O.setting.Reaches ((client.updateEntries b.entryIds (mutation b.value)).run, w)
      (.done (.error e), w')) :
    ∃ next, O.setting.Reaches ((flushBatches client (b :: bs) outcome).run, w)
      (.call (.transact [.discard b]) next, w') := by
  have hauth : e.isAuthFailure = false := by
    simp only [wouldDiscard, Bool.and_eq_true, Bool.not_eq_true'] at hdrop
    exact hdrop.1
  apply Exists.intro
  refine (h.attempt.bind_ok _).trans ?_
  simp only [hauth, hdrop, if_true]
  exact .refl

end Runs

end Replay

end Vuo
