import Vuo.Verification.Replay.Rules

/-!
# A record of requests

An outside that keeps every request made with its answer. What a flush does is
followed by that record alone: a batch is confirmed after an answer that
accepted it, and discarded after one that rejects.
-/

namespace Vuo

open Foundation MinifluxClient

namespace Replay

/-- One request and its answer. -/
structure Exchange where
  transport : Transport
  request : Request
  answer : Answer request

namespace Exchange

/-- The HTTP status a request was answered with, if it was answered. -/
def status? (x : Exchange) : Option ℕ :=
  match x.answer with
  | .ok response => some response.status
  | .error (.http status _ _) => some status
  | .error _ => none

/-- Answered with a status that rejects the payload forever. -/
def Rejected (x : Exchange) : Prop :=
  ∃ status ∈ Error.rejectedStatuses, x.status? = some status

def Accepted (x : Exchange) : Prop :=
  ∃ status, x.status? = some status ∧ 200 ≤ status ∧ status < 300

/-- A write of the batch's one field and value for its entries. -/
def Writes (batch : Batch) (x : Exchange) : Prop :=
  x.request = batchRequest batch

/-- A write of a row's own intent that the server accepted or rejected
forever. -/
def Settles (row : OutboxRow) (x : Exchange) : Prop :=
  ∃ batch, x.Writes batch ∧ Outbox.covers batch row = true ∧ (x.Accepted ∨ x.Rejected)

/-- A version probe answered with a status that would reject a payload. -/
def ProbeRejected (x : Exchange) : Prop :=
  x.request = .version ∧ x.Rejected

end Exchange

/-! ## What an answer says -/

theorem rejected_of_wouldDiscard {e : Error} (h : wouldDiscard e = true) :
    ∃ status endpoint message, e = .http status endpoint message ∧
      status ∈ Error.rejectedStatuses := by
  simp only [wouldDiscard, Bool.and_eq_true] at h
  exact Error.isPermanentlyRejected_iff.1 h.2

/-- Failures of the transport discard nothing. -/
theorem wouldDiscard_of_fails {e : Error} (h : Transport.Fails e) :
    wouldDiscard e = false := by
  by_contra hdrop
  obtain ⟨status, _, _, rfl, hstatus⟩ := rejected_of_wouldDiscard (by simpa using hdrop)
  simp only [Error.rejectedStatuses, List.mem_cons, List.not_mem_nil, or_false] at hstatus
  simp only [Transport.Fails] at h
  omega

section Answers

variable [Endpoints] {client : MinifluxClient}

theorem accepted_of_writeResult {request : Request} {r : Answer request} {t : Transport}
    (h : writeResult client request r = .ok ()) :
    Exchange.Accepted ⟨t, request, r⟩ := by
  cases r with
  | error e => cases h
  | ok response =>
      rcases status_of_checkStatus response
        (Endpoints.endpoint client.transport request) with hok | ⟨m, herr⟩
      · exact ⟨response.status, rfl, hok.2⟩
      · have hboth := herr.symm.trans h
        cases hboth

/-- A result that would discard comes from an answer that rejects. -/
theorem rejected_of_result {request : Request} {r : Answer request} {e : Error}
    {t : Transport} (hfails : ∀ e, r = .error e → Transport.Fails e)
    (h : writeResult client request r = .error e ∨ readResult client request r = .error e)
    (hdrop : wouldDiscard e = true) : Exchange.Rejected ⟨t, request, r⟩ := by
  obtain ⟨status, endpoint, message, rfl, hstatus⟩ := rejected_of_wouldDiscard hdrop
  cases r with
  | error e' =>
      have he : e' = .http status endpoint message := by
        rcases h with h | h <;> exact Except.error.inj h
      rw [wouldDiscard_of_fails (he ▸ hfails e' rfl)] at hdrop
      cases hdrop
  | ok response =>
      rcases status_of_checkStatus response
        (Endpoints.endpoint client.transport request) with hok | ⟨m, herr⟩
      · rcases h with h | h
        · have hboth := hok.1.symm.trans h
          cases hboth
        · -- the body was read, and what does not decode is a protocol error
          have hdecode : decode response
              (Endpoints.endpoint client.transport request) =
                .error (.http status endpoint message) := h
          simp only [decode, hok.1] at hdecode
          cases hbody : response.body <;> simp [hbody, bind, Except.bind] at hdecode
      · refine ⟨status, hstatus, ?_⟩
        rcases h with h | h
        · have hboth := herr.symm.trans h
          cases hboth
          rfl
        · have hdecode : decode response
              (Endpoints.endpoint client.transport request) =
                .error (.http status endpoint message) := h
          simp only [decode, herr] at hdecode
          cases hdecode
          rfl

end Answers

/-! ## A flush by its record -/

variable {σ : Type*} {O : Outside σ} {log : σ → List Exchange}
  {G : Setting.Guarantee Op Op.Ans (World σ)}

/-- The outside keeps the record, and the transport fails only as transports
do. -/
structure Records (O : Outside σ) (log : σ → List Exchange) : Prop where
  send : ∀ t request o (r : Answer request) o', O.send t request o r o' →
    (∀ e, r = .error e → Transport.Fails e) ∧ log o' = log o ++ [⟨t, request, r⟩]
  now : ∀ o t o', O.now o t o' → log o' = log o
  env : ∀ w w', O.env w w' → log w'.outside = log w.outside

/-- A batch was written and accepted. -/
def BatchAccepted (log : List Exchange) (b : Batch) : Prop :=
  ∃ x ∈ log, x.Writes b ∧ x.Accepted

/-- A batch's write was rejected, or a version probe was. -/
def BatchRejected (log : List Exchange) (b : Batch) : Prop :=
  ∃ x ∈ log, (x.Writes b ∨ x.request = .version) ∧ x.Rejected

theorem Records.stable (h : Records O log) (P : List Exchange → Prop) :
    O.setting.Stable fun w => P (log w.outside) := by
  intro w w' henv hw
  rw [h.env w w' henv]
  exact hw

section Flush

variable [Endpoints] {client : MinifluxClient} {P : World σ → Prop} (h : Records O log)
  (hP : O.setting.Stable P)
  (hG : ∀ op w r w', (∀ body, op ≠ .transact body) → w'.db = w.db → G op w r w')
  (hquiet : ∀ op, (∀ body, op ≠ .transact body) → ∀ w r w', O.setting.act op w r w' → P w → P w')

include h hP hG hquiet

theorem Records.wpe_sendBatch (b : Batch) {w : World σ} (hw : P w) :
    O.setting.wpe G (client.updateEntries b.entryIds (mutation b.value))
      (fun _ w => P w ∧ BatchAccepted (log w.outside) b)
      (fun e w => P w ∧ (wouldDiscard e = true → BatchRejected (log w.outside) b)) w := by
  refine wpe_updateEntries (P := P) hP
    (hP.and (h.stable fun log => BatchAccepted log b))
    (fun e => hP.and (h.stable fun log => wouldDiscard e = true → BatchRejected log b))
    ?_ ?_ ?_ ?_ ?_ hw
  · intro op hop w r w' hact hw
    have hkind : ∀ body, op ≠ .transact body := by
      rintro body rfl
      exact hop
    exact ⟨hG op w r w' hkind (Outside.db_of_act hkind hact), hquiet op hkind w r w' hact hw⟩
  · intro w hw
    exact ⟨hw, fun hdrop => (nomatch hdrop)⟩
  · intro v w hw
    exact ⟨hw, fun hdrop => (nomatch hdrop)⟩
  · intro w hw r o hsend
    have hw' : P (w.setOutside o) :=
      hquiet (.send client.transport .version) (by simp) w r _ (Outside.act_send_of hsend) hw
    obtain ⟨hfails, hlog⟩ := h.send _ _ _ _ _ hsend
    refine ⟨hG _ _ _ _ (by simp) rfl, ?_⟩
    cases hresult : readResult client .version r with
    | ok a => exact hw'
    | error e =>
        refine ⟨hw', fun hdrop => ⟨⟨client.transport, .version, r⟩, ?_, .inr rfl,
          rejected_of_result hfails (.inr hresult) hdrop⟩⟩
        rw [World.outside_setOutside, hlog]
        exact List.mem_concat_self
  · intro w hw r o hsend
    have hw' : P (w.setOutside o) :=
      hquiet (.send client.transport (batchRequest b)) (by simp) w r _
        (Outside.act_send_of hsend) hw
    obtain ⟨hfails, hlog⟩ := h.send _ _ _ _ _ hsend
    have hmem : (⟨client.transport, batchRequest b, r⟩ : Exchange) ∈
        log (w.setOutside o).outside := by
      rw [World.outside_setOutside, hlog]
      exact List.mem_concat_self
    refine ⟨hG _ _ _ _ (by simp) rfl, ?_⟩
    cases hresult : writeResult client (batchRequest b) r with
    | ok a => exact ⟨hw', _, hmem, rfl, accepted_of_writeResult hresult⟩
    | error e =>
        exact ⟨hw', fun hdrop => ⟨_, hmem, .inl rfl,
          rejected_of_result hfails (.inl hresult) hdrop⟩⟩

/-- The rule of a flush, from what the record holds when a batch is confirmed or
discarded. -/
theorem Records.wpe_flush
    (hconfirm : ∀ b w, P w → BatchAccepted (log w.outside) b →
      G (.transact [.confirm b]) w (.ok (Transaction.run [.confirm b] w.db).1)
        (O.commitTo [.confirm b] w) ∧ P (O.commitTo [.confirm b] w))
    (hdiscard : ∀ b w, P w → BatchRejected (log w.outside) b →
      G (.transact [.discard b]) w (.ok (Transaction.run [.discard b] w.db).1)
        (O.commitTo [.discard b] w) ∧ P (O.commitTo [.discard b] w))
    (hrecord : ∀ b error w, P w →
      G (.transact [.recordFailure b error]) w
          (.ok (Transaction.run [.recordFailure b error] w.db).1)
          (O.commitTo [.recordFailure b error] w) ∧
        P (O.commitTo [.recordFailure b error] w))
    (hfail : ∀ body m w, P w → G (.transact body) w (.error (.db m)) w)
    {w : World σ} (hw : P w) :
    O.setting.wpe G (flush client) (fun _ => P) (fun _ => P) w := by
  refine Setting.wpe_bind (fun _ => hP) ?_
  refine Outside.wpe_query hP hw (fun _ => Setting.wpe_stable _) (fun _ => hP) ?_
    (fun _ _ hw => hw) (fun w r _ => hG _ w r w (by simp) rfl)
  · intro w₁ h₁
    refine wpe_flushBatches (I := fun _ => P)
      (A := fun b _ w => P w ∧ BatchAccepted (log w.outside) b)
      (F := fun e b _ w => P w ∧ (wouldDiscard e = true → BatchRejected (log w.outside) b))
      (fun b _ => hP.and (h.stable fun log => BatchAccepted log b))
      (fun e b _ => hP.and (h.stable fun log => wouldDiscard e = true → BatchRejected log b))
      hP (fun b _ w hw => h.wpe_sendBatch hP hG hquiet b hw) ?_ ?_ ?_ ?_ ?_
      (fun _ _ hw => hw) _ _ h₁
    · intro b _ w hw
      exact hconfirm b w hw.1 hw.2
    · intro e b _ w hw hdrop
      exact hdiscard b w hw.1 (hw.2 hdrop)
    · intro e b _ w hw _
      exact hrecord b e.toString w hw.1
    · intro b _ body m w hw
      exact ⟨hfail body m w hw.1, hw.1⟩
    · intro e b _ body m w hw
      exact ⟨hfail body m w hw.1, hw.1⟩

end Flush

end Replay

end Vuo
