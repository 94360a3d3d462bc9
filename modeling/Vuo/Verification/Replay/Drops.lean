import Vuo.Verification.Mirror.PendingWins
import Vuo.Verification.Replay.Record

/-!
# What a flush may drop

A flush runs against a server that answers every request as it likes, while
the reader goes on queueing. The outside is the record of the requests the
flush made and what each was answered.
-/

namespace Vuo

open Foundation Outbox MinifluxClient

namespace Replay

/-- Any server, and a reader who may queue at any moment. -/
def anyServer : Outside (List Exchange) where
  send t request log r log' :=
    (∀ e, r = .error e → Transport.Fails e) ∧ log' = log ++ [⟨t, request, r⟩]
  now log _ log' := log' = log
  commit _ _ log := log
  env w w' := ∃ id v now, w' = w.setDb (queue id v now w.db)

/-- Every row a step removes was settled by a write of its own. -/
def DropsOnlySettled (w w' : World (List Exchange)) : Prop :=
  ∀ row ∈ w.db.outbox,
    (∀ row' ∈ w'.db.outbox, ¬(row'.key = row.key ∧ row'.value = row.value)) →
      ∃ x ∈ w.outside, x.Settles row

/-! ## What a step of a flush promises -/

/-- No version probe so far was answered with a rejecting status. -/
def ProbesHeld (log : List Exchange) : Prop :=
  ∀ x ∈ log, ¬x.ProbeRejected

/-- The guarantee of a flush's transactions. -/
def dropGuarantee : Setting.Guarantee Op Op.Ans (World (List Exchange)) :=
  fun op w _ w' =>
    match op with
    | .transact _ => ProbesHeld w.outside → DropsOnlySettled w w'
    | _ => True

theorem records_anyServer : Records anyServer id where
  send := fun _ _ _ _ _ hsend => hsend
  now := fun _ _ _ hnow => hnow
  env := by
    rintro w w' ⟨id, v, now, rfl⟩
    rfl

/-- While no version probe was rejected, a rejection is of the write itself. -/
theorem BatchRejected.writes {log : List Exchange} {b : Batch} (h : BatchRejected log b)
    (hprobes : ProbesHeld log) : ∃ x ∈ log, x.Writes b ∧ x.Rejected := by
  obtain ⟨x, hx, hwrites | hversion, hrejected⟩ := h
  · exact ⟨x, hx, hwrites, hrejected⟩
  · exact absurd ⟨hversion, hrejected⟩ (hprobes x hx)

/-- Confirming or discarding a batch removes the rows it sent, and only them. -/
theorem covers_of_removed {b : Batch} {db : Db} {row : OutboxRow} (hrow : row ∈ db.outbox)
    (hgone : ∀ row' ∈ (confirm b db).2.outbox, ¬(row'.key = row.key ∧ row'.value = row.value)) :
    covers b row = true := by
  by_contra hcovers
  have hkept : row ∈ (confirm b db).2.outbox := by
    rw [confirm_db]
    exact Table.mem_remove.2 ⟨hrow, by simpa using hcovers⟩
  exact hgone row hkept ⟨rfl, rfl⟩

theorem dropsOnlySettled_confirm {b : Batch} {w : World (List Exchange)}
    (h : ∃ x ∈ w.outside, x.Writes b ∧ (x.Accepted ∨ x.Rejected)) :
    DropsOnlySettled w (anyServer.commitTo [.confirm b] w) := by
  intro row hrow hgone
  obtain ⟨x, hx, hwrites, hanswer⟩ := h
  exact ⟨x, hx, b, hwrites, covers_of_removed hrow hgone, hanswer⟩

theorem dropsOnlySettled_recordFailure (b : Batch) (e : String)
    (w : World (List Exchange)) :
    DropsOnlySettled w (anyServer.commitTo [.recordFailure b e] w) := by
  intro row hrow hgone
  have hkept := recordFailure_outbox b e w.db row.key
  rw [Table.find?_of_mem hrow] at hkept
  exact absurd ⟨rfl, rfl⟩ (hgone _ (Table.mem_of_find? hkept))

theorem dropsOnlySettled_same (w : World (List Exchange)) : DropsOnlySettled w w :=
  fun row hrow hgone => absurd ⟨rfl, rfl⟩ (hgone row hrow)

/-! ## A flush step by step -/

section Flush

variable [Endpoints] {client : MinifluxClient}

theorem wpe_flush_drops (w : World (List Exchange)) :
    anyServer.setting.wpe dropGuarantee (flush client) (fun _ _ => True)
      (fun _ _ => True) w := by
  refine records_anyServer.wpe_flush (P := fun _ => True) (Setting.stable_const _) ?_
    (fun _ _ _ _ _ _ _ => trivial) ?_ ?_ ?_ ?_ trivial
  · intro op w r w' hop _
    cases op <;> first | trivial | exact absurd rfl (hop _)
  · rintro b w - ⟨x, hx, hwrites, hacc⟩
    exact ⟨fun _ => dropsOnlySettled_confirm ⟨x, hx, hwrites, .inl hacc⟩, trivial⟩
  · intro b w _ hrejected
    refine ⟨fun hprobes => ?_, trivial⟩
    obtain ⟨x, hx, hwrites, hrej⟩ := hrejected.writes hprobes
    exact dropsOnlySettled_confirm ⟨x, hx, hwrites, .inr hrej⟩
  · intro b e w _
    exact ⟨fun _ => dropsOnlySettled_recordFailure b e w, trivial⟩
  · intro body m w _ _
    exact dropsOnlySettled_same w

/-- In a flush whose version probes were not answered with a rejecting status,
every row a step of the flush removes was sent in a write of its own, and that
write was accepted or rejected forever. -/
theorem flush_drops_only_settled {db : Db} {cells : ℕ → Option ServerVersion}
    {w w' : World (List Exchange)} {op : Op}
    {next : op.Ans → Program Op Op.Ans (Except Error ReplayOutcome)} {r : op.Ans}
    (hrun : anyServer.setting.Reaches (flush client, ⟨db, cells, []⟩) (.call op next, w))
    (hstep : anyServer.setting.act op w r w') (hprobes : ProbesHeld w.outside) :
    DropsOnlySettled w w' := by
  by_cases hop : ∃ body, op = .transact body
  · obtain ⟨body, rfl⟩ := hop
    exact Setting.wp_called (wpe_flush_drops ⟨db, cells, []⟩) hrun hstep hprobes
  · have hdb := Outside.db_of_act (fun body hbody => hop ⟨body, hbody⟩) hstep
    intro row hrow hgone
    exact absurd ⟨rfl, rfl⟩ (hgone row (hdb ▸ hrow))

end Flush

/-! ## One star, twice -/

section Star

def starBatch : Batch where
  value := .starred true
  entryIds := [7]

open scoped Reader

/-- The world a flush of one star starts in. -/
def starWorld (known : Option ServerVersion) (log : List Exchange) :
    World (List Exchange) :=
  ⟨starredDb, fun _ => known, log⟩

theorem batches_starredDb : batches (pending starredDb) = [starBatch] := by
  decide

theorem send_answered (q : Request) (status : ℕ) (a : q.Payload) (log : List Exchange) :
    anyServer.send readerClient.transport q log (answered status a none)
      (log ++ [⟨readerClient.transport, q, answered status a none⟩]) :=
  ⟨fun _ h => (nomatch h), rfl⟩

/-- Known to be new enough, the server takes the star: the row that goes was
sent and accepted. -/
theorem flush_drops_only_settled_accepted :
    ∃ w w' : World (List Exchange), w.db.outbox.rows = [intentRow 7 (.starred true) 0] ∧
      w'.db.outbox.rows = [] ∧ DropsOnlySettled w w' := by
  have hwrite := reaches_updateEntries (b := starBatch)
    (w := starWorld (some ⟨"2.3.2", 2, 3, 2⟩) []) (List.cons_ne_nil 7 []) rfl (by decide)
    (send_answered (batchRequest starBatch) 204 () [])
  obtain ⟨next, hconfirm⟩ := reaches_confirm hwrite
  have hrun := reaches_flushBatches (O := anyServer)
    (starWorld (some ⟨"2.3.2", 2, 3, 2⟩) []) |>.trans hconfirm
  refine ⟨_, _, rfl, rfl, flush_drops_only_settled hrun (Outside.act_transact_ok _ _) ?_⟩
  intro x hx
  rw [List.mem_singleton.1 hx]
  rintro ⟨hversion, -⟩
  cases hversion

/-- Asked for its version, a server answers 400: the star goes although no
write was sent. -/
theorem flush_drops_unsent :
    ∃ (w w' : World (List Exchange)) (op : Op)
      (next : op.Ans → Program Op Op.Ans (Except Error ReplayOutcome)) (r : op.Ans),
      anyServer.setting.Reaches (flush readerClient, starWorld none []) (.call op next, w) ∧
      anyServer.setting.act op w r w' ∧ ¬DropsOnlySettled w w' := by
  have hwrite := reaches_updateEntries_of_probe (b := starBatch) (w := starWorld none [])
    (List.cons_ne_nil 7 []) rfl (send_answered .version 400 ⟨""⟩ []) rfl
  obtain ⟨next, hdiscard⟩ := reaches_discard (by decide) hwrite
  have hrun := reaches_flushBatches (O := anyServer) (starWorld none []) |>.trans hdiscard
  refine ⟨_, _, _, next, _, hrun, Outside.act_transact_ok _ _, ?_⟩
  intro hsettled
  obtain ⟨x, hx, b, hwrites, -⟩ := hsettled (intentRow 7 (.starred true) 0)
    (List.mem_singleton.2 rfl) (fun row' hrow' => absurd hrow' (List.not_mem_nil))
  rw [List.mem_singleton.1 hx] at hwrites
  cases hwrites

end Star

end Replay

end Vuo
