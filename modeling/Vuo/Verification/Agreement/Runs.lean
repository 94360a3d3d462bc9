import Vuo.Verification.Agreement.Statements
import Vuo.Verification.Pull.NoGaps
import Vuo.Verification.Replay.Rules

/-!
# Agreement at quiescence

The mirror agrees with every change handed to it, through passes, flushes,
failures and whatever the reader does meanwhile, as long as no intent was thrown
away that the server should have been told. What it does not agree on is queued,
or newer than the stored cursor; once nothing is, one full pass settles it.
-/

namespace Vuo

open Foundation MinifluxClient

namespace Journal

variable [UrlLibrary]

/-- The mirror agrees with what was handed to it, at least the changes in `S`,
unless an intent was thrown away. -/
structure Level (S : Set ℕ) (w : World Journal) : Prop where
  wins : PendingWins w.db
  offers : w.outside.Offers
  bound : ∀ i ∈ w.outside.handed, i < w.outside.offered.1
  kept : S ⊆ w.outside.handed
  agrees : ¬w.outside.spoiled → AgreesOn w.outside.changes w.outside.handed w.db

variable {S : Set ℕ} {w : World Journal}

theorem Level.bound' (h : Level S w) : ∀ i ∈ w.outside.handed, i < w.outside.changes.length :=
  fun i hi => (h.bound i hi).trans_le h.offers.bound

/-! ## The steps -/

theorem Level.grows {w' : World Journal} (h : Level S w) (hgrows : w.outside.Grows w'.outside)
    (hwins : PendingWins w'.db)
    (hdb : ∀ H : Set ℕ, AgreesOn w.outside.changes H w.db →
      AgreesOn w.outside.changes H w'.db) :
    Level S w' where
  wins := hwins
  offers := h.offers.grows hgrows
  bound := by
    rw [hgrows.handed, hgrows.offered]
    exact h.bound
  kept := hgrows.handed ▸ h.kept
  agrees := by
    rw [hgrows.spoiled, hgrows.handed]
    intro hspoiled i hi id f v x hv hx hp
    exact hdb _ (h.agrees hspoiled) i hi id f v x (hgrows.serves (h.bound' i hi) hv) hx hp

theorem stable_level : journal.setting.Stable (Level S) := by
  rintro w w' ⟨hgrows, body, hbody, hdb⟩ h
  refine h.grows hgrows ?_ fun H hH => ?_
  · rw [hdb]
    exact Transaction.exec_invariant (fun s _ _ hwins => pendingWins_exec s hwins) h.wins
  · rw [hdb]
    exact Transaction.exec_invariant (P := AgreesOn w.outside.changes H)
      (fun s hs _ hagrees => hagrees.reader (hbody s hs)) hH

theorem Level.send {t : Transport} {request : Request} {r : Answer request} {o : Journal}
    (h : Level S w) (hsend : journal.send t request w.outside r o) :
    Level S (w.setOutside o) := by
  obtain ⟨o₁, hgrows, hanswers, rfl⟩ := hsend
  have hgrown : Level S (w.setOutside o₁) := h.grows hgrows h.wins fun _ hH => hH
  have hoffers : (o₁.offer request r).Offers := hgrown.offers.offer hanswers
  obtain ⟨offered, heq, hoffered⟩ := offer_eq o₁ request r
  rw [heq] at hoffers ⊢
  refine ⟨hgrown.wins, hoffers, fun i hi => ?_, hgrown.kept, hgrown.agrees⟩
  rcases hoffered with rfl | hlength
  · exact hgrown.bound i hi
  · exact (hgrown.bound' i hi).trans_le hlength.ge

/-- What a commit leaves, from what it does to the agreement. -/
theorem Level.commit {body : Transaction} (h : Level S w)
    (hagrees : ¬w.outside.spoiled → ¬w.outside.Spoils body w.db →
      AgreesOn w.outside.changes (w.outside.handed ∪ w.outside.handedBy body)
        (body.exec w.db)) :
    Level S (journal.commitTo body w) where
  wins := Transaction.exec_invariant (fun s _ _ hwins => pendingWins_exec s hwins) h.wins
  offers := ⟨h.offers.rows, h.offers.bound⟩
  bound := by
    rintro i (hi | hi)
    · exact h.bound i hi
    · exact hi.1
  kept := h.kept.trans Set.subset_union_left
  agrees := fun hspoiled => hagrees (fun hs => hspoiled (.inl hs)) fun hs => hspoiled (.inr hs)

theorem Level.commit_of_fits {body : Transaction} (h : Level S w)
    (hbody : ∀ s ∈ body, w.outside.Fits s) : Level S (journal.commitTo body w) :=
  h.commit fun hspoiled _ => (h.agrees hspoiled).transaction h.offers h.bound hbody

theorem Level.confirm {b : Batch} (h : Level S w) (hb : Superseded b w.outside) :
    Level S (journal.commitTo [.confirm b] w) :=
  h.commit fun hspoiled _ => ((h.agrees hspoiled).confirm hb).union
    (.handedBy h.offers (by simp) _)

theorem Level.discard (h : Level S w) (b : Batch) :
    Level S (journal.commitTo [.discard b] w) :=
  h.commit fun hspoiled hspoils => ((h.agrees hspoiled).discard h.wins hspoils).union
    (.handedBy h.offers (by simp) _)

theorem Level.crash {w' : World Journal} (hcrash : Crash w w') (h : Level S w) : Level S w' := by
  obtain ⟨hdb, houtside⟩ := hcrash
  obtain ⟨hwins, hoffers, hbound, hkept, hagrees⟩ := h
  rw [← hdb] at hwins hagrees
  rw [← houtside] at hoffers hbound hkept hagrees
  exact ⟨hwins, hoffers, hbound, hkept, hagrees⟩

theorem Level.of_fresh (h : Pull.Fresh w) (hwins : PendingWins w.db) : Level ∅ w where
  wins := hwins
  offers := by
    refine ⟨fun row hrow => ?_, ?_⟩
    · rw [h.offered] at hrow
      cases hrow
    · rw [h.offered]
      exact Nat.zero_le _
  bound := fun i hi => by
    rw [h.handed] at hi
    exact hi.elim
  kept := Set.empty_subset _
  agrees := fun _ i hi => by
    rw [h.handed] at hi
    exact hi.elim

/-- The operations that neither reach outside nor write leave it alone. -/
theorem Level.quiet {op : Op} (hop : op.Quiet) {r : op.Ans} {w' : World Journal}
    (hact : journal.setting.act op w r w') (h : Level S w) : Level S w' := by
  cases op with
  | query q =>
      obtain ⟨rfl, -⟩ := Outside.act_query hact
      exact h
  | transact body => exact hop.elim
  | send t request => exact hop.elim
  | now =>
      obtain ⟨-, rfl, rfl⟩ := hact
      exact h
  | knownVersion cell =>
      obtain ⟨-, rfl⟩ := hact
      exact h
  | rememberVersion cell version =>
      cases hact
      exact ⟨h.wins, h.offers, h.bound, h.kept, h.agrees⟩

/-- A step whose transactions always fit. -/
theorem wpe_level {α : Type} {p : Action α}
    (hp : Program.CallsE (Op.Commits fun s => ∀ o : Journal, o.Fits s) p) (hw : Level S w) :
    journal.setting.wpe (Setting.keeps (Level S)) p (fun _ => Level S) (fun _ => Level S) w := by
  refine Setting.wpe_of_calls stable_level ?_ hp hw
  intro op hop w r w' hact h
  suffices h' : Level S w' from ⟨h', h'⟩
  cases op with
  | transact body =>
      obtain ⟨-, rfl⟩ | ⟨-, rfl⟩ := Outside.act_transact hact
      · exact h.commit_of_fits fun s hs => hop s hs _
      · exact h
  | send t request =>
      obtain ⟨o, hsend, rfl⟩ := Outside.act_send hact
      exact h.send hsend
  | _ => exact h.quiet (by exact trivial) hact

section Jobs

variable [Endpoints] {client : MinifluxClient}

/-! ## A flush -/

omit [Endpoints] in
theorem stable_superseded (b : Batch) :
    journal.setting.Stable fun w => Level S w ∧ Superseded b w.outside := by
  rintro w w' henv ⟨h, hb⟩
  exact ⟨stable_level w w' henv h, hb.grows h.bound' henv.1⟩

theorem wpe_sendBatch {b : Batch} (hw : Level S w) :
    journal.setting.wpe (Setting.keeps (Level S))
      (client.updateEntries b.entryIds (Replay.mutation b.value))
      (fun _ w => Level S w ∧ Superseded b w.outside) (fun _ => Level S) w := by
  refine Replay.wpe_updateEntries stable_level (stable_superseded b) (fun _ => stable_level) ?_
    (fun _ h => h) (fun _ _ h => h) ?_ ?_ hw
  · intro op hop w r w' hact h
    exact ⟨h.quiet hop hact, h.quiet hop hact⟩
  · intro w h r o hsend
    refine ⟨h.send hsend, ?_⟩
    cases readResult client .version r <;> exact h.send hsend
  · intro w h r o hsend
    have hlevel := h.send hsend
    refine ⟨hlevel, ?_⟩
    cases hresult : writeResult client (Replay.batchRequest b) r with
    | error e => exact hlevel
    | ok u =>
        obtain ⟨o₁, hgrows, hanswers, rfl⟩ := hsend
        cases r with
        | error e => cases hresult
        | ok response =>
            have hstatus : 200 ≤ response.status ∧ response.status < 300 := by
              rcases status_of_checkStatus response (Endpoints.endpoint client.transport
                (Replay.batchRequest b)) with ⟨-, h⟩ | ⟨m, herr⟩
              · exact h
              · exact absurd (herr.symm.trans hresult) (by simp)
            have happlied := hanswers response rfl hstatus.1 hstatus.2
            exact ⟨hlevel, superseded_of_applied h.bound' hgrows happlied rfl⟩

theorem wpe_flush_level (hw : Level S w) :
    journal.setting.wpe (Setting.keeps (Level S)) (Replay.flush client) (fun _ => Level S)
      (fun _ => Level S) w := by
  refine Setting.wpe_bind (fun _ => stable_level) (Outside.wpe_query stable_level hw
    (fun _ => Setting.wpe_stable _) (fun _ => stable_level) ?_ (fun _ _ h => h) (fun _ _ h => h))
  intro w₁ h₁
  refine Replay.wpe_flushBatches (I := fun _ => Level S)
    (A := fun b _ w => Level S w ∧ Superseded b w.outside) (F := fun _ _ _ => Level S)
    (fun b _ => stable_superseded b) (fun _ _ _ => stable_level) stable_level
    (fun b bs w h => wpe_sendBatch h) ?_ ?_ ?_ ?_ ?_ (fun _ _ h => h) _ _ h₁
  · rintro b bs w ⟨h, hb⟩
    exact ⟨h.confirm hb, h.confirm hb⟩
  · intro e b bs w h _
    exact ⟨h.discard b, h.discard b⟩
  · intro e b bs w h _
    have hlevel : Level S (journal.commitTo [.recordFailure b e.toString] w) :=
      h.commit_of_fits (by simp [Fits])
    exact ⟨hlevel, hlevel⟩
  · rintro b bs body m w ⟨h, -⟩
    exact ⟨h, h⟩
  · intro e b bs body m w h
    exact ⟨h, h⟩

/-! ## A pass -/

omit [Endpoints] in
/-- The transaction of the last page fits. -/
theorem fits_answerTx {o : Journal} {page : Wire.EntriesResponse} (ho : o.offered.2 = page.entries)
    (cursor : Option ℤ) (generation : ℤ) :
    ∀ s ∈ Pull.answerTx page cursor generation, o.Fits s := by
  intro s hs
  simp only [Pull.answerTx, Pull.pageTx, List.mem_append, List.mem_map] at hs
  rcases hs with ⟨e, he, rfl⟩ | ⟨id, -, rfl⟩
  · obtain ⟨row, hrow, -, hentry⟩ := Convert.mem_valid.1 he
    exact ⟨row, ho ▸ hrow, hentry⟩
  · trivial

theorem wpe_entries_level (cursor : Option ℤ) (generation : ℤ) (hw : Level S w) :
    journal.setting.wpe (Setting.keeps (Level S)) (Pull.entries client cursor generation)
      (fun _ => Level S) (fun _ => Level S) w := by
  have hanswered : ∀ page : Wire.EntriesResponse, journal.setting.Stable
      fun w => Level S w ∧ w.outside.offered.2 = page.entries := by
    rintro page w w' henv ⟨h, hpage⟩
    exact ⟨stable_level w w' henv h, henv.1.offered ▸ hpage⟩
  refine Pull.wpe_entriesWithPageCap (Q := fun _ => Level S) (C := fun _ _ => Level S)
    Pull.maxPagesPerPass (fun _ _ => stable_level) (fun _ => stable_level)
    (fun _ => stable_level) (fun _ _ h => h) ?_ (fun _ _ h => h) ?_
  · rintro w h t o rfl
    exact ⟨h, h⟩
  · refine Pull.wpe_entriesPages (I := fun _ _ => Level S)
      (A := fun _ _ a w => Level S w ∧ w.outside.offered.2 = a.1.entries)
      (fun _ _ => stable_level) (fun _ _ a => hanswered a.1) (fun _ _ => stable_level)
      (fun _ => stable_level) ?_ ?_ ?_ (fun _ _ _ h => h) _ none none .default hw
    · intro after anchor w h r o hsend
      have hlevel := h.send hsend
      refine ⟨hlevel, ?_⟩
      cases hresult : pageResult client (Pull.pageQuery cursor after) r with
      | error e => exact hlevel
      | ok a =>
          obtain ⟨page, date⟩ := a
          obtain ⟨response, rfl, hbody, -⟩ := pageResult_eq_ok hresult
          obtain ⟨o₁, -, -, rfl⟩ := hsend
          refine ⟨hlevel, ?_⟩
          simp [Journal.offer, hbody]
    · rintro after anchor page date w ⟨h, hpage⟩
      have hlevel := h.commit_of_fits (fits_answerTx hpage cursor generation)
      refine ⟨hlevel, ?_⟩
      unfold Pull.Follows
      split
      · exact hlevel
      · split
        · split <;> exact hlevel
        · exact hlevel
    · rintro after anchor page date m w ⟨h, -⟩
      exact ⟨h, h⟩

variable [IconDecoder] (options : SyncOptions)

theorem levelRules : Sync.PassRules journal (Setting.keeps (Level S)) client options
    (Level S) (fun _ => Level S) (fun _ _ => Level S) (fun _ _ _ => Level S) (fun _ => Level S)
    (fun _ => Level S) where
  stable_start := stable_level
  stable_read := fun _ => stable_level
  stable_running := fun _ _ => stable_level
  stable_pulled := fun _ _ _ => stable_level
  stable_end := fun _ => stable_level
  stable_error := fun _ => stable_level
  read := fun _ h => ⟨fun _ => h, h, fun _ => h⟩
  now := by
    rintro state w h t o rfl
    exact ⟨h, h⟩
  replay := by
    intro state now w h
    unfold Sync.replayStep
    split
    · exact Setting.wpe_pure stable_level h
    · exact wpe_flush_level h
  version := fun state now ttl w h =>
    wpe_level (commits_of_reads (Sync.calls_resolveVersion client state now ttl)) h
  taxonomy := fun state _ generation w h =>
    wpe_level (commits_of_fetches (Pull.fetches_taxonomy client generation
      (fun _ _ _ => trivial) (fun _ _ _ => trivial) fun _ _ => trivial)) h
  entries := fun state _ generation w h => wpe_entries_level _ generation h
  reconcile := fun state now next version interval w h =>
    wpe_level (commits_of_fetches
      (Sync.fetches_reconcileStep client state version now interval fun _ _ => trivial)) h
  icons := fun state _ next limit w h =>
    wpe_level (commits_of_fetches (Sync.fetches_fetchIcons client limit
      (fun _ _ => trivial) (fun _ _ => trivial) fun _ _ => trivial)) h
  prune := fun state now next w h =>
    wpe_level (commits_of_fetches (Sync.fetches_pruneStep options now fun _ _ => trivial)) h
  commit := by
    intro state now report version checkedAt w h
    have hlevel : Level S (journal.commitTo
        [.setSyncState (Sync.nextState state now report version checkedAt)] w) :=
      h.commit_of_fits (by simp [Fits])
    exact ⟨hlevel, hlevel⟩
  commit_fails := fun _ _ _ _ _ _ h => ⟨h, h⟩
  refused := fun _ _ _ _ h => h

theorem wp_job_level {α : Type} {p : Program Op Op.Ans α} (hp : Sync.Job α p) (hw : Level S w) :
    journal.setting.wp (Setting.keeps (Level S)) p (fun _ => Level S) w := by
  cases hp with
  | flush client =>
      refine Setting.wp_mono ?_ (wpe_flush_level hw)
      rintro (e | outcome) w' h
      · exact h
      · exact h
  | sync client options =>
      refine Setting.wp_mono ?_ (Sync.wpe_sync (levelRules options) hw)
      rintro (e | report) w' h
      · exact h
      · exact h

/-! ## Runs -/

theorem Level.visits {w₀ : World Journal} (hw₀ : Level S w₀)
    (hw : journal.setting.Visits Sync.Job Crash w₀ w) : Level S w :=
  hw.invariant stable_level (fun _ _ => Level.crash) (fun _ _ hp _ => wp_job_level hp) hw₀

end Jobs

end Journal

namespace Sync

open Journal

section Quiescence

variable [UrlLibrary] [Endpoints] [IconDecoder]

/-- While no intent was thrown away, whatever the mirror shows otherwise than
the server is queued, or its change is newer than the stored cursor. Once
nothing is queued and the server does not change any more, a pass that stored a
cursor has left nothing to differ. -/
theorem agree_at_quiescence {w₀ : World Journal} (hw₀ : Pull.Fresh w₀)
    (hreach : Reachable w₀.db) :
    (∀ w, journal.setting.Visits Job Crash w₀ w → ¬w.outside.spoiled →
      ∀ i c e f x, Last w.outside.changes i c → Convert.entry c.row = .ok e →
        Store.shown e.id f w.db = some x →
        x = Store.offered f e ∨ Outbox.pendingFor e.id f w.db = some x ∨
          i ∉ w.outside.handed ∧ ∀ t ∈ w.db.syncState.cursorChangedAfter,
            t * micros < c.stamp) ∧
    ∀ (client : MinifluxClient) (options : SyncOptions) (w₁ w₂ w₃ : World Journal)
      (report : SyncReport), journal.setting.Idle Job Crash w₀ w₁ →
      journal.setting.Reaches ((sync client options).run, w₁) (.done (.ok report), w₂) →
      report.pull.nextCursor.isSome = true →
      journal.setting.Idle Job Crash w₂ w₃ → w₃.outside.changes = w₁.outside.changes →
      w₃.db.outbox.rows = [] → ¬w₃.outside.spoiled →
      ∀ i c e f x, Last w₃.outside.changes i c → Convert.entry c.row = .ok e →
        Store.shown e.id f w₃.db = some x → x = Store.offered f e := by
  have hstart : Level ∅ w₀ := .of_fresh hw₀ hreach.pendingWins
  constructor
  · intro w hw hspoiled i c e f x hlast hentry hx
    have hlevel := hstart.visits hw
    cases hpending : Outbox.pendingFor e.id f w.db with
    | some p => exact .inr (.inl (congrArg some (hlevel.wins _ _ _ _ hpending hx).symm))
    | none =>
        by_cases hi : i ∈ w.outside.handed
        · have hserves : Serves w.outside.changes i e.id f (Store.offered f e) :=
            ⟨c, e, hlast, (Convert.entry_eq_ok hentry).1.symm, hentry, rfl⟩
          exact .inl (hlevel.agrees hspoiled i hi e.id f _ x hserves hx hpending)
        · refine .inr (.inr ⟨hi, fun t ht => ?_⟩)
          exact (Pull.no_gaps hw₀).1 w hw t ht i c hlast.1 hi
  · intro client options w₁ w₂ w₃ report hw₁ hrun hnext hw₃ hquiet hqueued hspoiled i c e f x
      hlast hentry hx
    have hhanded := (Pull.no_gaps hw₀).2 client options w₁ w₂ report hw₁ hrun hnext
    have hlevel₂ := hstart.visits (.inl (.job hw₁ (.sync client options) hrun))
    have hall : Level w₂.outside.handed w₂ :=
      ⟨hlevel₂.wins, hlevel₂.offers, hlevel₂.bound, subset_rfl, hlevel₂.agrees⟩
    have hlevel₃ := hall.visits (.inl hw₃)
    have hi : i < w₁.outside.changes.length := by
      rw [← hquiet]
      exact (List.getElem?_eq_some_iff.1 hlast.1).1
    have hserves : Serves w₃.outside.changes i e.id f (Store.offered f e) :=
      ⟨c, e, hlast, (Convert.entry_eq_ok hentry).1.symm, hentry, rfl⟩
    have hnone : Outbox.pendingFor e.id f w₃.db = none := by
      have hrow : w₃.db.outbox.find? (e.id, f.asStr) = none := by
        rw [Table.find?, hqueued]
        rfl
      rw [Outbox.pendingFor, hrow]
      rfl
    exact hlevel₃.agrees hspoiled i (hlevel₃.kept (hhanded i hi)) e.id f _ x hserves hx hnone

end Quiescence

section FirstPass

open scoped Reader

/-- After the first pass over one unread entry the mirror shows it unread. -/
theorem agree_at_quiescence_firstPass :
    ∃ (report : SyncReport) (w : World Journal) (x : DesiredValue),
      journal.setting.Reaches ((sync readerClient withoutIcons).run,
        ⟨Db.empty, fun _ => none, Pull.oneChange⟩) (.done (.ok report), w) ∧
      Store.shown 7 .status w.db = some x ∧ x = .status .unread := by
  have hsend : journal.send readerClient.transport (.entries (Pull.pageQuery none none))
      (journal.commit [] Db.empty Pull.oneChange)
      (answered 200 ⟨[wireEntry 7]⟩ (some (secondsAfter 100 (by decide))))
      (offer (journal.commit [] Db.empty Pull.oneChange) (.entries (Pull.pageQuery none none))
        (answered 200 ⟨[wireEntry 7]⟩ (some (secondsAfter 100 (by decide))))) := by
    refine ⟨_, Grows.refl _, ?_, rfl⟩
    rintro response hr
    cases hr
    refine ⟨?_, fun _ => rfl, ?_⟩
    · rintro d hd
      cases hd
      decide
    · rintro page hpage
      cases hpage
      exact lists_singleton (by decide) ⟨by simp [Pull.pageQuery, EntriesQuery.setAfterEntryId],
        by simp [Pull.pageQuery, EntriesQuery.setChangedAfter, EntriesQuery.setAfterEntryId]⟩
  have hicons : withoutIcons.iconsPerPass ≤ 0 := le_rfl
  obtain ⟨report, w₁, hnext, hw₁, hrun⟩ :=
    (Pull.bare_journal readerClient (secondsAfter 100 (by decide))).reaches_sync
      (w := ⟨Db.empty, fun _ => none, Pull.oneChange⟩) hicons rfl rfl rfl (by decide) hsend
      (by decide)
  have hfresh : Pull.Fresh ⟨Db.empty, fun _ => none, Pull.oneChange⟩ := ⟨rfl, rfl, rfl⟩
  have hshown : Store.shown 7 .status w₁.db = some (.status .unread) := by
    rw [hw₁]
    rfl
  refine ⟨report, _, .status .unread, hrun, hshown, ?_⟩
  refine (agree_at_quiescence hfresh .fresh).2 _ _ _ _ _ _ .start hrun (by rw [hnext]; rfl) .start
    ?_ ?_ ?_ 0 ⟨10 * micros, wireEntry 7⟩ _ .status _ ?_ rfl hshown
  · rw [hw₁]
    rfl
  · rw [hw₁]
    rfl
  · rw [hw₁]
    rintro (((h | h) | h) | h)
    · exact h
    · exact not_spoils (by simp) _ h
    · exact not_spoils (by simp [Pull.answerTx, Pull.pageTx]) _ h
    · exact not_spoils (by simp) _ h
  · have hchanges : w₁.outside.changes = [⟨10 * micros, wireEntry 7⟩] := by
      rw [hw₁]
      rfl
    refine ⟨by rw [hw₁]; rfl, fun j d hj (hd : w₁.outside.changes[j]? = some d) => ?_⟩
    simp [hchanges, Nat.ne_of_gt hj] at hd

end FirstPass

end Sync

end Vuo
