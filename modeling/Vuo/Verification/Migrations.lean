import Vuo.Model.Migrations

/-!
# Migrations are resumable, atomic and race-free

What a list of steps does to a file comes down to the steps the file has not
seen, in order. A beginning of the list leaves exactly the others to do.
-/

namespace Vuo.Migrations

open Foundation Foundation.Transaction

section Apply

variable {τ σ : Type*} (ex : τ → σ → Except String σ)

/-- Versions strictly ascend. -/
def Ascending (ms : List (Migration τ)) : Prop :=
  ms.Pairwise fun m n => m.version < n.version

/-- The SQL of the steps, each once and in order. -/
def execSteps : List (Migration τ) → σ → Except Error σ
  | [], c => .ok c
  | m :: ms, c =>
      match ex m.sql c with
      | .ok c' => execSteps ms c'
      | .error e => .error (failed m e)

theorem execSteps_append (ms ns : List (Migration τ)) (c : σ) :
    execSteps ex (ms ++ ns) c = (execSteps ex ms c).bind (execSteps ex ns) := by
  induction ms generalizing c with
  | nil => rfl
  | cons m ms ih =>
      rw [List.cons_append, execSteps, execSteps]
      cases ex m.sql c with
      | error e => rfl
      | ok c' => exact ih c'

theorem exec_runStep (ms : List (Migration τ)) (f : DbFile σ) :
    exec (ms.map (runStep ex)) f =
      (execSteps ex ms f.content).map fun c => { f with content := c } := by
  induction ms generalizing f with
  | nil => rfl
  | cons m ms ih =>
      rw [List.map_cons, exec, execSteps, runStep]
      cases hm : ex m.sql f.content with
      | error e => rfl
      | ok c => exact ih { f with content := c }

/-! ## One call -/

variable {ms pre post : List (Migration τ)} {f : DbFile σ}

theorem attempt_newer (h : targetOf ms < f.userVersion) :
    (apply ex ms).attempt f = .error (refused f.userVersion (targetOf ms)) := by
  simp only [Call.attempt, apply, dif_pos h]
  rfl

theorem attempt_current (h : f.userVersion = targetOf ms) : (apply ex ms).attempt f = .ok f := by
  have hnot : ¬targetOf ms < f.userVersion := by omega
  simp only [Call.attempt, apply, dif_neg hnot, if_pos h]
  rfl

/-- A file that is behind gets the steps it has not seen, and the version. -/
theorem attempt_older (h : f.userVersion < targetOf ms) :
    (apply ex ms).attempt f =
      (execSteps ex (pending f.userVersion ms) f.content).map fun c =>
        { content := c
          userVersion := targetOf ms
          nonneg := Int.le_trans f.nonneg (Int.le_of_lt h) } := by
  have hnot : ¬targetOf ms < f.userVersion := by omega
  simp only [Call.attempt, apply, dif_neg hnot, if_neg h.ne, Except.bind, exec_append,
    exec_runStep]
  cases execSteps ex (pending f.userVersion ms) f.content <;> rfl

theorem version_le_target (h : Ascending ms) {m : Migration τ} (hm : m ∈ ms) :
    m.version ≤ targetOf ms := by
  rcases List.eq_nil_or_concat ms with rfl | ⟨ms, last, rfl⟩
  · simp at hm
  · rw [List.concat_eq_append] at h hm ⊢
    have htarget : targetOf (ms ++ [last]) = last.version := by simp [targetOf]
    rw [htarget]
    rcases List.mem_append.1 hm with hm | hm
    · exact ((List.pairwise_append.1 h).2.2 m hm last (List.mem_singleton_self last)).le
    · rw [List.mem_singleton.1 hm]

theorem pending_of_target_le (h : Ascending ms) {stored : ℤ} (hstored : targetOf ms ≤ stored) :
    pending stored ms = [] := by
  refine List.filter_eq_nil_iff.2 fun m hm hlt => ?_
  have hle := version_le_target h hm
  rw [decide_eq_true_eq] at hlt
  omega

/-- The steps after a beginning of the list are above its version. -/
theorem target_lt_version (h : Ascending (pre ++ post)) (hpre : pre ≠ []) {m : Migration τ}
    (hm : m ∈ post) : targetOf pre < m.version := by
  obtain ⟨start, last, hlast⟩ := (List.eq_nil_or_concat pre).resolve_left hpre
  rw [List.concat_eq_append] at hlast
  have htarget : targetOf pre = last.version := by simp [hlast, targetOf]
  rw [htarget]
  exact (List.pairwise_append.1 h).2.2 last (by simp [hlast]) m hm

/-- A beginning of the list leaves exactly the other steps to do. -/
theorem pending_append (h : Ascending (pre ++ post)) (hpre : pre ≠ []) {stored : ℤ}
    (hstored : stored ≤ targetOf pre) :
    pending stored (pre ++ post) = pending stored pre ++ post := by
  have hpost : pending stored post = post := by
    refine List.filter_eq_self.2 fun m hm => ?_
    have hlt := target_lt_version h hpre hm
    exact decide_eq_true (by omega)
  rw [pending, List.filter_append, ← pending, ← pending, hpost]

theorem target_le_append (h : Ascending (pre ++ post)) (hpre : pre ≠ []) :
    targetOf pre ≤ targetOf (pre ++ post) := by
  obtain ⟨start, last, hlast⟩ := (List.eq_nil_or_concat pre).resolve_left hpre
  rw [List.concat_eq_append] at hlast
  have htarget : targetOf pre = last.version := by simp [hlast, targetOf]
  rw [htarget]
  exact version_le_target h (by simp [hlast])

/-- Where a call came to an end in the middle of the list, a call of the whole
list comes to what it would have come to at once. -/
theorem attempt_resume (h : Ascending (pre ++ post)) (f : DbFile σ) :
    (apply ex (pre ++ post)).attempt ((apply ex pre).run f).2 =
      (apply ex (pre ++ post)).attempt f := by
  rcases lt_trichotomy (targetOf pre) f.userVersion with hnewer | hcurrent | holder
  · rw [Call.run_of_error (attempt_newer ex hnewer)]
  · rw [Call.run_of_attempt (attempt_current ex hcurrent.symm)]
  · have hpre : pre ≠ [] := by
      rintro rfl
      have hnonneg := f.nonneg
      have hzero : targetOf ([] : List (Migration τ)) = 0 := rfl
      omega
    have hle := target_le_append h hpre
    have hpending := pending_append h hpre holder.le
    have hrest := pending_append h hpre le_rfl
    have hhead : Ascending pre := (List.pairwise_append.1 h).1
    rw [pending_of_target_le hhead le_rfl, List.nil_append] at hrest
    have hattempt := attempt_older ex holder
    rw [attempt_older ex (holder.trans_le hle), hpending, execSteps_append]
    cases hsteps : execSteps ex (pending f.userVersion pre) f.content with
    | error e =>
        rw [hsteps] at hattempt
        rw [Call.run_of_error hattempt, attempt_older ex (holder.trans_le hle), hpending,
          execSteps_append, hsteps]
    | ok c =>
        rw [hsteps] at hattempt
        rw [Call.run_of_attempt hattempt]
        rcases hle.lt_or_eq with hlt | heq
        · rw [attempt_older ex hlt, hrest]
          rfl
        · have hnil : post = [] := by
            refine List.eq_nil_iff_forall_not_mem.2 fun m hm => ?_
            have hlt := target_lt_version h hpre hm
            have hle' := version_le_target h (List.mem_append_right pre hm)
            omega
          subst hnil
          rw [attempt_current ex heq]
          simp only [List.append_nil]
          rfl

/-- A call that goes through leaves the file at the version of the last step,
with the SQL of each step it had not seen in effect once. -/
theorem content_of_ok (h : Ascending ms) (hok : ((apply ex ms).run f).1 = .ok ()) :
    ((apply ex ms).run f).2.userVersion = targetOf ms ∧
      execSteps ex (pending f.userVersion ms) f.content =
        .ok ((apply ex ms).run f).2.content := by
  rcases lt_trichotomy (targetOf ms) f.userVersion with hnewer | hcurrent | holder
  · rw [Call.run_of_error (attempt_newer ex hnewer)] at hok
    cases hok
  · rw [Call.run_of_attempt (attempt_current ex hcurrent.symm),
      pending_of_target_le h hcurrent.le]
    exact ⟨hcurrent.symm, rfl⟩
  · have hattempt := attempt_older ex holder
    cases hsteps : execSteps ex (pending f.userVersion ms) f.content with
    | error e =>
        rw [hsteps] at hattempt
        rw [Call.run_of_error hattempt] at hok
        cases hok
    | ok c =>
        rw [hsteps] at hattempt
        rw [Call.run_of_attempt hattempt]
        exact ⟨rfl, rfl⟩

/-- A step that fails takes the steps before it with it. -/
theorem run_of_step_failed (h : Ascending ms) {before after : List (Migration τ)}
    {m : Migration τ} {c : σ} {e : String}
    (hpending : pending f.userVersion ms = before ++ m :: after)
    (hbefore : execSteps ex before f.content = .ok c) (hm : ex m.sql c = .error e) :
    (apply ex ms).run f = (.error (failed m e), f) := by
  have hmem : m ∈ pending f.userVersion ms := by simp [hpending]
  have holder : f.userVersion < targetOf ms := by
    obtain ⟨hin, hlt⟩ := List.mem_filter.1 hmem
    exact (of_decide_eq_true hlt).trans_le (version_le_target h hin)
  refine Call.run_of_error ?_
  rw [attempt_older ex holder, hpending, execSteps_append, hbefore]
  simp only [Except.bind, execSteps, hm]
  rfl

/-! ## What the machinery owes -/

/-- A file stopped at any step is brought on as if it had never stopped. -/
structure Resumable (ms : List (Migration τ)) : Prop where
  result : ∀ pre : List (Migration τ), pre <+: ms → ∀ f : DbFile σ,
    ((apply ex ms).run ((apply ex pre).run f).2).1 = ((apply ex ms).run f).1
  file : ∀ pre : List (Migration τ), pre <+: ms → ∀ f : DbFile σ,
    ((apply ex ms).run f).1 = .ok () →
      ((apply ex ms).run ((apply ex pre).run f).2).2 = ((apply ex ms).run f).2
  again : ∀ f : DbFile σ, (apply ex ms).run ((apply ex ms).run f).2 = (apply ex ms).run f

/-- A call is all of the steps the file had not seen, or nothing. -/
structure Atomic (ms : List (Migration τ)) : Prop where
  newer : ∀ f : DbFile σ, targetOf ms < f.userVersion →
    (apply ex ms).run f = (.error (refused f.userVersion (targetOf ms)), f)
  stepFailed : ∀ (f : DbFile σ) (before : List (Migration τ)) (m : Migration τ)
    (after : List (Migration τ)) (c : σ) (e : String),
    pending f.userVersion ms = before ++ m :: after → execSteps ex before f.content = .ok c →
      ex m.sql c = .error e → (apply ex ms).run f = (.error (failed m e), f)
  error : ∀ (f : DbFile σ) (e : Error), ((apply ex ms).run f).1 = .error e →
    ((apply ex ms).run f).2 = f
  ok : ∀ f : DbFile σ, ((apply ex ms).run f).1 = .ok () →
    ((apply ex ms).run f).2.userVersion = targetOf ms ∧
      execSteps ex (pending f.userVersion ms) f.content = .ok ((apply ex ms).run f).2.content

/-- Connections that apply the list at the same time all get the result of
applying it once, and the file is what applying it once leaves. -/
structure RaceFree (ι : Type*) [DecidableEq ι] (ms : List (Migration τ)) : Prop where
  ended : ∀ (f : DbFile σ) t y,
    Run (System.step fun _ : ι => apply ex ms) (System.start f) t y →
    ∀ i r, y.phase i = .ended r → r = ((apply ex ms).run f).1 ∧ y.file = ((apply ex ms).run f).2
  notYet : ∀ (f : DbFile σ) t y,
    Run (System.step fun _ : ι => apply ex ms) (System.start f) t y →
    (∀ i r, y.phase i ≠ .ended r) → y.file = f
  goesOn : ∀ (f : DbFile σ) t y,
    Run (System.step fun _ : ι => apply ex ms) (System.start f) t y →
    ∀ i, (∀ r, y.phase i ≠ .ended r) → ∃ j y', System.step (fun _ => apply ex ms) j y = some y'
  bounded : ∀ (f : DbFile σ) t y,
    Run (System.step fun _ : ι => apply ex ms) (System.start f) t y →
    ∀ i, (t.filter fun x => x.event = i).length ≤ ms.length + 4

theorem resumable (h : Ascending ms) : Resumable ex ms where
  result pre hpre f := by
    obtain ⟨post, rfl⟩ := hpre
    exact Call.result_congr (attempt_resume ex h f)
  file pre hpre f hok := by
    obtain ⟨post, rfl⟩ := hpre
    cases hattempt : (apply ex (pre ++ post)).attempt f with
    | error e =>
        rw [Call.run_of_error hattempt] at hok
        cases hok
    | ok f' =>
        rw [Call.run_of_attempt hattempt,
          Call.run_of_attempt ((attempt_resume ex h f).trans hattempt)]
  again f := by
    have hself : Ascending (ms ++ []) := by rwa [List.append_nil]
    have hresume := attempt_resume ex hself f
    rw [List.append_nil] at hresume
    cases hattempt : (apply ex ms).attempt f with
    | error e =>
        have hrun := Call.run_of_error hattempt
        rw [hrun, hrun]
    | ok f' =>
        rw [Call.run_of_attempt (hresume.trans hattempt), Call.run_of_attempt hattempt]

theorem atomic (h : Ascending ms) : Atomic ex ms where
  newer _ hf := Call.run_of_error (attempt_newer ex hf)
  stepFailed _ _ _ _ _ _ hpending hbefore hm := run_of_step_failed ex h hpending hbefore hm
  error _ _ he := Call.file_of_error he
  ok _ hok := content_of_ok ex h hok

/-- A call has at most one statement a step, and the new version. -/
theorem length_apply {f : DbFile σ} {stmts : List (Transaction.Statement (DbFile σ) Error)}
    (h : apply ex ms f = .ok stmts) : stmts.length ≤ ms.length + 1 := by
  unfold apply at h
  dsimp only at h
  split_ifs at h
  · obtain rfl := Except.ok.inj h
    exact Nat.zero_le _
  · obtain rfl := Except.ok.inj h
    have hpending : (pending f.userVersion ms).length ≤ ms.length := List.length_filter_le _ _
    simpa using hpending

theorem raceFree (ι : Type*) [DecidableEq ι] (h : Ascending ms) : RaceFree ex ι ms where
  ended _ _ _ hrun := (System.once_in_effect (resumable ex h).again hrun).1
  notYet _ _ _ hrun := (System.once_in_effect (resumable ex h).again hrun).2
  goesOn _ _ _ hrun _ hi := by
    obtain ⟨order, hserial⟩ := System.serializable hrun
    exact hserial.exists_step hi
  bounded _ _ _ hrun i := by
    have hcount := System.count_steps (fun _ _ _ hstmts => length_apply ex hstmts) hrun i
    omega

end Apply

/-! ## The outbox -/

/-- The rows of the outbox, none where there is no such table. -/
def outboxRows (s : Schema) : List (List Value) :=
  ((s.tables .outbox).map SqlTable.rows).getD []

/-- No row came, went or changed, and the table did not either. -/
structure OutboxKept (s s' : Schema) : Prop where
  rows : outboxRows s' = outboxRows s
  table : ∀ t, s.tables .outbox = some t → s'.tables .outbox = some t

namespace OutboxKept

theorem refl (s : Schema) : OutboxKept s s :=
  ⟨rfl, fun _ h => h⟩

theorem trans {s₁ s₂ s₃ : Schema} (h₁ : OutboxKept s₁ s₂) (h₂ : OutboxKept s₂ s₃) :
    OutboxKept s₁ s₃ :=
  ⟨h₂.rows.trans h₁.rows, fun t ht => h₂.table t (h₁.table t ht)⟩

theorem of_tables {s s' : Schema} (h : s'.tables .outbox = s.tables .outbox) : OutboxKept s s' :=
  ⟨by rw [outboxRows, h, outboxRows], fun t ht => h.trans ht⟩

/-- A change of another table. -/
theorem of_alter {s s' : Schema} {table : TableName} {f : SqlTable → Except String SqlTable}
    (htable : table ≠ .outbox) (h : s.alter table f = .ok s') : OutboxKept s s' := by
  unfold Schema.alter at h
  cases ht : s.tables table with
  | none =>
      rw [ht] at h
      cases h
  | some t =>
      rw [ht] at h
      dsimp only at h
      cases hf : f t with
      | error e =>
          rw [hf] at h
          cases h
      | ok t' =>
          rw [hf] at h
          obtain rfl := Except.ok.inj h
          exact of_tables (Function.update_of_ne (Ne.symm htable) _ _)

end OutboxKept

/-- The statement changes no table that may be the outbox. -/
def Ddl.sparesOutbox : Ddl → Bool
  | .createTable .. | .createIndex .. => true
  | .addColumn table _ | .insert table _ => table ≠ .outbox

/-- A table that is created was not there, and is empty. -/
theorem OutboxKept.exec {stmt : Ddl} (hspares : stmt.sparesOutbox = true) {s s' : Schema}
    (h : stmt.exec s = .ok s') : OutboxKept s s' := by
  cases stmt with
  | createTable table columns =>
      unfold Ddl.exec at h
      dsimp only at h
      split_ifs at h with hnew
      obtain rfl := Except.ok.inj h
      by_cases htable : table = .outbox
      · subst htable
        have hnone : s.tables .outbox = none := by simpa using hnew
        refine ⟨?_, fun t ht => ?_⟩
        · simp [outboxRows, hnone]
        · rw [hnone] at ht
          cases ht
      · exact .of_tables (Function.update_of_ne (Ne.symm htable) _ _)
  | createIndex name table =>
      unfold Ddl.exec at h
      dsimp only at h
      split_ifs at h
      obtain rfl := Except.ok.inj h
      exact .of_tables rfl
  | addColumn table column => exact .of_alter (of_decide_eq_true hspares) h
  | insert table values => exact .of_alter (of_decide_eq_true hspares) h

theorem OutboxKept.executeBatch {stmts : List Ddl}
    (hspares : ∀ stmt ∈ stmts, stmt.sparesOutbox = true) {s s' : Schema}
    (h : Migrations.executeBatch stmts s = .ok s') : OutboxKept s s' := by
  induction stmts generalizing s with
  | nil =>
      obtain rfl := Except.ok.inj h
      exact .refl s
  | cons stmt stmts ih =>
      rw [Migrations.executeBatch] at h
      cases hstmt : stmt.exec s with
      | error e =>
          rw [hstmt] at h
          cases h
      | ok s₁ =>
          rw [hstmt] at h
          have hrest := ih (fun stmt hs => hspares stmt (List.mem_cons_of_mem _ hs)) h
          exact (OutboxKept.exec (hspares stmt List.mem_cons_self) hstmt).trans hrest

theorem spares_migrations : ∀ m ∈ migrations, ∀ stmt ∈ m.sql, stmt.sparesOutbox = true := by
  decide

theorem OutboxKept.execSteps {ms : List (Migration (List Ddl))} (hms : ms ⊆ migrations)
    {s s' : Schema} (h : Migrations.execSteps Migrations.executeBatch ms s = .ok s') :
    OutboxKept s s' := by
  induction ms generalizing s with
  | nil =>
      obtain rfl := Except.ok.inj h
      exact .refl s
  | cons m ms ih =>
      rw [Migrations.execSteps] at h
      cases hm : Migrations.executeBatch m.sql s with
      | error e =>
          rw [hm] at h
          cases h
      | ok s₁ =>
          rw [hm] at h
          have hstep : OutboxKept s s₁ :=
            .executeBatch (spares_migrations m (hms List.mem_cons_self)) hm
          exact hstep.trans (ih (fun m hm => hms (List.mem_cons_of_mem _ hm)) h)

theorem ascending_migrations : Ascending migrations := by
  unfold Ascending
  decide

/-- Whatever becomes of an upgrade, the outbox is as it was. -/
theorem outboxKept_migrate (f : DbFile Schema) :
    OutboxKept f.content (migrate.run f).2.content := by
  cases hresult : (migrate.run f).1 with
  | error e =>
      rw [Call.file_of_error hresult]
      exact .refl _
  | ok u =>
      have hcontent := (content_of_ok Migrations.executeBatch ascending_migrations hresult).2
      exact .execSteps (List.filter_subset_self _) hcontent

/-- A new file takes all the steps. -/
example : (migrate.run { content := Schema.empty, userVersion := 0, nonneg := le_rfl }).1 =
    .ok () := by
  rfl

/-- Any ascending list is resumable, atomic and race-free, and the shipped one
leaves the outbox alone, step by step and as a whole. -/
theorem migrations_sound {τ σ : Type*} (ex : τ → σ → Except String σ) (ι : Type*)
    [DecidableEq ι] {ms : List (Migration τ)} (h : Ascending ms) :
    Resumable ex ms ∧ Atomic ex ms ∧ RaceFree ex ι ms ∧
      (∀ m ∈ migrations, ∀ s s', executeBatch m.sql s = .ok s' → OutboxKept s s') ∧
      ∀ f, OutboxKept f.content (migrate.run f).2.content :=
  ⟨resumable ex h, atomic ex h, raceFree ex ι h,
    fun m hm _ _ hexec => .executeBatch (spares_migrations m hm) hexec, outboxKept_migrate⟩

theorem migrations_sound_shipped :
    Ascending migrations ∧ Resumable executeBatch migrations ∧ Atomic executeBatch migrations ∧
      RaceFree executeBatch ℕ migrations := by
  obtain ⟨hresumable, hatomic, hraceFree, -, -⟩ :=
    migrations_sound executeBatch ℕ ascending_migrations
  exact ⟨ascending_migrations, hresumable, hatomic, hraceFree⟩

end Vuo.Migrations
