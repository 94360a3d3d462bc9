import Vuo.Model.Shim.Loop
import Vuo.Verification.Versions

/-!
# Stamps and the clock

What falls due by the clock is reckoned from a stamp read back from disk: the
last sync, the last reconcile, the last question for the version. The clock may
have been set back since.
-/

namespace Vuo

open Foundation Program Sync

/-- The values an `i64` holds. -/
def IsI64 (n : ℤ) : Prop :=
  i64Min ≤ n ∧ n ≤ i64Max

instance : DecidablePred IsI64 := fun _ =>
  inferInstanceAs (Decidable (_ ∧ _))

theorem isI64_saturate (n : ℤ) : IsI64 (saturate n) := by
  unfold IsI64 saturate i64Min i64Max
  omega

/-- A period has passed after each moment a period from now, unless the stamp is
ahead of the clock; past the end of time there is no such moment. -/
theorem elapsed_iff {stamp now period : ℤ} (hnow : IsI64 now)
    (hperiod : 0 < period ∧ period ≤ i64Max) :
    (∀ later, IsI64 later → now + period ≤ later → period ≤ saturatingSub later stamp) ↔
      stamp ≤ now ∨ i64Max < now + period := by
  unfold IsI64 saturatingSub saturate i64Min i64Max at *
  constructor
  · intro h
    by_cases hend : now + period ≤ 9223372036854775807
    · have hfirst := h (now + period) (by omega) le_rfl
      omega
    · exact .inr (by omega)
  · intro h later hlater hpast
    omega

namespace Shim.Loop

/-- The bounds of the wait, the interval in minutes. -/
def Timely (minutes : ℤ) (delay : ℕ) : Prop :=
  10 ≤ delay ∧ (delay : ℤ) ≤ max (60 * minutes) 10

theorem nextSyncDelay_stamped (minutes last now : ℤ) :
    nextSyncDelay (some minutes) (some last) now =
      some (max (max (saturatingSub (saturatingAdd last (saturate (minutes * 60))) now) 0).natAbs
        10) :=
  rfl

/-- The wait is never longer than the interval, unless the stamp is ahead of the
clock; at the end of time the sums stop growing. -/
theorem nextSyncDelay_timely_iff {minutes last now : ℤ} (hminutes : 0 < minutes)
    (hlast : IsI64 last) (hnow : IsI64 now) :
    (∃ delay, nextSyncDelay (some minutes) (some last) now = some delay ∧
        Timely minutes delay) ↔
      last ≤ now ∨ i64Max ≤ 60 * minutes ∨ i64Max ≤ now + 60 * minutes := by
  simp only [nextSyncDelay_stamped, Option.some.injEq, exists_eq_left', Timely]
  unfold IsI64 saturatingSub saturatingAdd saturate i64Min i64Max at *
  omega

/-- Whatever the stamp says, the wait is a number of seconds. -/
theorem nextSyncDelay_fits {minutes : ℤ} {last : Option ℤ} {now : ℤ} {delay : ℕ}
    (h : nextSyncDelay (some minutes) last now = some delay) : IsI64 delay := by
  cases last with
  | none =>
      obtain rfl : 10 = delay := by simpa [nextSyncDelay] using h
      unfold IsI64 i64Min i64Max
      omega
  | some last =>
      rw [nextSyncDelay_stamped] at h
      have hremaining : IsI64 (saturatingSub (saturatingAdd last (saturate (minutes * 60))) now) :=
        isI64_saturate _
      have hdelay := Option.some.inj h
      unfold IsI64 i64Min i64Max at *
      omega

end Shim.Loop

/-! ## The stamps of a pass -/

/-- A reconcile is due a period from now, unless its stamp is ahead of the clock. -/
theorem reconcileDue_iff {state : SyncState} {stamp now period : ℤ}
    (hstamp : state.lastFullReconcileAt = some stamp) (hnow : IsI64 now)
    (hperiod : 0 < period ∧ period ≤ i64Max) :
    (∀ later, IsI64 later → now + period ≤ later → reconcileDue state later period = true) ↔
      stamp ≤ now ∨ i64Max < now + period := by
  rw [← elapsed_iff hnow hperiod]
  simp only [reconcileDue, hstamp, decide_eq_true_eq]

theorem cachedVersion_stamped {state : SyncState} {stamp : ℤ}
    (hstamp : state.serverVersionCheckedAt = some stamp) (now ttl : ℤ) :
    cachedVersion state now ttl =
      if saturatingSub now stamp < ttl then state.serverVersion.bind ServerVersion.parse
      else none := by
  by_cases h : saturatingSub now stamp < ttl
  · simp [cachedVersion, hstamp, h, Option.filter]
  · simp [cachedVersion, hstamp, h, Option.filter]

/-- The next thing a program does is to ask for the version. -/
def AsksVersion {α : Type} (p : Action α) : Prop :=
  ∃ t next, p.run = .call (.send t .version) next

theorem not_asksVersion {α : Type} {A : Statement → Prop} {p : Action α}
    (h : CallsE (Op.Fetches A) p) : ¬AsksVersion p := by
  rintro ⟨t, next, hp⟩
  have hcalls : p.run.Calls (Op.Fetches A) := h
  rw [hp] at hcalls
  exact hcalls.1.2 rfl

section Passes

variable [Endpoints] [UrlLibrary] [IconDecoder]

/-- A pass asks for the version when none is worth trusting. -/
theorem asksVersion_afterReplay_iff (client : MinifluxClient) (options : SyncOptions)
    (state : SyncState) (now : ℤ) (replay : ReplayOutcome) :
    AsksVersion (afterReplay client options state now replay) ↔
      cachedVersion state now options.serverVersionTtlSecs = none := by
  constructor
  · intro hasks
    cases hcached : cachedVersion state now options.serverVersionTtlSecs with
    | none => rfl
    | some version =>
        exact absurd hasks (not_asksVersion (A := fun _ => True) (fetches_afterReplay client
          options replay (fun _ _ => trivial) hcached fun _ _ => trivial))
  · intro hcached
    unfold afterReplay resolveVersion
    rw [hcached]
    exact ⟨_, _, rfl⟩

/-- The version is asked for a period from now, unless its stamp is ahead of the
clock. -/
theorem asksVersion_iff (client : MinifluxClient) (options : SyncOptions) {state : SyncState}
    {stamp now : ℤ} (replay : ReplayOutcome)
    (hstamp : state.serverVersionCheckedAt = some stamp) (hnow : IsI64 now)
    (hperiod : 0 < options.serverVersionTtlSecs ∧ options.serverVersionTtlSecs ≤ i64Max) :
    (∀ later, IsI64 later → now + options.serverVersionTtlSecs ≤ later →
        AsksVersion (afterReplay client options state later replay)) ↔
      stamp ≤ now ∨ i64Max < now + options.serverVersionTtlSecs ∨
        state.serverVersion.bind ServerVersion.parse = none := by
  simp only [asksVersion_afterReplay_iff, cachedVersion_stamped hstamp]
  cases hrecorded : state.serverVersion.bind ServerVersion.parse with
  | none => simp
  | some version =>
      rw [← or_assoc, ← elapsed_iff hnow hperiod]
      simp

/-- A stamp puts work off for a period at most exactly when it is not ahead of
the clock; where time ends within the period there is nothing to wait for, and
without a recorded version it is asked for all the same. -/
theorem postponed_at_most_a_period_iff (client : MinifluxClient) (options : SyncOptions)
    {state : SyncState} (replay : ReplayOutcome) {minutes last reconciled checked now : ℤ}
    (hnow : IsI64 now) (hlast : IsI64 last) (hminutes : 0 < minutes)
    (hreconciled : state.lastFullReconcileAt = some reconciled)
    (hinterval : 0 < options.reconcileIntervalSecs ∧ options.reconcileIntervalSecs ≤ i64Max)
    (hchecked : state.serverVersionCheckedAt = some checked)
    (httl : 0 < options.serverVersionTtlSecs ∧ options.serverVersionTtlSecs ≤ i64Max) :
    ((∃ delay, Shim.Loop.nextSyncDelay (some minutes) (some last) now = some delay ∧
          Shim.Loop.Timely minutes delay) ↔
        last ≤ now ∨ i64Max ≤ 60 * minutes ∨ i64Max ≤ now + 60 * minutes) ∧
      ((∀ later, IsI64 later → now + options.reconcileIntervalSecs ≤ later →
          reconcileDue state later options.reconcileIntervalSecs = true) ↔
        reconciled ≤ now ∨ i64Max < now + options.reconcileIntervalSecs) ∧
      ((∀ later, IsI64 later → now + options.serverVersionTtlSecs ≤ later →
          AsksVersion (afterReplay client options state later replay)) ↔
        checked ≤ now ∨ i64Max < now + options.serverVersionTtlSecs ∨
          state.serverVersion.bind ServerVersion.parse = none) ∧
      (∀ delay, Shim.Loop.nextSyncDelay (some minutes) (some last) now = some delay →
        IsI64 delay) ∧
      ∀ a b, IsI64 (saturate a) ∧ IsI64 (saturatingAdd a b) ∧ IsI64 (saturatingSub a b) :=
  ⟨Shim.Loop.nextSyncDelay_timely_iff hminutes hlast hnow,
    reconcileDue_iff hreconciled hnow hinterval,
    asksVersion_iff client options replay hchecked hnow httl,
    fun _ h => Shim.Loop.nextSyncDelay_fits h,
    fun _ _ => ⟨isI64_saturate _, isI64_saturate _, isI64_saturate _⟩⟩

end Passes

/-! ### A clock set back -/

section SetBack

open scoped Reader

/-- Stamped in 2033. -/
def stampedState : SyncState where
  cursorChangedAfter := none
  syncGeneration := 1
  lastFullReconcileAt := some 2000000000
  serverEra := none
  serverVersion := some "2.3.2"
  serverVersionCheckedAt := some 2000000000

theorem postponed_in_2033 :
    (∃ delay, Shim.Loop.nextSyncDelay (some 60) (some 2000000000) 2000000000 = some delay ∧
        Shim.Loop.Timely 60 delay) ∧
      ∀ later, IsI64 later → 2000000000 + SyncOptions.default.serverVersionTtlSecs ≤ later →
        AsksVersion (afterReplay readerClient .default stampedState later .default) := by
  have hnow : IsI64 2000000000 := by
    decide
  have hminutes : (0 : ℤ) < 60 := by
    decide
  have hreconciled : stampedState.lastFullReconcileAt = some 2000000000 := rfl
  have hchecked : stampedState.serverVersionCheckedAt = some 2000000000 := rfl
  have h := postponed_at_most_a_period_iff readerClient .default .default hnow hnow hminutes
    hreconciled (by decide) hchecked (by decide)
  exact ⟨h.1.2 (.inl le_rfl), h.2.2.1.2 (.inl le_rfl)⟩

/-- With the clock back in 2023 the next sync is nine years away, and a day later
neither the reconcile nor the version is due. -/
theorem postponed_by_nine_years :
    Shim.Loop.nextSyncDelay (some 60) (some 2000000000) 1700000000 = some 300003600 ∧
      ¬Shim.Loop.Timely 60 300003600 ∧
      reconcileDue stampedState (1700000000 + 24 * 60 * 60)
        SyncOptions.default.reconcileIntervalSecs = false ∧
      ¬AsksVersion (afterReplay readerClient .default stampedState (1700000000 + 24 * 60 * 60)
        .default) := by
  refine ⟨by decide, by unfold Shim.Loop.Timely; decide, by decide, ?_⟩
  rw [asksVersion_afterReplay_iff]
  decide

end SetBack

end Vuo
