import Vuo.Foundation.Trace
import Vuo.Verification.Shim.Steps

/-!
# An armed flush is not forgotten

A tap asks for a flush, and the worker sets a deadline for it. The deadline
stands until the outbox is replayed or the network refuses automatic work; after
a refusal only the next pass is left to carry the outbox.
-/

namespace Vuo.Shim.Loop

open Foundation

/-! ## What a step is about -/

/-- The clock, where the worker reads it. -/
def Event.now : Event → Option Instant
  | receive r => some r.now
  | fallDue r => some r.now
  | finish _ now => some now
  | _ => none

def Message.isFlush : Message → Bool
  | work (.command .flushOutbox) => true
  | _ => false

def Message.isConfigure : Message → Bool
  | configure => true
  | _ => false

def Event.receives (p : Message → Bool) (e : Event) (s : State) : Bool :=
  match e with
  | receive _ => s.queue.head?.any p
  | _ => false

/-- The worker takes a tap's request, for an account that can be served. -/
def Event.requests (e : Event) (s : State) : Bool :=
  e.receives Message.isFlush s && s.usable

/-- The network does not allow automatic work that fell due. -/
def Event.refused (e : Event) (s : State) : Bool :=
  match e with
  | fallDue r => !r.allowed s.vars.wifiOnly
  | _ => false

def Work.replays : Work → Bool
  | command .sync => true
  | command .flushOutbox => true
  | _ => false

/-- The worker has turned to the outbox. -/
def State.replaying (s : State) : Bool :=
  match s.phase with
  | .working w => w.replays
  | _ => false

/-! ## Taps that wait -/

/-- The first tap that waits since the last replay of the outbox, the last
change of the account and the last step that `forgets` it. -/
def since (forgets : Event → State → Bool) (t : List (Taken Event State)) : Option Instant :=
  t.foldl (fun first x =>
    if x.after.replaying || x.event.receives Message.isConfigure x.before ||
        forgets x.event x.before then none
    else if x.event.requests x.before then first.or x.event.now
    else first) none

/-- A tap waits. -/
def waiting (t : List (Taken Event State)) : Bool :=
  (since (fun _ _ => false) t).isSome

/-- The tap the flush deadline is for. -/
def armedSince (t : List (Taken Event State)) : Option Instant :=
  since Event.refused t

/-- The last reading of the clock. -/
def clock (t : List (Taken Event State)) : Instant :=
  t.foldl (fun last x => x.event.now.getD last) 0

def window : ℕ :=
  flushDebounce * 10 ^ 9

/-- The monotonic clock: it never goes back, and it is a window away from the
end of its range. -/
def Clocked (t : List (Taken Event State)) : Prop :=
  ∀ t' x, t' ++ [x] <+: t → ∀ n ∈ x.event.now, clock t' ≤ n ∧ n + window ≤ instantMax

/-- While a tap waits, a flush or a pass is to come. -/
def Remembered (t : List (Taken Event State)) (s : State) : Prop :=
  waiting t = true → s.vars.flushDue.isSome = true ∨ s.vars.nextSync.isSome = true

/-- The condition on a step: a refusal leaves a pass to come, and so does a new
interval after a refusal. -/
def Leaves (e : Event) (s : State) : Prop :=
  match e with
  | .fallDue r =>
      r.allowed s.vars.wifiOnly = false →
        if dueWork s.vars.nextSync s.vars.flushDue r.now = some .sync then
          (nextIntervalAfter s.vars.interval r.now).isSome = true
        else s.vars.nextSync.isSome = true
  | .receive r =>
      ∀ minutes rest, s.queue = .setSyncInterval minutes :: rest →
        s.vars.flushDue.isSome = true ∨
          ((nextSyncDelay minutes r.lastSync r.clock).bind (checkedAdd r.now)).isSome = true
  | _ => True

/-! ## What a step does to the deadlines -/

theorem vars_begin {w : Work} (hw : w.replays = false) (s : State) : (s.begin w).vars = s.vars := by
  unfold State.begin
  split
  · split
    · cases hw
    · cases hw
    · rfl
  · rfl

theorem replaying_begin {w : Work} (hw : w.replays = true) {s : State} (husable : s.usable = true) :
    (s.begin w).replaying = true := by
  unfold State.replaying
  rw [phase_begin, if_pos husable]
  exact hw

theorem usable_begin (w : Work) (s : State) : (s.begin w).usable = s.usable := by
  unfold State.begin State.usable
  split
  · split <;> rfl
  · rfl

/-- The account changes with its message only. -/
theorem usable_step {e : Event} {s s' : State} (hstep : step e s = some s')
    (hsame : e.receives Message.isConfigure s = false) : s'.usable = s.usable := by
  cases step_cases hstep with
  | requestSync hidle => rfl
  | sendSync hsending =>
      unfold State.sendSync State.send
      split <;> rfl
  | lower hlowering => rfl
  | send hidle hsync hstop =>
      unfold State.send
      split <;> rfl
  | dropWorker hidle =>
      unfold State.dropWorker State.send
      split <;> rfl
  | joined hjoining hgone => rfl
  | @started _ ok hphase => cases ok <;> rfl
  | @receive _ r m rest hphase hqueue =>
      cases m with
      | work w =>
          rcases serve_work w r { s with queue := rest } with rfl | hbegin
          · rfl
          · rw [hbegin, usable_begin]
            rfl
      | configure => simp [Event.receives, hqueue, Message.isConfigure] at hsame
      | _ => rfl
  | @fallDue _ r hphase =>
      simp only [State.fallDue]
      split
      · split <;> exact usable_begin _ _
      · rfl
  | @finish _ w changed now hphase =>
      unfold State.finish State.usable
      cases w.clearsSpinner <;> rfl
  | bump hphase => rfl

/-- What a step can do to the deadlines while the account can be served. -/
inductive Turn (e : Event) (s s' : State) : Prop
  | replays (h : s'.replaying = true) (hleaves : Leaves e s)
  | ended (h : s.replaying = true) (hrequests : e.receives Message.isFlush s = false)
  | configured (h : e.receives Message.isConfigure s = true) (hleaves : Leaves e s)
  | armed {r : Reading} (he : e = .receive r) (hrequests : e.receives Message.isFlush s = true)
      (hleaves : Leaves e s) (hflush : s'.vars.flushDue = armFlush s.vars.flushDue r.now)
      (hsync : s'.vars.nextSync = s.vars.nextSync)
  | refused {r : Reading} (he : e = .fallDue r) (hrefused : r.allowed s.vars.wifiOnly = false)
      (hidle : s'.replaying = false) (hflush : s'.vars.flushDue = none)
      (hsync : s'.vars.nextSync =
        if dueWork s.vars.nextSync s.vars.flushDue r.now = some .sync then
          nextIntervalAfter s.vars.interval r.now
        else s.vars.nextSync)
  | scheduled {r : Reading} {minutes : Option ℤ} {rest : List Message} (he : e = .receive r)
      (hqueue : s.queue = .setSyncInterval minutes :: rest) (hidle : s'.replaying = false)
      (hflush : s'.vars.flushDue = s.vars.flushDue)
      (hsync : s'.vars.nextSync =
        (nextSyncDelay minutes r.lastSync r.clock).bind (checkedAdd r.now))
  | kept (hrequests : e.receives Message.isFlush s = false) (hrefused : e.refused s = false)
      (hleaves : Leaves e s) (hflush : s'.vars.flushDue = s.vars.flushDue)
      (hsync : s'.vars.nextSync = s.vars.nextSync)

theorem leaves_receive {r : Reading} {s : State} {m : Message} {rest : List Message}
    (hqueue : s.queue = m :: rest) (hm : ∀ minutes, m ≠ .setSyncInterval minutes) :
    Leaves (.receive r) s := by
  intro minutes rest' hq
  exact absurd (List.cons.inj (hqueue.symm.trans hq)).1 (hm minutes)

theorem turn_receive {r : Reading} {s : State} {m : Message} {rest : List Message}
    (husable : s.usable = true) (hphase : s.phase = .waiting) (hqueue : s.queue = m :: rest) :
    Turn (.receive r) s ({ s with queue := rest }.serve m r) := by
  have hhead (p : Message → Bool) : Event.receives p (.receive r) s = p m := by
    simp [Event.receives, hqueue]
  have hkept (hm : ∀ minutes, m ≠ .setSyncInterval minutes) (hflush : m.isFlush = false)
      {s' : State} (hdue : s'.vars.flushDue = s.vars.flushDue)
      (hnext : s'.vars.nextSync = s.vars.nextSync) : Turn (.receive r) s s' :=
    .kept ((hhead _).trans hflush) rfl (leaves_receive hqueue hm) hdue hnext
  cases m with
  | work w =>
      rcases serve_work w r { s with queue := rest } with rfl | hbegin
      · exact .armed rfl (hhead _) (leaves_receive hqueue fun _ h => by cases h) rfl rfl
      · rw [hbegin]
        cases hw : w.replays with
        | true =>
            exact .replays (replaying_begin hw husable)
              (leaves_receive hqueue fun _ h => by cases h)
        | false =>
            have hvars := vars_begin hw { s with queue := rest }
            refine hkept (fun _ h => by cases h) ?_ (congrArg Vars.flushDue hvars)
              (congrArg Vars.nextSync hvars)
            unfold Message.isFlush
            split
            · next heq =>
              cases heq
              cases hw
            · rfl
  | configure =>
      exact .configured (hhead _) (leaves_receive hqueue fun _ h => by cases h)
  | setSyncInterval minutes =>
      exact .scheduled rfl hqueue (by simp [State.serve, State.replaying, hphase]) rfl rfl
  | shutdown => exact hkept (fun _ h => by cases h) rfl rfl rfl
  | setRetention seconds => exact hkept (fun _ h => by cases h) rfl rfl rfl
  | setWifiOnly enabled => exact hkept (fun _ h => by cases h) rfl rfl rfl

theorem replays_of_clearsSpinner {w : Work} (h : w.clearsSpinner = true) : w.replays = true := by
  cases w with
  | testConnection => cases h
  | command c => cases c <;> first | rfl | cases h

theorem turn_fallDue {r : Reading} {s : State} (husable : s.usable = true)
    (hphase : s.phase = .waiting) : Turn (.fallDue r) s (s.fallDue r) := by
  simp only [State.fallDue]
  split
  · next hallowed =>
    have hleaves : Leaves (.fallDue r) s := fun hrefused => by
      rw [hrefused] at hallowed
      cases hallowed
    split
    · exact .replays (replaying_begin rfl husable) hleaves
    · exact .replays (replaying_begin rfl husable) hleaves
  · next hrefused =>
    exact .refused rfl (by simpa using hrefused) (by simp [State.replaying, hphase]) rfl rfl

theorem turn_step {e : Event} {s s' : State} (hstep : step e s = some s')
    (husable : s.usable = true) : Turn e s s' := by
  -- The pages and the end of a command leave the deadlines alone.
  have hkept (he : ∀ r, e ≠ .receive r) (he' : ∀ r, e ≠ .fallDue r)
      (hflush : s'.vars.flushDue = s.vars.flushDue)
      (hsync : s'.vars.nextSync = s.vars.nextSync) : Turn e s s' := by
    cases e with
    | receive r => exact absurd rfl (he r)
    | fallDue r => exact absurd rfl (he' r)
    | _ => exact .kept rfl rfl trivial hflush hsync
  cases step_cases hstep with
  | requestSync hidle => exact .kept rfl rfl trivial rfl rfl
  | sendSync hsending =>
      have hvars : s.sendSync.vars = s.vars := by
        unfold State.sendSync State.send
        split <;> rfl
      exact .kept rfl rfl trivial (by rw [hvars]) (by rw [hvars])
  | lower hlowering => exact .kept rfl rfl trivial rfl rfl
  | @send _ m hidle hsync hstop =>
      have hvars : (s.send m).vars = s.vars := by
        unfold State.send
        split <;> rfl
      exact .kept rfl rfl trivial (by rw [hvars]) (by rw [hvars])
  | dropWorker hidle =>
      have hvars : s.dropWorker.vars = s.vars := by
        unfold State.dropWorker State.send
        split <;> rfl
      exact .kept rfl rfl trivial (by rw [hvars]) (by rw [hvars])
  | joined hjoining hgone => exact .kept rfl rfl trivial rfl rfl
  | @started _ ok hphase => cases ok <;> exact .kept rfl rfl trivial rfl rfl
  | receive hphase hqueue => exact turn_receive husable hphase hqueue
  | fallDue hphase => exact turn_fallDue husable hphase
  | @finish _ w changed now hphase =>
      cases hw : w.replays with
      | true => exact .ended (by simp [State.replaying, hphase, hw]) rfl
      | false =>
          have hclears : w.clearsSpinner = false := by
            cases hspinner : w.clearsSpinner with
            | true => exact absurd (replays_of_clearsSpinner hspinner) (by simp [hw])
            | false => rfl
          have hvars : (s.finish w changed now).vars = s.vars := by simp [State.finish, hclears]
          exact .kept rfl rfl trivial (by rw [hvars]) (by rw [hvars])
  | bump hphase => exact .kept rfl rfl trivial rfl rfl

/-! ## The first tap that waits -/

variable {forgets : Event → State → Bool} {t : List (Taken Event State)} {s : State}

theorem since_append (forgets : Event → State → Bool) (t : List (Taken Event State))
    (x : Taken Event State) :
    since forgets (t ++ [x]) =
      if x.after.replaying || x.event.receives Message.isConfigure x.before ||
        forgets x.event x.before then none
      else if x.event.requests x.before then (since forgets t).or x.event.now
      else since forgets t := by
  unfold since
  rw [List.foldl_append]
  rfl

theorem clock_append (t : List (Taken Event State)) (x : Taken Event State) :
    clock (t ++ [x]) = x.event.now.getD (clock t) := by
  unfold clock
  rw [List.foldl_append]
  rfl

/-- No tap waits while the outbox is being replayed, and none without an
account. -/
theorem waits_run (h : Run step State.start t s) :
    (s.replaying = true → since forgets t = none) ∧
      (since forgets t ≠ none → s.usable = true) := by
  induction h with
  | start => exact ⟨fun h => (by cases h), fun h => absurd rfl h⟩
  | @step t s s' e hrun hstep ih =>
      rw [since_append]
      dsimp only
      constructor
      · intro hreplaying
        simp [hreplaying]
      · intro hsome
        split_ifs at hsome with hforget hrequests
        · exact absurd rfl hsome
        · simp only [Bool.or_eq_true, not_or, Bool.not_eq_true] at hforget
          rw [usable_step hstep hforget.1.2]
          exact (Bool.and_eq_true_iff.1 hrequests).2
        · simp only [Bool.or_eq_true, not_or, Bool.not_eq_true] at hforget
          rw [usable_step hstep hforget.1.2]
          exact ih.2 hsome

/-! ## The deadline of a flush -/

theorem flushDue_begin (w : Work) (s : State) :
    (s.begin w).vars.flushDue = s.vars.flushDue ∨ (s.begin w).vars.flushDue = none := by
  unfold State.begin
  split
  · split
    · exact .inr rfl
    · exact .inr rfl
    · exact .inl rfl
  · exact .inl rfl

/-- A flush deadline is set from the clock, for a tap or for a new account. -/
theorem flushDue_step {e : Event} {s s' : State} (hstep : step e s = some s') :
    s'.vars.flushDue = s.vars.flushDue ∨ s'.vars.flushDue = none ∨
      ∃ n ∈ e.now, s'.vars.flushDue = armFlush s.vars.flushDue n ∨
        s'.vars.flushDue = checkedAdd n flushAfterStart := by
  cases step_cases hstep with
  | requestSync hidle => exact .inl rfl
  | sendSync hsending =>
      unfold State.sendSync State.send
      split <;> exact .inl rfl
  | lower hlowering => exact .inl rfl
  | send hidle hsync hstop =>
      unfold State.send
      split <;> exact .inl rfl
  | dropWorker hidle =>
      unfold State.dropWorker State.send
      split <;> exact .inl rfl
  | joined hjoining hgone => exact .inl rfl
  | @started _ ok hphase => cases ok <;> exact .inl rfl
  | @receive _ r m rest hphase hqueue =>
      cases m with
      | work w =>
          rcases serve_work w r { s with queue := rest } with rfl | hbegin
          · exact .inr (.inr ⟨r.now, rfl, .inl rfl⟩)
          · rw [hbegin]
            rcases flushDue_begin w { s with queue := rest } with hsame | hnone
            · exact .inl hsame
            · exact .inr (.inl hnone)
      | configure =>
          simp only [State.serve, State.configure]
          split
          · cases r.pending.filter (0 < ·) with
            | none => exact .inr (.inl rfl)
            | some pending =>
                rw [Option.bind_some]
                exact .inr (.inr ⟨r.now, rfl, .inr (Eq.refl _)⟩)
          · exact .inr (.inl rfl)
      | _ => exact .inl rfl
  | @fallDue _ r hphase =>
      simp only [State.fallDue]
      split
      · split
        · rcases flushDue_begin (.command .flushOutbox)
            { s with vars := { s.vars with flushDue := none } } with hsame | hnone
          · exact .inr (.inl hsame)
          · exact .inr (.inl hnone)
        · rcases flushDue_begin (.command .sync)
            { s with signal := s.signal.setRunning true } with hsame | hnone
          · exact .inl hsame
          · exact .inr (.inl hnone)
      · exact .inr (.inl rfl)
  | @finish _ w changed now hphase =>
      unfold State.finish
      cases w.clearsSpinner <;> exact .inl rfl
  | bump hphase => exact .inl rfl

theorem Clocked.of_append {x : Taken Event State} (h : Clocked (t ++ [x])) : Clocked t :=
  fun _ _ hpre => h _ _ (hpre.trans (List.prefix_append t [x]))

theorem clocked_nil : Clocked [] := by
  intro t' x ht
  have hnil := List.prefix_nil.1 ht
  simp at hnil

theorem Clocked.append (h : Clocked t) {x : Taken Event State}
    (hx : ∀ n ∈ x.event.now, clock t ≤ n ∧ n + window ≤ instantMax) : Clocked (t ++ [x]) := by
  intro t' y ht
  rcases List.prefix_concat_iff.1 ht with heq | ht
  · obtain ⟨rfl, hxy⟩ := List.append_inj' heq rfl
    cases hxy
    exact hx
  · exact h t' y ht

/-- The clock has not gone back at the last step, nor come near its end. -/
theorem Clocked.last {x : Taken Event State} (h : Clocked (t ++ [x])) :
    ∀ n ∈ x.event.now, clock t ≤ n ∧ n + window ≤ instantMax :=
  h t x (List.prefix_refl _)

theorem clock_le {x : Taken Event State} (h : Clocked (t ++ [x])) :
    clock t ≤ clock (t ++ [x]) := by
  rw [clock_append]
  cases hnow : x.event.now with
  | none => exact le_refl _
  | some n => exact (h.last n hnow).1

theorem checkedAdd_eq {n secs : ℕ} (h : n + window ≤ instantMax) (hsecs : secs ≤ flushDebounce) :
    checkedAdd n secs = some (n + secs * 10 ^ 9) := by
  have hle : secs * 10 ^ 9 ≤ window := Nat.mul_le_mul_right _ hsecs
  exact if_pos (Nat.le_trans (Nat.add_le_add_left hle n) h)

/-- A flush deadline is at most a window ahead. -/
theorem flushDue_le (h : Run step State.start t s) (hclock : Clocked t) :
    ∀ d ∈ s.vars.flushDue, d ≤ clock t + window := by
  induction h with
  | start => exact fun d hd => by cases hd
  | @step t s s' e hrun hstep ih =>
      intro d hd
      have hbefore := ih hclock.of_append
      have hmono := clock_le hclock
      rcases flushDue_step hstep with hsame | hnone | ⟨n, hn, hset⟩
      · exact Nat.le_trans (hbefore d (hsame ▸ hd)) (Nat.add_le_add_right hmono window)
      · rw [hnone] at hd
        cases hd
      · obtain ⟨hle, hfits⟩ := hclock.last n hn
        have hnow : clock (t ++ [⟨s, e, s'⟩]) = n := by
          rw [clock_append, Option.mem_def.1 hn]
          rfl
        have hset : d ∈ armFlush s.vars.flushDue n ∨ d ∈ checkedAdd n flushAfterStart := by
          rcases hset with harmed | hstart
          · exact .inl (harmed ▸ hd)
          · exact .inr (hstart ▸ hd)
        rw [hnow]
        rw [armFlush, checkedAdd_eq hfits (Nat.le_refl _), checkedAdd_eq hfits (by decide)] at hset
        rcases hset with harmed | hstart
        · cases hdue : s.vars.flushDue with
          | none =>
              rw [hdue] at harmed
              cases harmed
              exact Nat.le_refl _
          | some due =>
              rw [hdue] at harmed
              cases harmed
              exact Nat.le_trans (hbefore d hdue) (Nat.add_le_add_right hle window)
        · cases hstart
          exact Nat.add_le_add_left (by decide) n

/-- What the messages at the head of the channel are not. -/
theorem receives_eq_false {p : Message → Bool} {r : Reading} {m : Message} {rest : List Message}
    (hqueue : s.queue = m :: rest) (hm : p m = false) :
    Event.receives p (.receive r) s = false := by
  simp [Event.receives, hqueue, hm]

/-- A tap that is taken finds a deadline or sets one. -/
theorem armed_of_requests {e : Event} {s' : State} (hstep : step e s = some s')
    (hreplaying : s'.replaying = false) (hconfigure : e.receives Message.isConfigure s = false)
    (hrequests : e.requests s = true) :
    ∃ r, e = .receive r ∧ Leaves e s ∧
      s'.vars.flushDue = armFlush s.vars.flushDue r.now := by
  obtain ⟨hflush, husable⟩ := Bool.and_eq_true_iff.1 hrequests
  cases turn_step hstep husable with
  | replays h _ => simp [h] at hreplaying
  | ended h hno => simp [hno] at hflush
  | configured h _ => simp [h] at hconfigure
  | armed he _ hleaves hdue _ => exact ⟨_, he, hleaves, hdue⟩
  | refused he _ _ _ _ =>
      subst he
      cases hflush
  | scheduled he hqueue _ _ _ =>
      subst he
      rw [receives_eq_false hqueue rfl] at hflush
      cases hflush
  | kept hno _ _ _ _ => simp [hno] at hflush

/-- The deadline for a tap is a window after it at most, whatever is asked for
later. -/
theorem flushDue_of_armedSince (h : Run step State.start t s) (hclock : Clocked t) :
    ∀ n ∈ armedSince t, ∃ d ∈ s.vars.flushDue, d ≤ n + window := by
  induction h with
  | start => exact fun n hn => by cases hn
  | @step t s s' e hrun hstep ih =>
      intro n hn
      have hbefore := ih hclock.of_append
      have hle := flushDue_le hrun hclock.of_append
      have hwaits := @waits_run Event.refused _ _ hrun
      unfold armedSince at hn hbefore
      rw [since_append] at hn
      dsimp only at hn
      split_ifs at hn with hforget hrequests
      · cases hn
      · simp only [Bool.or_eq_true, not_or, Bool.not_eq_true] at hforget
        obtain ⟨r, rfl, -, hdue⟩ := armed_of_requests hstep hforget.1.1 hforget.1.2 hrequests
        obtain ⟨hmono, hfits⟩ := hclock.last r.now rfl
        rw [hdue, armFlush, checkedAdd_eq hfits (Nat.le_refl _)]
        cases hfirst : since Event.refused t with
        | some m =>
            rw [hfirst] at hn
            cases hn
            obtain ⟨d, hd, hdn⟩ := hbefore n hfirst
            exact ⟨d, by rw [Option.mem_def.1 hd]; rfl, hdn⟩
        | none =>
            rw [hfirst] at hn
            cases hn
            cases hflush : s.vars.flushDue with
            | none => exact ⟨_, rfl, Nat.le_refl _⟩
            | some d =>
                exact ⟨d, rfl, Nat.le_trans (hle d hflush) (Nat.add_le_add_right hmono window)⟩
      · simp only [Bool.or_eq_true, not_or, Bool.not_eq_true] at hforget
        have hsome : since Event.refused t ≠ none := by
          rw [Option.mem_def.1 hn]
          exact Option.some_ne_none n
        have husable := hwaits.2 hsome
        have hsame : s'.vars.flushDue = s.vars.flushDue := by
          cases turn_step hstep husable with
          | replays h _ => simp [h] at hforget
          | ended h _ => exact absurd (hwaits.1 h) hsome
          | configured h _ => simp [h] at hforget
          | armed _ hflush _ _ _ => simp [Event.requests, hflush, husable] at hrequests
          | refused he hrefused _ _ _ =>
              subst he
              simp [Event.refused, hrefused] at hforget
          | scheduled _ _ _ hflush _ => exact hflush
          | kept _ _ _ hflush _ => exact hflush
        rw [hsame]
        exact hbefore n hn

/-! ## While a tap waits -/

theorem waiting_append {x : Taken Event State} (hreplaying : x.after.replaying = false)
    (hconfigure : x.event.receives Message.isConfigure x.before = false) (h : waiting t = true) :
    waiting (t ++ [x]) = true := by
  obtain ⟨n, hn⟩ := Option.isSome_iff_exists.1 h
  unfold waiting
  rw [since_append, hn]
  simp only [hreplaying, hconfigure, Bool.or_self, Bool.false_eq_true, if_false]
  split_ifs <;> rfl

/-- One step of what is promised while a tap waits. -/
theorem remembered_step {e : Event} {s' : State} (hrun : Run step State.start t s)
    (hclock : Clocked (t ++ [⟨s, e, s'⟩])) (hstep : step e s = some s') (h : Remembered t s) :
    Remembered (t ++ [⟨s, e, s'⟩]) s' ↔ (waiting t = true → Leaves e s) := by
  cases hwaits : waiting t with
  | false =>
      -- Nothing waits yet: at most this step's own tap does.
      refine iff_of_true (fun hafter => .inl ?_) (fun h => by cases h)
      have hnone : since (fun _ _ => false) t = none := by simpa [waiting] using hwaits
      unfold waiting at hafter
      rw [since_append, hnone] at hafter
      split_ifs at hafter with hforget hrequests
      · cases hafter
      · simp only [Bool.or_eq_true, not_or, Bool.not_eq_true] at hforget
        obtain ⟨r, rfl, -, hdue⟩ := armed_of_requests hstep hforget.1.1 hforget.1.2 hrequests
        obtain ⟨-, hfits⟩ := hclock.last r.now rfl
        rw [hdue, armFlush, checkedAdd_eq hfits (Nat.le_refl _)]
        cases s.vars.flushDue <;> rfl
      · cases hafter
  | true =>
      have hsome : since (fun _ _ => false) t ≠ none := by
        obtain ⟨n, hn⟩ := Option.isSome_iff_exists.1 hwaits
        simp [hn]
      obtain ⟨hidle, husable⟩ := @waits_run (fun _ _ => false) _ _ hrun
      have hnext (hreplaying : s'.replaying = false)
          (hconfigure : e.receives Message.isConfigure s = false) :
          waiting (t ++ [⟨s, e, s'⟩]) = true := waiting_append hreplaying hconfigure hwaits
      cases turn_step hstep (husable hsome) with
      | replays hreplaying hleaves =>
          refine iff_of_true (fun hafter => ?_) (fun _ => hleaves)
          simp [waiting, since_append, hreplaying] at hafter
      | ended hreplaying _ => exact absurd (hidle hreplaying) hsome
      | configured hconfigure hleaves =>
          refine iff_of_true (fun hafter => ?_) (fun _ => hleaves)
          simp [waiting, since_append, hconfigure] at hafter
      | @armed r he _ hleaves hflush _ =>
          subst he
          obtain ⟨-, hfits⟩ := hclock.last r.now rfl
          refine iff_of_true (fun _ => .inl ?_) (fun _ => hleaves)
          rw [hflush, armFlush, checkedAdd_eq hfits (Nat.le_refl _)]
          cases s.vars.flushDue <;> rfl
      | refused he hrefused hreplaying hflush hsync =>
          subst he
          have hafter := hnext hreplaying rfl
          unfold Remembered
          rw [hflush, hsync, hafter]
          simp only [Leaves, hrefused, true_implies, Option.isSome_none, Bool.false_eq_true,
            false_or]
          split_ifs <;> rfl
      | @scheduled r minutes rest he hqueue hreplaying hflush hsync =>
          subst he
          have hafter := hnext hreplaying (receives_eq_false hqueue rfl)
          unfold Remembered
          rw [hflush, hsync, hafter]
          simp only [true_implies]
          constructor
          · intro hdue minutes' rest' hq
            cases hqueue.symm.trans hq
            exact hdue
          · exact fun hleaves => hleaves minutes rest hqueue
      | kept _ _ hleaves hflush hsync =>
          refine iff_of_true (fun _ => ?_) (fun _ => hleaves)
          rw [hflush, hsync]
          exact h hwaits

section Runs

/-- The reading at a moment, for an account that can be served. -/
def reading (now : Instant) (allowed : Bool) : Reading where
  now := now
  clock := 0
  lastSync := none
  opened := true
  built := true
  pending := some 0
  allowed := fun wifiOnly => allowed || !wifiOnly

/-- A step that does not look at the clock. -/
theorem Clocked.silent (h : Clocked t) {x : Taken Event State} (hx : x.event.now = none) :
    Clocked (t ++ [x]) :=
  h.append fun n hn => by rw [hx] at hn; cases hn

/-- A step at a moment of the first minutes. -/
theorem Clocked.at (h : Clocked t) {x : Taken Event State} {now : Instant}
    (hx : x.event.now = some now) (hle : clock t ≤ now) (hearly : now + window ≤ instantMax) :
    Clocked (t ++ [x]) :=
  h.append fun n hn => by
    obtain rfl : n = now := Option.some.inj (hn.symm.trans hx)
    exact ⟨hle, hearly⟩

end Runs

end Vuo.Shim.Loop
