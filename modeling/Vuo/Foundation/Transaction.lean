import Mathlib.Data.List.Induction
import Mathlib.Logic.Function.Basic
import Vuo.Foundation.Trace

/-!
# Write transactions

Several connections have one file open. A call takes the file for itself,
decides on its statements by what it then finds, runs them one by one on its
own copy, and writes the copy back or drops it. Whatever the order of the
steps, the file and the results are those of the calls made one after the other.
-/

namespace Vuo.Foundation.Transaction

variable {σ ε : Type*}

/-- A statement fails or changes the copy. -/
abbrev Statement (σ ε : Type*) :=
  σ → Except ε σ

/-- What a call decides on once the file is its own. -/
abbrev Call (σ ε : Type*) :=
  σ → Except ε (List (Statement σ ε))

/-! ## One call by itself -/

/-- Statements in order, up to the first that fails. -/
def exec : List (Statement σ ε) → σ → Except ε σ
  | [], s => .ok s
  | stmt :: rest, s => (stmt s).bind (exec rest)

theorem exec_append (stmts rest : List (Statement σ ε)) (s : σ) :
    exec (stmts ++ rest) s = (exec stmts s).bind (exec rest) := by
  induction stmts generalizing s with
  | nil => rfl
  | cons stmt stmts ih =>
      rw [List.cons_append, exec, exec]
      cases stmt s with
      | error e => rfl
      | ok s' => exact ih s'

namespace Call

/-- What the call would leave in the file. -/
def attempt (call : Call σ ε) (s : σ) : Except ε σ :=
  (call s).bind fun stmts => exec stmts s

/-- The call, all of it or nothing. -/
def run (call : Call σ ε) (s : σ) : Except ε Unit × σ :=
  match call.attempt s with
  | .ok s' => (.ok (), s')
  | .error e => (.error e, s)

theorem run_of_attempt {call : Call σ ε} {s s' : σ} (h : call.attempt s = .ok s') :
    call.run s = (.ok (), s') := by
  rw [run, h]

theorem run_of_error {call : Call σ ε} {s : σ} {e : ε} (h : call.attempt s = .error e) :
    call.run s = (.error e, s) := by
  rw [run, h]

theorem result_congr {call : Call σ ε} {s s' : σ} (h : call.attempt s = call.attempt s') :
    (call.run s).1 = (call.run s').1 := by
  rw [run, run, h]
  cases call.attempt s' <;> rfl

/-- A call that fails leaves the file as it was. -/
theorem file_of_error {call : Call σ ε} {s : σ} {e : ε} (h : (call.run s).1 = .error e) :
    (call.run s).2 = s := by
  cases hattempt : call.attempt s with
  | ok s' =>
      rw [run_of_attempt hattempt] at h
      cases h
  | error e' => rw [run_of_error hattempt]

end Call

/-! ## Several connections -/

/-- How far a connection is with its call. -/
inductive Phase (σ ε : Type*)
  | waiting
  | begun (own : σ)
  | running (own : σ) (rest : List (Statement σ ε))
  | ended (result : Except ε Unit)

structure System (ι σ ε : Type*) where
  file : σ
  phase : ι → Phase σ ε
  lock : Option ι

variable {ι : Type*} [DecidableEq ι]

namespace System

def start (s : σ) : System ι σ ε where
  file := s
  phase _ := .waiting
  lock := none

def setPhase (i : ι) (p : Phase σ ε) (y : System ι σ ε) : System ι σ ε :=
  { y with phase := Function.update y.phase i p }

@[simp]
theorem setPhase_self (i : ι) (p : Phase σ ε) (y : System ι σ ε) :
    (y.setPhase i p).phase i = p := by
  simp [setPhase]

theorem setPhase_ne {i j : ι} (h : j ≠ i) (p : Phase σ ε) (y : System ι σ ε) :
    (y.setPhase i p).phase j = y.phase j := by
  simp [setPhase, h]

/-- Drop the copy. -/
def rollback (i : ι) (e : ε) (y : System ι σ ε) : System ι σ ε :=
  { y.setPhase i (.ended (.error e)) with lock := none }

/-- Write the copy back. -/
def commit (i : ι) (own : σ) (y : System ι σ ε) : System ι σ ε :=
  { y.setPhase i (.ended (.ok ())) with file := own, lock := none }

/-- Go on, or give up after a failure. -/
def goOn (i : ι) (next : Except ε (Phase σ ε)) (y : System ι σ ε) : System ι σ ε :=
  match next with
  | .ok p => y.setPhase i p
  | .error e => y.rollback i e

/-- The next step of a connection. It waits while another has the lock. -/
def step (call : ι → Call σ ε) (i : ι) (y : System ι σ ε) : Option (System ι σ ε) :=
  match y.phase i with
  | .waiting =>
      if y.lock.isNone then some { y.setPhase i (.begun y.file) with lock := some i } else none
  | .begun own => some (y.goOn i ((call i own).map (.running own)))
  | .running own [] => some (y.commit i own)
  | .running own (stmt :: rest) => some (y.goOn i ((stmt own).map (.running · rest)))
  | .ended _ => none

/-- The file after the calls of `order`, one after the other. -/
def serial (call : ι → Call σ ε) (s₀ : σ) (order : List ι) : σ :=
  order.foldl (fun s i => ((call i).run s).2) s₀

omit [DecidableEq ι] in
theorem serial_concat (call : ι → Call σ ε) (s₀ : σ) (order : List ι) (i : ι) :
    serial call s₀ (order ++ [i]) = ((call i).run (serial call s₀ order)).2 := by
  simp [serial]

/-- What a connection in the middle of its call will come to. -/
def Pending (call : ι → Call σ ε) (i : ι) (y : System ι σ ε) : Prop :=
  y.phase i = .begun y.file ∨
    ∃ own rest, y.phase i = .running own rest ∧ (call i).attempt y.file = exec rest own

/-- The state is that of the calls of `order`, made one after the other, and of
at most one more that has begun. -/
structure Serial (call : ι → Call σ ε) (s₀ : σ) (order : List ι) (y : System ι σ ε) : Prop where
  file : y.file = serial call s₀ order
  nodup : order.Nodup
  result : ∀ pre i post, order = pre ++ i :: post →
    y.phase i = .ended ((call i).run (serial call s₀ pre)).1
  pending : ∀ i, y.lock = some i → i ∉ order ∧ Pending call i y
  waiting : ∀ i, i ∉ order → y.lock ≠ some i → y.phase i = .waiting

variable {call : ι → Call σ ε} {s₀ : σ} {order : List ι} {y y' : System ι σ ε} {i : ι}

omit [DecidableEq ι] in
theorem serial_start : Serial call s₀ [] (start s₀) where
  file := rfl
  nodup := List.nodup_nil
  result pre i post h := by simp at h
  pending i h := by cases h
  waiting _ _ _ := rfl

namespace Serial

/-- The connection that takes a step while its call goes on has the lock. -/
theorem lock_of_phase (h : Serial call s₀ order y) (hwaiting : y.phase i ≠ .waiting)
    (hended : ∀ r, y.phase i ≠ .ended r) : y.lock = some i := by
  by_contra hlock
  by_cases hi : i ∈ order
  · obtain ⟨pre, post, horder⟩ := List.append_of_mem hi
    exact hended _ (h.result pre i post horder)
  · exact hwaiting (h.waiting i hi hlock)

/-- The connection with the lock goes on. -/
theorem setPhase (h : Serial call s₀ order y) {p : Phase σ ε} (hlock : y.lock = some i)
    (hp : Pending call i (y.setPhase i p)) : Serial call s₀ order (y.setPhase i p) where
  file := h.file
  nodup := h.nodup
  result pre j post horder := by
    have hj : j ≠ i := by
      rintro rfl
      exact (h.pending j hlock).1 (horder ▸ by simp)
    rw [setPhase_ne hj]
    exact h.result pre j post horder
  pending j hj := by
    obtain rfl : i = j := Option.some.inj (hlock.symm.trans hj)
    exact ⟨(h.pending i hlock).1, hp⟩
  waiting j hj hne := by
    have hji : j ≠ i := by
      rintro rfl
      exact hne hlock
    rw [setPhase_ne hji]
    exact h.waiting j hj hne

/-- The connection with the lock ends its call. -/
theorem finish (h : Serial call s₀ order y) (hlock : y.lock = some i) {s : σ}
    {r : Except ε Unit} (hrun : (call i).run y.file = (r, s)) :
    Serial call s₀ (order ++ [i])
      { y.setPhase i (.ended r) with file := s, lock := none } where
  file := by rw [serial_concat, ← h.file, hrun]
  nodup := by
    refine List.nodup_append.2 ⟨h.nodup, by simp, ?_⟩
    rintro j hj _ hi rfl
    rw [List.mem_singleton] at hi
    exact (h.pending i hlock).1 (hi ▸ hj)
  result pre j post horder := by
    rcases List.eq_nil_or_concat post with rfl | ⟨post, k, rfl⟩
    · obtain ⟨rfl, hj⟩ := List.append_inj' horder rfl
      obtain rfl : i = j := by simpa using hj
      rw [← h.file, hrun]
      exact setPhase_self ..
    · rw [List.concat_eq_append, ← List.cons_append, ← List.append_assoc] at horder
      have hhead : order = pre ++ j :: post := (List.append_inj' horder rfl).1
      have hj : j ≠ i := by
        rintro rfl
        exact (h.pending j hlock).1 (hhead ▸ by simp)
      exact (setPhase_ne hj ..).trans (h.result pre j post hhead)
  pending j hj := by cases hj
  waiting j hj _ := by
    rw [List.mem_append, List.mem_singleton, not_or] at hj
    refine (setPhase_ne hj.2 ..).trans (h.waiting j hj.1 fun hlock' => ?_)
    exact hj.2 (Option.some.inj (hlock'.symm.trans hlock))

/-- The connection with the lock does its next piece of work. -/
theorem goOn (h : Serial call s₀ order y) {next : Except ε (Phase σ ε)}
    (hlock : y.lock = some i)
    (herror : ∀ e, next = .error e → (call i).attempt y.file = .error e)
    (hok : ∀ p, next = .ok p → Pending call i (y.setPhase i p)) :
    Serial call s₀ order (y.goOn i next) ∨ Serial call s₀ (order ++ [i]) (y.goOn i next) := by
  cases next with
  | error e => exact .inr (h.finish hlock (Call.run_of_error (herror e rfl)))
  | ok p => exact .inl (h.setPhase hlock (hok p rfl))

/-- A step ends at most the call of the connection that takes it. -/
theorem step (h : Serial call s₀ order y) (hstep : System.step call i y = some y') :
    Serial call s₀ order y' ∨ Serial call s₀ (order ++ [i]) y' := by
  unfold System.step at hstep
  cases hphase : y.phase i with
  | waiting =>
      rw [hphase] at hstep
      dsimp only at hstep
      split_ifs at hstep with hfree
      obtain rfl := Option.some.inj hstep
      rw [Option.isNone_iff_eq_none] at hfree
      have hi : i ∉ order := by
        intro hi
        obtain ⟨pre, post, horder⟩ := List.append_of_mem hi
        rw [h.result pre i post horder] at hphase
        cases hphase
      left
      constructor
      case file => exact h.file
      case nodup => exact h.nodup
      case result =>
        intro pre j post horder
        have hj : j ≠ i := by
          rintro rfl
          exact hi (horder ▸ by simp)
        exact (setPhase_ne hj ..).trans (h.result pre j post horder)
      case pending =>
        intro j hj
        obtain rfl : i = j := Option.some.inj hj
        exact ⟨hi, .inl (setPhase_self ..)⟩
      case waiting =>
        intro j hj hne
        have hji : j ≠ i := fun hji => hne (hji ▸ rfl)
        exact (setPhase_ne hji ..).trans (h.waiting j hj (by simp [hfree]))
  | begun own =>
      have hlock : y.lock = some i := h.lock_of_phase (by simp [hphase]) (by simp [hphase])
      have hown : own = y.file := by
        rcases (h.pending i hlock).2 with hbegun | ⟨_, _, hrunning, -⟩
        · rw [hphase] at hbegun
          exact Phase.begun.inj hbegun
        · rw [hphase] at hrunning
          cases hrunning
      rw [hphase] at hstep
      obtain rfl := Option.some.inj hstep
      refine h.goOn hlock (fun e he => ?_) fun p hp => .inr ?_
      · cases hcall : call i own with
        | error e' =>
            rw [hcall] at he
            obtain rfl := Except.error.inj he
            rw [Call.attempt, ← hown, hcall]
            rfl
        | ok stmts =>
            rw [hcall] at he
            cases he
      · cases hcall : call i own with
        | error e =>
            rw [hcall] at hp
            cases hp
        | ok stmts =>
            rw [hcall] at hp
            obtain rfl := Except.ok.inj hp
            refine ⟨own, stmts, setPhase_self .., ?_⟩
            change (call i).attempt y.file = _
            rw [Call.attempt, ← hown, hcall]
            rfl
  | running own rest =>
      have hlock : y.lock = some i := h.lock_of_phase (by simp [hphase]) (by simp [hphase])
      have hattempt : (call i).attempt y.file = exec rest own := by
        rcases (h.pending i hlock).2 with hbegun | ⟨own', rest', hrunning, hattempt⟩
        · rw [hphase] at hbegun
          cases hbegun
        · rw [hphase] at hrunning
          obtain ⟨rfl, rfl⟩ := Phase.running.inj hrunning
          exact hattempt
      rw [hphase] at hstep
      cases rest with
      | nil =>
          obtain rfl := Option.some.inj hstep
          exact .inr (h.finish hlock (Call.run_of_attempt hattempt))
      | cons stmt rest =>
          obtain rfl := Option.some.inj hstep
          rw [exec] at hattempt
          refine h.goOn hlock (fun e he => ?_) fun p hp => .inr ?_
          · cases hstmt : stmt own with
            | error e' =>
                rw [hstmt] at he hattempt
                obtain rfl := Except.error.inj he
                exact hattempt
            | ok own' =>
                rw [hstmt] at he
                cases he
          · cases hstmt : stmt own with
            | error e =>
                rw [hstmt] at hp
                cases hp
            | ok own' =>
                rw [hstmt] at hp hattempt
                obtain rfl := Except.ok.inj hp
                exact ⟨own', rest, setPhase_self .., hattempt⟩
  | ended r =>
      rw [hphase] at hstep
      cases hstep

/-- Connections that have not ended can go on. -/
theorem exists_step (h : Serial call s₀ order y) (hi : ∀ r, y.phase i ≠ .ended r) :
    ∃ j y', System.step call j y = some y' := by
  cases hlock : y.lock with
  | none =>
      have hphase : y.phase i = .waiting := by
        by_contra hne
        rw [h.lock_of_phase hne hi] at hlock
        cases hlock
      exact ⟨i, _, by rw [System.step, hphase, hlock]; rfl⟩
  | some j =>
      refine ⟨j, ?_⟩
      rcases (h.pending j hlock).2 with hbegun | ⟨own, rest, hrunning, -⟩
      · exact ⟨_, by rw [System.step, hbegun]⟩
      · cases rest with
        | nil => exact ⟨_, by rw [System.step, hrunning]⟩
        | cons stmt rest => exact ⟨_, by rw [System.step, hrunning]⟩

theorem ended_iff (h : Serial call s₀ order y) : (∃ r, y.phase i = .ended r) ↔ i ∈ order := by
  constructor
  · rintro ⟨r, hr⟩
    by_contra hi
    by_cases hlock : y.lock = some i
    · rcases (h.pending i hlock).2 with hbegun | ⟨_, _, hrunning, -⟩
      · rw [hr] at hbegun
        cases hbegun
      · rw [hr] at hrunning
        cases hrunning
    · rw [h.waiting i hi hlock] at hr
      cases hr
  · intro hi
    obtain ⟨pre, post, horder⟩ := List.append_of_mem hi
    exact ⟨_, h.result pre i post horder⟩

end Serial

/-- Every run is a serial one. -/
theorem serializable {t : List (Taken ι (System ι σ ε))}
    (h : Run (System.step call) (start s₀) t y) : ∃ order, Serial call s₀ order y := by
  refine h.invariant (I := fun y => ∃ order, Serial call s₀ order y) ⟨[], serial_start⟩ ?_
  rintro i y y' ⟨order, hserial⟩ hstep
  rcases hserial.step hstep with hnext | hnext
  · exact ⟨order, hnext⟩
  · exact ⟨order ++ [i], hnext⟩

/-! ### Every call comes to its end -/

/-- At most how many steps a connection has left, its call having at most `n`
statements. -/
def left (n : ℕ) : Phase σ ε → ℕ
  | .waiting => n + 3
  | .begun _ => n + 2
  | .running _ rest => rest.length + 1
  | .ended _ => 0

theorem left_goOn {n : ℕ} {next : Except ε (Phase σ ε)} {y : System ι σ ε} {i : ι}
    (h : ∀ p, next = .ok p → left n p < left n (y.phase i)) (hpos : 0 < left n (y.phase i)) :
    left n ((y.goOn i next).phase i) < left n (y.phase i) := by
  cases next with
  | error e =>
      have hphase : (y.goOn i (.error e)).phase i = .ended (.error e) := setPhase_self ..
      rwa [hphase]
  | ok p =>
      have hphase : (y.goOn i (.ok p)).phase i = p := setPhase_self ..
      rw [hphase]
      exact h p rfl

theorem left_step {n : ℕ} (hn : ∀ i s stmts, call i s = .ok stmts → stmts.length ≤ n)
    (hstep : step call i y = some y') : left n (y'.phase i) < left n (y.phase i) := by
  unfold step at hstep
  cases hphase : y.phase i with
  | waiting =>
      rw [hphase] at hstep
      dsimp only at hstep
      split_ifs at hstep
      obtain rfl := Option.some.inj hstep
      have hbegun : left n ((y.setPhase i (.begun y.file)).phase i) = n + 2 := by
        rw [setPhase_self, left]
      exact hbegun.trans_lt (Nat.lt_succ_self _)
  | begun own =>
      rw [hphase] at hstep
      obtain rfl := Option.some.inj hstep
      rw [← hphase]
      refine left_goOn (fun p hp => ?_) (by rw [hphase, left]; omega)
      cases hcall : call i own with
      | error e =>
          rw [hcall] at hp
          cases hp
      | ok stmts =>
          have hlength := hn i own stmts hcall
          rw [hcall] at hp
          obtain rfl := Except.ok.inj hp
          rw [hphase, left, left]
          omega
  | running own rest =>
      rw [hphase] at hstep
      cases rest with
      | nil =>
          obtain rfl := Option.some.inj hstep
          have hended : (y.commit i own).phase i = .ended (.ok ()) := setPhase_self ..
          rw [hended, left, left]
          exact Nat.succ_pos _
      | cons stmt rest =>
          obtain rfl := Option.some.inj hstep
          rw [← hphase]
          refine left_goOn (fun p hp => ?_) (by rw [hphase, left]; omega)
          cases hstmt : stmt own with
          | error e =>
              rw [hstmt] at hp
              cases hp
          | ok own' =>
              rw [hstmt] at hp
              obtain rfl := Except.ok.inj hp
              rw [hphase, left, left, List.length_cons]
              omega
  | ended r =>
      rw [hphase] at hstep
      cases hstep

theorem phase_step_ne {j : ι} (hj : j ≠ i) (hstep : step call i y = some y') :
    y'.phase j = y.phase j := by
  have hgoOn : ∀ next, (y.goOn i next).phase j = y.phase j := by
    intro next
    cases next <;> exact setPhase_ne hj ..
  unfold step at hstep
  split at hstep
  case h_1 =>
    split_ifs at hstep
    obtain rfl := Option.some.inj hstep
    exact setPhase_ne hj ..
  case h_2 =>
    obtain rfl := Option.some.inj hstep
    exact hgoOn _
  case h_3 =>
    obtain rfl := Option.some.inj hstep
    exact setPhase_ne hj ..
  case h_4 =>
    obtain rfl := Option.some.inj hstep
    exact hgoOn _
  case h_5 => cases hstep

/-- No connection takes more steps than its statements and three more. -/
theorem count_steps {n : ℕ} (hn : ∀ i s stmts, call i s = .ok stmts → stmts.length ≤ n)
    {t : List (Taken ι (System ι σ ε))} (h : Run (step call) (start s₀) t y) (i : ι) :
    (t.filter fun x => x.event = i).length + left n (y.phase i) ≤ n + 3 := by
  induction h with
  | start => exact (Nat.zero_add _).le
  | @step t y y' j _ hstep ih =>
      rw [List.filter_append, List.length_append]
      by_cases hj : j = i
      · subst hj
        have hleft := left_step hn hstep
        simp only [List.filter_cons, decide_true, if_true, List.filter_nil, List.length_singleton]
        omega
      · rw [phase_step_ne (fun h => hj h.symm) hstep]
        simpa [hj] using ih

/-! ### The same call from every connection -/

section Same

variable {c : Call σ ε} (hc : ∀ s, c.run (c.run s).2 = c.run s)

include hc

omit [DecidableEq ι] in
theorem run_serial (order : List ι) :
    c.run (serial (fun _ : ι => c) s₀ order) = c.run s₀ := by
  induction order using List.reverseRecOn with
  | nil => rfl
  | append_singleton order i ih => rw [serial_concat, hc, ih]

/-- A call that repeats itself is made once in effect: every connection gets
its result, and the file is as it was or as the call leaves it. -/
theorem once_in_effect {t : List (Taken ι (System ι σ ε))}
    (h : Run (System.step fun _ => c) (start s₀) t y) :
    (∀ i r, y.phase i = .ended r → r = (c.run s₀).1 ∧ y.file = (c.run s₀).2) ∧
      ((∀ i r, y.phase i ≠ .ended r) → y.file = s₀) := by
  obtain ⟨order, hserial⟩ := serializable h
  constructor
  · intro i r hr
    have hi := hserial.ended_iff.1 ⟨r, hr⟩
    obtain ⟨pre, post, horder⟩ := List.append_of_mem hi
    have hresult := hserial.result pre i post horder
    rw [hr, run_serial hc] at hresult
    refine ⟨Phase.ended.inj hresult, ?_⟩
    rcases List.eq_nil_or_concat order with rfl | ⟨order, j, rfl⟩
    · simp at hi
    · rw [hserial.file, List.concat_eq_append, serial_concat, run_serial hc]
  · intro hnone
    have horder : order = [] := by
      refine List.eq_nil_iff_forall_not_mem.2 fun i hi => ?_
      obtain ⟨r, hr⟩ := hserial.ended_iff.2 hi
      exact hnone i r hr
    rw [hserial.file, horder]
    rfl

end Same

end System

end Vuo.Foundation.Transaction
