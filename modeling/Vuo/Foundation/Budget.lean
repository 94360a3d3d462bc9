import Mathlib.Data.List.Count
import Vuo.Foundation.Program

/-!
# The log of a run

A run leaves a log of the operations that were called and of their answers.
Two properties of a program are read off its text and hold of every log: how
often it calls operations of a kind, and that some answers are the end of it.
-/

namespace Vuo.Foundation

/-- The operations called, each with its answer. -/
abbrev Log (Op : Type) (Ans : Op → Type) := List ((op : Op) × Ans op)

namespace Setting

variable {Op : Type} {Ans : Op → Type} {W : Type*} {α : Type}

/-- The runs of a program, with their logs. -/
inductive Runs (S : Setting Op Ans W) :
    Program Op Ans α × W → Log Op Ans → Program Op Ans α × W → Prop
  | refl {c : Program Op Ans α × W} : Runs S c [] c
  | env {p : Program Op Ans α} {w w' : W} {log : Log Op Ans} {c : Program Op Ans α × W}
      (h : S.env w w') (hrun : Runs S (p, w') log c) : Runs S (p, w) log c
  | call {op : Op} {next : Ans op → Program Op Ans α} {w w' : W} {r : Ans op}
      {log : Log Op Ans} {c : Program Op Ans α × W} (h : S.act op w r w')
      (hrun : Runs S (next r, w') log c) : Runs S (.call op next, w) (⟨op, r⟩ :: log) c

variable {S : Setting Op Ans W} {c c' : Program Op Ans α × W}

theorem Runs.reaches {log : Log Op Ans} (h : S.Runs c log c') : S.Reaches c c' := by
  induction h with
  | refl => exact .refl
  | env henv _ ih => exact .head (.env henv) ih
  | call hact _ ih => exact .head (.call hact) ih

/-- Every run has a log. -/
theorem Reaches.exists_log (h : S.Reaches c c') : ∃ log, S.Runs c log c' := by
  induction h using Relation.ReflTransGen.head_induction_on with
  | refl => exact ⟨[], .refl⟩
  | head hstep _ ih =>
      obtain ⟨log, hrun⟩ := ih
      cases hstep with
      | env henv => exact ⟨log, .env henv hrun⟩
      | call hact => exact ⟨_, .call hact hrun⟩

/-- Every answer of a log was given in some world. -/
theorem Runs.act_of_mem {log : Log Op Ans} (h : S.Runs c log c') {x : (op : Op) × Ans op}
    (hx : x ∈ log) : ∃ w w', S.act x.1 w x.2 w' := by
  induction h with
  | refl => cases hx
  | env _ _ ih => exact ih hx
  | call hact _ ih =>
      rcases List.mem_cons.1 hx with rfl | hx
      · exact ⟨_, _, hact⟩
      · exact ih hx

end Setting

namespace Program

variable {Op : Type} {Ans : Op → Type} {α β ε : Type}

/-! ## How often operations are called -/

section AtMost

variable (R : (op : Op) → Ans op → Prop) (counted : Op → Bool)

/-- On every path along answers in `R`, no more than `n` of the operations
called are counted. -/
def AtMost : Program Op Ans α → ℕ → Prop
  | .done _, _ => True
  | .call op next, n =>
      if counted op then ∃ k, n = k + 1 ∧ ∀ r, R op r → AtMost (next r) k
      else ∀ r, R op r → AtMost (next r) n

variable {R counted} {p : Program Op Ans α} {m n : ℕ}

theorem AtMost.mono (h : p.AtMost R counted m) (hmn : m ≤ n) : p.AtMost R counted n := by
  induction p generalizing m n with
  | done a => trivial
  | call op next ih =>
      unfold AtMost at h ⊢
      split
      · next hop =>
          rw [if_pos hop] at h
          obtain ⟨k, rfl, hnext⟩ := h
          exact ⟨n - 1, by omega, fun r hr => ih r (hnext r hr) (by omega)⟩
      · next hop =>
          rw [if_neg hop] at h
          exact fun r hr => ih r (h r hr) hmn

theorem AtMost.bind {f : α → Program Op Ans β} (hp : p.AtMost R counted m)
    (hf : ∀ a, (f a).AtMost R counted n) : (p >>= f).AtMost R counted (m + n) := by
  induction p generalizing m with
  | done a => exact (hf a).mono (Nat.le_add_left n m)
  | call op next ih =>
      unfold AtMost at hp
      change AtMost R counted (.call op fun r => next r >>= f) (m + n)
      unfold AtMost
      split
      · next hop =>
          rw [if_pos hop] at hp
          obtain ⟨k, rfl, hnext⟩ := hp
          exact ⟨k + n, by omega, fun r hr => ih r (hnext r hr)⟩
      · next hop =>
          rw [if_neg hop] at hp
          exact fun r hr => ih r (hp r hr)

/-- An operation that is counted costs one. -/
theorem atMost_counted {op : Op} {next : Ans op → Program Op Ans α} (hop : counted op = true)
    (h : ∀ r, R op r → (next r).AtMost R counted n) :
    (call op next).AtMost R counted (n + 1) := by
  unfold AtMost
  rw [if_pos hop]
  exact ⟨n, rfl, h⟩

theorem atMost_free {op : Op} {next : Ans op → Program Op Ans α} (hop : counted op = false)
    (h : ∀ r, R op r → (next r).AtMost R counted n) : (call op next).AtMost R counted n := by
  unfold AtMost
  rw [if_neg (by simp [hop])]
  exact h

/-- The bound holds of the log of every run whose answers are in `R`. -/
theorem AtMost.count_le {W : Type*} {S : Setting Op Ans W} {w : W} {log : Log Op Ans}
    {c : Program Op Ans α × W} (h : p.AtMost R counted n) (hrun : S.Runs (p, w) log c)
    (hlog : ∀ x ∈ log, R x.1 x.2) : log.countP (fun x => counted x.1) ≤ n := by
  generalize hc : (p, w) = d at hrun
  induction hrun generalizing p w n with
  | refl => exact Nat.zero_le n
  | env _ _ ih =>
      cases hc
      exact ih h hlog rfl
  | @call op next _ _ r log _ _ _ ih =>
      cases hc
      obtain ⟨hr, hrest⟩ := List.forall_mem_cons.1 hlog
      unfold AtMost at h
      rw [List.countP_cons]
      split at h
      · next hop =>
          obtain ⟨k, rfl, hnext⟩ := h
          have hle := ih (hnext r hr) hrest rfl
          simp only [hop, if_true]
          omega
      · next hop =>
          have hle := ih (h r hr) hrest rfl
          simpa [hop] using hle

/-! ### ... of programs that may fail -/

/-- `AtMost` of a program that may fail. -/
def AtMostE (R : (op : Op) → Ans op → Prop) (counted : Op → Bool)
    (p : ExceptT ε (Program Op Ans) α) (n : ℕ) : Prop :=
  p.run.AtMost R counted n

theorem AtMostE.pure (a : α) (n : ℕ) :
    AtMostE R counted (Pure.pure a : ExceptT ε (Program Op Ans) α) n :=
  trivial

theorem AtMostE.throw (e : ε) (n : ℕ) :
    AtMostE R counted (MonadExcept.throw e : ExceptT ε (Program Op Ans) α) n :=
  trivial

theorem AtMostE.mono {p : ExceptT ε (Program Op Ans) α} (h : AtMostE R counted p m)
    (hmn : m ≤ n) : AtMostE R counted p n :=
  AtMost.mono h hmn

theorem AtMostE.bind {p : ExceptT ε (Program Op Ans) α}
    {f : α → ExceptT ε (Program Op Ans) β} (hp : AtMostE R counted p m)
    (hf : ∀ a, AtMostE R counted (f a) n) : AtMostE R counted (p >>= f) (m + n) := by
  refine AtMost.bind hp ?_
  rintro (e | a)
  · trivial
  · exact hf a

/-- What costs nothing may come first. -/
theorem AtMostE.after {p : ExceptT ε (Program Op Ans) α}
    {f : α → ExceptT ε (Program Op Ans) β} (hp : AtMostE R counted p 0)
    (hf : ∀ a, AtMostE R counted (f a) n) : AtMostE R counted (p >>= f) n :=
  (hp.bind hf).mono (Nat.le_of_eq (Nat.zero_add n))

theorem AtMostE.dite_iff {c : Prop} [Decidable c] {p : c → ExceptT ε (Program Op Ans) α}
    {q : ¬c → ExceptT ε (Program Op Ans) α} :
    AtMostE R counted (dite c p q) n ↔
      (∀ h, AtMostE R counted (p h) n) ∧ ∀ h, AtMostE R counted (q h) n := by
  by_cases h : c <;> simp [h]

theorem AtMostE.attempt {p : ExceptT ε (Program Op Ans) α} (hp : AtMostE R counted p n) :
    AtMostE R counted (Program.attempt p) n :=
  AtMost.bind (n := 0) hp fun _ => by trivial

end AtMost

/-! ## Answers that are the end of it -/

section Stops

variable (allowed : Op → Prop) (final : (op : Op) → Ans op → Prop) (Q : α → Prop)

/-- The program calls only what is allowed, and ends in `Q`. -/
def Quits : Program Op Ans α → Prop
  | .done a => Q a
  | .call op next => allowed op ∧ ∀ r, Quits (next r)

/-- After a final answer the program only does what is allowed, and ends in
`Q`. -/
def Stops : Program Op Ans α → Prop
  | .done _ => True
  | .call op next =>
      ∀ r, (final op r → (next r).Quits allowed Q) ∧ (¬final op r → Stops (next r))

variable {allowed final Q} {p : Program Op Ans α} {Q' : β → Prop}

theorem Quits.bind {f : α → Program Op Ans β} (hp : p.Quits allowed Q)
    (hf : ∀ a, Q a → (f a).Quits allowed Q') : (p >>= f).Quits allowed Q' := by
  induction p with
  | done a => exact hf a hp
  | call op next ih => exact ⟨hp.1, fun r => ih r (hp.2 r)⟩

theorem Stops.bind {f : α → Program Op Ans β} (hp : p.Stops allowed final Q)
    (hf : ∀ a, (f a).Stops allowed final Q') (hq : ∀ a, Q a → (f a).Quits allowed Q') :
    (p >>= f).Stops allowed final Q' := by
  induction p with
  | done a => exact hf a
  | call op next ih =>
      intro r
      exact ⟨fun hr => ((hp r).1 hr).bind hq, fun hr => ih r ((hp r).2 hr)⟩

/-- A program none of whose answers is final. -/
theorem stops_of_calls {A : Op → Prop} (hA : ∀ op, A op → ∀ r, ¬final op r) (hp : p.Calls A) :
    p.Stops allowed final Q := by
  induction p with
  | done a => trivial
  | call op next ih => exact fun r => ⟨fun hr => absurd hr (hA op hp.1 r), fun _ => ih r (hp.2 r)⟩

theorem Quits.log {W : Type*} {S : Setting Op Ans W} {w : W} {log : Log Op Ans}
    {c : Program Op Ans α × W} (h : p.Quits allowed Q) (hrun : S.Runs (p, w) log c) :
    (∀ x ∈ log, allowed x.1) ∧ c.1.Quits allowed Q := by
  generalize hc : (p, w) = d at hrun
  induction hrun generalizing p w with
  | refl =>
      cases hc
      exact ⟨nofun, h⟩
  | env _ _ ih =>
      cases hc
      exact ih h rfl
  | @call op next _ _ r log _ _ _ ih =>
      cases hc
      obtain ⟨hlog, hend⟩ := ih (h.2 r) rfl
      exact ⟨List.forall_mem_cons.2 ⟨h.1, hlog⟩, hend⟩

/-- In the log of a run nothing but what is allowed comes after a final
answer. -/
theorem Stops.log {W : Type*} {S : Setting Op Ans W} {w : W} {before after : Log Op Ans}
    {op : Op} {r : Ans op} {c : Program Op Ans α × W} (h : p.Stops allowed final Q)
    (hrun : S.Runs (p, w) (before ++ ⟨op, r⟩ :: after) c) (hr : final op r) :
    (∀ x ∈ after, allowed x.1) ∧ c.1.Quits allowed Q := by
  generalize hc : (p, w) = d at hrun
  generalize hlog : before ++ ⟨op, r⟩ :: after = log at hrun
  induction hrun generalizing p w before with
  | refl => simp at hlog
  | env _ _ ih =>
      cases hc
      exact ih h rfl hlog
  | @call op' next _ _ r' log' _ _ hrun ih =>
      cases hc
      cases before with
      | nil =>
          obtain ⟨hsame, rfl⟩ := List.cons.inj hlog
          cases hsame
          exact ((h r).1 hr).log hrun
      | cons x before =>
          obtain ⟨-, hrest⟩ := List.cons.inj hlog
          by_cases hr' : final op' r'
          · obtain ⟨hall, hend⟩ := ((h r').1 hr').log hrun
            rw [← hrest] at hall
            exact ⟨fun y hy => hall y (by simp [hy]), hend⟩
          · exact ih ((h r').2 hr') rfl hrest

theorem Quits.mono {Q' : α → Prop} (hQ : ∀ a, Q a → Q' a) (h : p.Quits allowed Q) :
    p.Quits allowed Q' := by
  induction p with
  | done a => exact hQ a h
  | call op next ih => exact ⟨h.1, fun r => ih r (h.2 r)⟩

theorem Stops.mono {Q' : α → Prop} (hQ : ∀ a, Q a → Q' a) (h : p.Stops allowed final Q) :
    p.Stops allowed final Q' := by
  induction p with
  | done a => trivial
  | call op next ih => exact fun r => ⟨fun hr => ((h r).1 hr).mono hQ, fun hr => ih r ((h r).2 hr)⟩

/-! ### ... of programs that may fail -/

/-- `Stops` of a program that may fail: after a final answer it fails, with an
error in `E`. -/
def Fails (allowed : Op → Prop) (final : (op : Op) → Ans op → Prop) (E : ε → Prop)
    (p : ExceptT ε (Program Op Ans) α) : Prop :=
  p.run.Stops allowed final fun r => ∃ e, r = .error e ∧ E e

variable {E : ε → Prop}

theorem Fails.pure (a : α) :
    Fails allowed final E (Pure.pure a : ExceptT ε (Program Op Ans) α) :=
  trivial

theorem Fails.throw (e : ε) :
    Fails allowed final E (MonadExcept.throw e : ExceptT ε (Program Op Ans) α) :=
  trivial

theorem Fails.bind {p : ExceptT ε (Program Op Ans) α} {f : α → ExceptT ε (Program Op Ans) β}
    (hp : Fails allowed final E p) (hf : ∀ a, Fails allowed final E (f a)) :
    Fails allowed final E (p >>= f) := by
  refine Stops.bind hp ?_ ?_
  · rintro (e | a)
    · trivial
    · exact hf a
  · rintro _ ⟨e, rfl, he⟩
    exact ⟨e, rfl, he⟩

theorem fails_of_calls {A : Op → Prop} (hA : ∀ op, A op → ∀ r, ¬final op r)
    {p : ExceptT ε (Program Op Ans) α} (hp : CallsE A p) : Fails allowed final E p :=
  stops_of_calls hA hp

theorem Fails.dite_iff {c : Prop} [Decidable c] {p : c → ExceptT ε (Program Op Ans) α}
    {q : ¬c → ExceptT ε (Program Op Ans) α} :
    Fails allowed final E (dite c p q) ↔
      (∀ h, Fails allowed final E (p h)) ∧ ∀ h, Fails allowed final E (q h) := by
  by_cases h : c <;> simp [h]

end Stops

end Program

end Vuo.Foundation
