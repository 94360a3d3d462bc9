import Mathlib.Logic.Relation
import Mathlib.Tactic.Common

/-!
# Programs over an interface

A program calls operations of an interface and continues with what they
answer. A setting says what each operation may do to a world, and what the
environment may do to it between two operations. `wp` is the predicate
transformer for such programs: its postcondition holds at the end, and its
guarantee at every step the program itself takes on the way.
-/

namespace Vuo.Foundation

/-- A program over the operations `Op`, of which `op` answers in `Ans op`. -/
inductive Program (Op : Type) (Ans : Op → Type) (α : Type) : Type
  | done (a : α)
  | call (op : Op) (next : Ans op → Program Op Ans α)

namespace Program

variable {Op : Type} {Ans : Op → Type} {α β : Type}

protected def bind : Program Op Ans α → (α → Program Op Ans β) →
    Program Op Ans β
  | done a, f => f a
  | call op next, f => call op fun r => (next r).bind f

instance : Monad (Program Op Ans) where
  pure := done
  bind := Program.bind

theorem pure_def (a : α) : (pure a : Program Op Ans α) = done a :=
  rfl

theorem bind_def (p : Program Op Ans α) (f : α → Program Op Ans β) :
    p >>= f = p.bind f :=
  rfl

theorem bind_done (p : Program Op Ans α) : p.bind done = p := by
  induction p with
  | done a => rfl
  | call op next ih =>
      simp only [Program.bind]
      exact congrArg _ (funext ih)

theorem bind_assoc {γ : Type} (p : Program Op Ans α)
    (f : α → Program Op Ans β) (g : β → Program Op Ans γ) :
    (p.bind f).bind g = p.bind fun a => (f a).bind g := by
  induction p with
  | done a => rfl
  | call op next ih =>
      simp only [Program.bind]
      exact congrArg _ (funext ih)

instance : LawfulMonad (Program Op Ans) :=
  LawfulMonad.mk' _ bind_done (fun _ _ => rfl) bind_assoc

/-- The program that calls one operation and returns its answer. -/
def perform (op : Op) : Program Op Ans (Ans op) :=
  call op done

/-- The program as one that may fail and does not. -/
def lift {ε : Type} (p : Program Op Ans α) : ExceptT ε (Program Op Ans) α :=
  ExceptT.lift p

/-- A failing program run for its outcome: the failure is handed to the
caller instead of ending it. -/
def attempt {ε : Type} (p : ExceptT ε (Program Op Ans) α) :
    ExceptT ε (Program Op Ans) (Except ε α) :=
  ExceptT.lift p.run

/-! ### The operations a program may call -/

/-- Every operation the program calls, on any path, is one of `A`. -/
def Calls (A : Op → Prop) : Program Op Ans α → Prop
  | done _ => True
  | call op next => A op ∧ ∀ r, (next r).Calls A

variable {A B : Op → Prop}

theorem Calls.any (p : Program Op Ans α) : p.Calls fun _ => True := by
  induction p with
  | done a => trivial
  | call op next ih => exact ⟨trivial, ih⟩

theorem Calls.mono (h : ∀ op, A op → B op) {p : Program Op Ans α} (hp : p.Calls A) :
    p.Calls B := by
  induction p with
  | done a => trivial
  | call op next ih => exact ⟨h op hp.1, fun r => ih r (hp.2 r)⟩

theorem Calls.bind {p : Program Op Ans α} {f : α → Program Op Ans β}
    (hp : p.Calls A) (hf : ∀ a, (f a).Calls A) : (p >>= f).Calls A := by
  induction p with
  | done a => exact hf a
  | call op next ih => exact ⟨hp.1, fun r => ih r (hp.2 r)⟩

section Fallible

variable {ε : Type}

/-- `Calls` of a program that may fail. -/
def CallsE (A : Op → Prop) (p : ExceptT ε (Program Op Ans) α) : Prop :=
  p.run.Calls A

theorem CallsE.pure (a : α) : CallsE A (Pure.pure a : ExceptT ε (Program Op Ans) α) :=
  trivial

theorem CallsE.throw (e : ε) :
    CallsE A (MonadExcept.throw e : ExceptT ε (Program Op Ans) α) :=
  trivial

theorem CallsE.bind {p : ExceptT ε (Program Op Ans) α}
    {f : α → ExceptT ε (Program Op Ans) β} (hp : CallsE A p)
    (hf : ∀ a, CallsE A (f a)) : CallsE A (p >>= f) := by
  refine Calls.bind hp ?_
  rintro (e | a)
  · trivial
  · exact hf a

theorem CallsE.dite_iff {c : Prop} [Decidable c] {p : c → ExceptT ε (Program Op Ans) α}
    {q : ¬c → ExceptT ε (Program Op Ans) α} :
    CallsE A (dite c p q) ↔ (∀ h, CallsE A (p h)) ∧ ∀ h, CallsE A (q h) := by
  by_cases h : c <;> simp [h]

theorem CallsE.attempt {p : ExceptT ε (Program Op Ans) α} (hp : CallsE A p) :
    CallsE A (Program.attempt p) :=
  Calls.bind hp fun _ => trivial

end Fallible

end Program

/-! ## Settings -/

/-- What the operations and the environment may do to a world. -/
structure Setting (Op : Type) (Ans : Op → Type) (W : Type*) where
  act : (op : Op) → W → Ans op → W → Prop
  env : W → W → Prop

namespace Setting

variable {Op : Type} {Ans : Op → Type} {W : Type*} {α β : Type}
variable (S : Setting Op Ans W)

/-- Any number of steps of the environment. -/
def Env : W → W → Prop :=
  Relation.ReflTransGen S.env

/-- `P` survives whatever the environment does. -/
def Stable (P : W → Prop) : Prop :=
  ∀ w w', S.env w w' → P w → P w'

variable {S}

theorem Env.refl (w : W) : S.Env w w :=
  Relation.ReflTransGen.refl

theorem Env.trans {w₁ w₂ w₃ : W} (h₁ : S.Env w₁ w₂) (h₂ : S.Env w₂ w₃) :
    S.Env w₁ w₃ :=
  Relation.ReflTransGen.trans h₁ h₂

theorem Stable.env {P : W → Prop} (h : S.Stable P) {w w' : W}
    (henv : S.Env w w') (hw : P w) : P w' := by
  induction henv with
  | refl => exact hw
  | tail _ hstep ih => exact h _ _ hstep ih

theorem Stable.and {P Q : W → Prop} (hP : S.Stable P) (hQ : S.Stable Q) :
    S.Stable fun w => P w ∧ Q w :=
  fun w w' h hw => ⟨hP w w' h hw.1, hQ w w' h hw.2⟩

theorem Stable.forall {ι : Sort*} {P : ι → W → Prop}
    (h : ∀ i, S.Stable (P i)) : S.Stable fun w => ∀ i, P i w :=
  fun w w' henv hw i => h i w w' henv (hw i)

theorem stable_const (p : Prop) : S.Stable fun _ => p :=
  fun _ _ _ hp => hp

/-! ## Runs -/

/-- One step of a program in its setting: of the program or of the
environment. -/
inductive Step (S : Setting Op Ans W) :
    Program Op Ans α × W → Program Op Ans α × W → Prop
  | env {p : Program Op Ans α} {w w' : W} (h : S.env w w') :
      Step S (p, w) (p, w')
  | call {op : Op} {next : Ans op → Program Op Ans α} {w w' : W} {r : Ans op}
      (h : S.act op w r w') : Step S (.call op next, w) (next r, w')

/-- The configurations a program reaches. -/
def Reaches (S : Setting Op Ans W) :
    Program Op Ans α × W → Program Op Ans α × W → Prop :=
  Relation.ReflTransGen S.Step

theorem Reaches.of_env {p : Program Op Ans α} {w w' : W} (h : S.Env w w') :
    S.Reaches (p, w) (p, w') := by
  induction h with
  | refl => exact .refl
  | tail _ hstep ih => exact ih.tail (.env hstep)

theorem Reaches.call {op : Op} {next : Ans op → Program Op Ans α} {w w' : W}
    {r : Ans op} (h : S.act op w r w') {c : Program Op Ans α × W}
    (hc : S.Reaches (next r, w') c) : S.Reaches (.call op next, w) c :=
  .head (.call h) hc

/-- A run of the first program is a run of the sequence. -/
theorem Reaches.bind {p p' : Program Op Ans α} {w w' : W}
    (h : S.Reaches (p, w) (p', w')) (f : α → Program Op Ans β) :
    S.Reaches (p >>= f, w) (p' >>= f, w') := by
  generalize hc : (p, w) = c at h
  generalize hc' : (p', w') = c' at h
  induction h generalizing p' w' with
  | refl =>
      cases hc
      cases hc'
      exact .refl
  | @tail b c _ hstep ih =>
      obtain ⟨p₁, w₁⟩ := b
      cases hc'
      refine (ih rfl).tail ?_
      cases hstep with
      | env henv => exact .env henv
      | call hact => exact .call hact

/-- A failure of the first program ends the sequence. -/
theorem Reaches.bind_error {ε : Type} {p : ExceptT ε (Program Op Ans) α} {e : ε}
    {w w' : W} (h : S.Reaches (p.run, w) (.done (.error e), w'))
    (f : α → ExceptT ε (Program Op Ans) β) :
    S.Reaches ((p >>= f).run, w) (.done (.error e), w') :=
  Reaches.bind h (ExceptT.bindCont f)

/-- A value of the first program is handed to the second. -/
theorem Reaches.bind_ok {ε : Type} {p : ExceptT ε (Program Op Ans) α} {a : α}
    {w w' : W} (h : S.Reaches (p.run, w) (.done (.ok a), w'))
    (f : α → ExceptT ε (Program Op Ans) β) :
    S.Reaches ((p >>= f).run, w) ((f a).run, w') :=
  Reaches.bind h (ExceptT.bindCont f)

theorem Reaches.attempt {ε : Type} {p : ExceptT ε (Program Op Ans) α} {r : Except ε α}
    {w w' : W} (h : S.Reaches (p.run, w) (.done r, w')) :
    S.Reaches ((Program.attempt p).run, w) (.done (.ok r), w') :=
  Reaches.bind h fun r => Program.done (Except.ok r)

/-- What a program may call does not grow on a run. -/
theorem Reaches.calls {A : Op → Prop} {p p' : Program Op Ans α} {w w' : W}
    (h : S.Reaches (p, w) (p', w')) (hp : p.Calls A) : p'.Calls A := by
  generalize hc : (p, w) = c at h
  generalize hc' : (p', w') = c' at h
  induction h generalizing p' w' with
  | refl =>
      cases hc
      cases hc'
      exact hp
  | @tail b c _ hstep ih =>
      obtain ⟨p₁, w₁⟩ := b
      cases hc'
      have hcalls := ih rfl
      cases hstep with
      | env _ => exact hcalls
      | call _ => exact hcalls.2 _

/-! ## Weakest preconditions -/

/-- What a step of the program itself promises: the operation, the world it
was taken in, its answer and the world it left. -/
abbrev Guarantee (Op : Type) (Ans : Op → Type) (W : Type*) :=
  (op : Op) → W → Ans op → W → Prop

/-- From `w`, every step of `p` keeps `G` and every end of `p` satisfies `Q`,
whatever the environment does in between. -/
def wp (S : Setting Op Ans W) (G : Guarantee Op Ans W) :
    Program Op Ans α → (α → W → Prop) → W → Prop
  | .done a, Q, w => ∀ w', S.Env w w' → Q a w'
  | .call op next, Q, w =>
      ∀ w₁, S.Env w w₁ → ∀ r w₂, S.act op w₁ r w₂ →
        G op w₁ r w₂ ∧ wp S G (next r) Q w₂

variable {G H : Guarantee Op Ans W}

theorem wp_env {p : Program Op Ans α} {Q : α → W → Prop} {w w' : W}
    (henv : S.Env w w') (h : S.wp G p Q w) : S.wp G p Q w' := by
  cases p with
  | done a => exact fun w₁ h₁ => h w₁ (henv.trans h₁)
  | call op next => exact fun w₁ h₁ => h w₁ (henv.trans h₁)

theorem wp_stable (p : Program Op Ans α) (Q : α → W → Prop) :
    S.Stable (S.wp G p Q) :=
  fun _ _ henv h => wp_env (.single henv) h

/-- A stable precondition that gives the postcondition ends a program. -/
theorem wp_done {P : W → Prop} {Q : α → W → Prop} {a : α} {w : W}
    (hP : S.Stable P) (hw : P w) (hQ : ∀ w', P w' → Q a w') :
    S.wp G (.done a) Q w :=
  fun w' henv => hQ w' (hP.env henv hw)

theorem wp_done' {Q : α → W → Prop} {a : α} {w : W} (hQ : S.Stable (Q a))
    (hw : Q a w) : S.wp G (.done a) Q w :=
  wp_done hQ hw fun _ h => h

/-- The rule of an operation called under a stable precondition. -/
theorem wp_call {P : W → Prop} {op : Op} {next : Ans op → Program Op Ans α}
    {Q : α → W → Prop} {w : W} (hP : S.Stable P) (hw : P w)
    (h : ∀ w₁, P w₁ → ∀ r w₂, S.act op w₁ r w₂ →
      G op w₁ r w₂ ∧ S.wp G (next r) Q w₂) :
    S.wp G (.call op next) Q w :=
  fun w₁ henv r w₂ hact => h w₁ (hP.env henv hw) r w₂ hact

theorem wp_mono {p : Program Op Ans α} {Q R : α → W → Prop} {w : W}
    (hQ : ∀ a w', Q a w' → R a w') (h : S.wp G p Q w) : S.wp G p R w := by
  induction p generalizing w with
  | done a => exact fun w' henv => hQ a w' (h w' henv)
  | call op next ih =>
      intro w₁ henv r w₂ hact
      exact ⟨(h w₁ henv r w₂ hact).1, ih r (h w₁ henv r w₂ hact).2⟩

theorem wp_weaken {p : Program Op Ans α} {Q : α → W → Prop} {w : W}
    (hG : ∀ op w r w', S.act op w r w' → G op w r w' → H op w r w')
    (h : S.wp G p Q w) : S.wp H p Q w := by
  induction p generalizing w with
  | done a => exact h
  | call op next ih =>
      intro w₁ henv r w₂ hact
      obtain ⟨hg, hnext⟩ := h w₁ henv r w₂ hact
      exact ⟨hG op w₁ r w₂ hact hg, ih r hnext⟩

theorem wp_and {p : Program Op Ans α} {Q R : α → W → Prop} {w : W}
    (hQ : S.wp G p Q w) (hR : S.wp H p R w) :
    S.wp (fun op w r w' => G op w r w' ∧ H op w r w') p
      (fun a w' => Q a w' ∧ R a w') w := by
  induction p generalizing w with
  | done a => exact fun w' henv => ⟨hQ w' henv, hR w' henv⟩
  | call op next ih =>
      intro w₁ henv r w₂ hact
      obtain ⟨hg, hq⟩ := hQ w₁ henv r w₂ hact
      obtain ⟨hh, hr⟩ := hR w₁ henv r w₂ hact
      exact ⟨⟨hg, hh⟩, ih r hq hr⟩

/-- Sequencing: the second program starts wherever the first one may end. -/
theorem wp_bind {p : Program Op Ans α} {f : α → Program Op Ans β}
    {Q : β → W → Prop} {w : W} :
    S.wp G (p >>= f) Q w ↔ S.wp G p (fun a w' => S.wp G (f a) Q w') w := by
  induction p generalizing w with
  | done a =>
      constructor
      · intro h w' henv
        exact wp_env henv h
      · intro h
        exact h w (.refl w)
  | call op next ih =>
      constructor
      · intro h w₁ henv r w₂ hact
        obtain ⟨hg, hnext⟩ := h w₁ henv r w₂ hact
        exact ⟨hg, ih r |>.1 hnext⟩
      · intro h w₁ henv r w₂ hact
        obtain ⟨hg, hnext⟩ := h w₁ henv r w₂ hact
        exact ⟨hg, ih r |>.2 hnext⟩

/-- What the operations a program may call preserve, the program preserves. -/
theorem wp_of_calls {A : Op → Prop} {I : W → Prop} (hI : S.Stable I)
    (hact : ∀ op, A op → ∀ w r w', S.act op w r w' → I w → G op w r w' ∧ I w')
    {p : Program Op Ans α} (hp : p.Calls A) {w : W} (hw : I w) :
    S.wp G p (fun _ => I) w := by
  induction p generalizing w with
  | done a => exact wp_done' hI hw
  | call op next ih =>
      refine wp_call hI hw ?_
      intro w₁ h₁ r w₂ h
      obtain ⟨hg, hnext⟩ := hact op hp.1 w₁ r w₂ h h₁
      exact ⟨hg, ih r (hp.2 r) hnext⟩

/-! ## Programs that may fail -/

section Fallible

variable {ε : Type}

/-- `Q` of a value returned, `E` of a failure. -/
def ends (Q : α → W → Prop) (E : ε → W → Prop) : Except ε α → W → Prop
  | .ok a, w => Q a w
  | .error e, w => E e w

@[simp]
theorem ends_ok (Q : α → W → Prop) (E : ε → W → Prop) (a : α) (w : W) :
    ends Q E (.ok a) w ↔ Q a w :=
  Iff.rfl

@[simp]
theorem ends_error (Q : α → W → Prop) (E : ε → W → Prop) (e : ε) (w : W) :
    ends Q E (.error e) w ↔ E e w :=
  Iff.rfl

theorem Stable.ends {Q : α → W → Prop} {E : ε → W → Prop}
    (hQ : ∀ a, S.Stable (Q a)) (hE : ∀ e, S.Stable (E e)) (r : Except ε α) :
    S.Stable (ends Q E r) := by
  cases r with
  | ok a => exact hQ a
  | error e => exact hE e

/-- `wp` of a program that returns or fails: `Q` where it returns, `E` where it
fails. -/
def wpe (S : Setting Op Ans W) (G : Guarantee Op Ans W)
    (p : ExceptT ε (Program Op Ans) α) (Q : α → W → Prop) (E : ε → W → Prop) :
    W → Prop :=
  S.wp G p.run (ends Q E)

variable {Q : α → W → Prop} {E : ε → W → Prop} {w : W}

theorem wpe_stable (p : ExceptT ε (Program Op Ans) α) :
    S.Stable (S.wpe G p Q E) :=
  wp_stable _ _

theorem wpe_of_calls {A : Op → Prop} {I : W → Prop} (hI : S.Stable I)
    (hact : ∀ op, A op → ∀ w r w', S.act op w r w' → I w → G op w r w' ∧ I w')
    {p : ExceptT ε (Program Op Ans) α} (hp : Program.CallsE A p) (hw : I w) :
    S.wpe G p (fun _ => I) (fun _ => I) w := by
  refine wp_mono ?_ (wp_of_calls hI hact hp hw)
  rintro (e | a) w' h'
  · exact h'
  · exact h'

theorem wpe_mono {p : ExceptT ε (Program Op Ans) α} {R : α → W → Prop}
    {F : ε → W → Prop} (hQ : ∀ a w', Q a w' → R a w')
    (hE : ∀ e w', E e w' → F e w') (h : S.wpe G p Q E w) : S.wpe G p R F w := by
  refine wp_mono ?_ h
  rintro (e | a) w' h'
  · exact hE e w' h'
  · exact hQ a w' h'

theorem wpe_pure {a : α} (hQ : S.Stable (Q a)) (hw : Q a w) :
    S.wpe G (pure a : ExceptT ε (Program Op Ans) α) Q E w :=
  wp_done' hQ hw

theorem wpe_lift {p : Program Op Ans α} (h : S.wp G p Q w) :
    S.wpe G (p.lift : ExceptT ε (Program Op Ans) α) Q E w := by
  have hrun : (p.lift : ExceptT ε (Program Op Ans) α).run =
      p >>= fun a => pure (.ok a) :=
    rfl
  rw [wpe, hrun, wp_bind]
  induction p generalizing w with
  | done a =>
      intro w₁ h₁ w₂ h₂
      exact h w₂ (h₁.trans h₂)
  | call op next ih =>
      intro w₁ henv r w₂ hact
      exact ⟨(h w₁ henv r w₂ hact).1, ih r (h w₁ henv r w₂ hact).2 rfl⟩

/-- An attempted program never fails; its caller sees how it ended. -/
theorem wpe_attempt {p : ExceptT ε (Program Op Ans) α}
    {R : Except ε α → W → Prop}
    (h : S.wpe G p (fun a => R (.ok a)) (fun e => R (.error e)) w) :
    S.wpe G (Program.attempt p) R E w := by
  refine wpe_lift (wp_mono ?_ h)
  rintro (e | a) w' h'
  · exact h'
  · exact h'

theorem wpe_throw {e : ε} (hE : S.Stable (E e)) (hw : E e w) :
    S.wpe G (throw e) Q E w :=
  wp_done' hE hw

/-- The rule of a branch. -/
theorem wpe_dite {c : Prop} [Decidable c] {p : c → ExceptT ε (Program Op Ans) α}
    {q : ¬c → ExceptT ε (Program Op Ans) α} (hp : ∀ h, S.wpe G (p h) Q E w)
    (hq : ∀ h, S.wpe G (q h) Q E w) : S.wpe G (dite c p q) Q E w := by
  split
  · next h => exact hp h
  · next h => exact hq h

/-- Sequencing: a failure of the first program is the failure of both. -/
theorem wpe_bind {p : ExceptT ε (Program Op Ans) α}
    {f : α → ExceptT ε (Program Op Ans) β} {R : β → W → Prop}
    (hE : ∀ e, S.Stable (E e))
    (h : S.wpe G p (fun a => S.wpe G (f a) R E) E w) :
    S.wpe G (p >>= f) R E w := by
  refine wp_bind.2 (wp_mono ?_ h)
  rintro (e | a) w' h'
  · exact wp_done' (hE e) h'
  · exact h'

end Fallible

/-! ## What a weakest precondition says about runs -/

theorem wp_step {p p' : Program Op Ans α} {Q : α → W → Prop} {w w' : W}
    (h : S.wp G p Q w) (hstep : S.Step (p, w) (p', w')) :
    S.wp G p' Q w' := by
  cases hstep with
  | env henv => exact wp_env (.single henv) h
  | call hact => exact (h w (.refl w) _ w' hact).2

theorem wp_reaches {p p' : Program Op Ans α} {Q : α → W → Prop} {w w' : W}
    (h : S.wp G p Q w) (hreach : S.Reaches (p, w) (p', w')) :
    S.wp G p' Q w' := by
  generalize hc : (p, w) = c at hreach
  generalize hc' : (p', w') = c' at hreach
  induction hreach generalizing p' w' with
  | refl =>
      cases hc
      cases hc'
      exact h
  | @tail b c _ hstep ih =>
      cases hc'
      obtain ⟨p₁, w₁⟩ := b
      exact wp_step (ih rfl) hstep

/-- A finished run satisfies the postcondition. -/
theorem wp_finished {p : Program Op Ans α} {Q : α → W → Prop} {w w' : W}
    {a : α} (h : S.wp G p Q w) (hreach : S.Reaches (p, w) (.done a, w')) :
    Q a w' :=
  wp_reaches h hreach w' (.refl w')

/-- What every step of a program, and the environment, leave true is true wherever a run
gets to. -/
theorem invariant_of_wp {p p' : Program Op Ans α} {Q : α → W → Prop} {I : W → Prop}
    {w w' : W} (h : S.wp G p Q w) (hI : S.Stable I)
    (hG : ∀ op w r w', G op w r w' → I w') (hw : I w) (hreach : S.Reaches (p, w) (p', w')) :
    I w' := by
  generalize hc' : (p', w') = c' at hreach
  induction hreach generalizing p' w' with
  | refl =>
      cases hc'
      exact hw
  | @tail b c hbefore hstep ih =>
      cases hc'
      obtain ⟨p₁, w₁⟩ := b
      cases hstep with
      | env henv => exact hI _ _ henv (ih rfl)
      | call hact => exact hG _ _ _ _ ((wp_reaches h hbefore w₁ (.refl w₁) _ _ hact).1)

/-- A run that returned satisfies the postcondition of returning. -/
theorem wpe_finished {ε : Type} {p : ExceptT ε (Program Op Ans) α} {Q : α → W → Prop}
    {E : ε → W → Prop} {w w' : W} {a : α} (h : S.wpe G p Q E w)
    (hreach : S.Reaches (p.run, w) (.done (.ok a), w')) : Q a w' := by
  have hends : Setting.ends Q E (.ok a) w' := wp_finished (Q := Setting.ends Q E) h hreach
  exact hends

/-- Every operation called on a run keeps the guarantee. -/
theorem wp_called {p : Program Op Ans α} {Q : α → W → Prop} {w w₁ w₂ : W}
    {op : Op} {next : Ans op → Program Op Ans α} {r : Ans op}
    (h : S.wp G p Q w) (hreach : S.Reaches (p, w) (.call op next, w₁))
    (hact : S.act op w₁ r w₂) : G op w₁ r w₂ :=
  (wp_reaches h hreach w₁ (.refl w₁) r w₂ hact).1

end Setting

end Vuo.Foundation
