import Mathlib.Logic.Equiv.Defs
import Vuo.Foundation.Budget

/-!
# Renaming the operations of a program

A renaming replaces every operation by another one with the same answers. A
program that commutes with it computes the same whichever of the two it calls.
-/

namespace Vuo.Foundation

/-- Other operations, answered alike. -/
structure Renaming (Op : Type) (Ans : Op → Type) where
  op : Op → Op
  ans : ∀ o, Ans o ≃ Ans (op o)

variable {Op : Type} {Ans : Op → Type} {α β ε : Type} {ρ : Renaming Op Ans}

/-- An operation of a log and its answer. -/
def Renaming.entry (ρ : Renaming Op Ans) (x : (o : Op) × Ans o) : (o : Op) × Ans o :=
  ⟨ρ.op x.1, ρ.ans x.1 x.2⟩

namespace Program

def rename (ρ : Renaming Op Ans) : Program Op Ans α → Program Op Ans α
  | done a => done a
  | call op next => call (ρ.op op) fun r => (next ((ρ.ans op).symm r)).rename ρ

theorem rename_bind (p : Program Op Ans α) (f : α → Program Op Ans β) :
    (p >>= f).rename ρ = p.rename ρ >>= fun a => (f a).rename ρ := by
  induction p with
  | done a => rfl
  | call op next ih => exact congrArg _ (funext fun r => ih _)

/-- The second program is the first one renamed. -/
def Renames (ρ : Renaming Op Ans) (p p' : ExceptT ε (Program Op Ans) α) : Prop :=
  p.run.rename ρ = p'.run

theorem Renames.pure (a : α) : Renames ρ (Pure.pure a : ExceptT ε (Program Op Ans) α)
    (Pure.pure a) :=
  rfl

theorem Renames.throw (e : ε) : Renames ρ (MonadExcept.throw e : ExceptT ε (Program Op Ans) α)
    (MonadExcept.throw e) :=
  rfl

variable {p p' : ExceptT ε (Program Op Ans) α}

theorem Renames.bind {f f' : α → ExceptT ε (Program Op Ans) β} (hp : Renames ρ p p')
    (hf : ∀ a, Renames ρ (f a) (f' a)) : Renames ρ (p >>= f) (p' >>= f') := by
  have hcont (r : Except ε α) :
      (ExceptT.bindCont f r).rename ρ = ExceptT.bindCont f' r := by
    cases r with
    | error e => rfl
    | ok a => exact hf a
  change (p.run >>= ExceptT.bindCont f).rename ρ = p'.run >>= ExceptT.bindCont f'
  rw [rename_bind, show p.run.rename ρ = p'.run from hp]
  exact congrArg _ (funext hcont)

/-- Nothing is called after a failure. -/
theorem Renames.throw_bind (e : ε) (f f' : α → ExceptT ε (Program Op Ans) β) :
    Renames ρ ((MonadExcept.throw e : ExceptT ε (Program Op Ans) α) >>= f)
      ((MonadExcept.throw e : ExceptT ε (Program Op Ans) α) >>= f') :=
  rfl

theorem Renames.attempt (hp : Renames ρ p p') :
    Renames ρ (Program.attempt p) (Program.attempt p') := by
  change (p.run >>= fun r => done (Except.ok r)).rename ρ =
    p'.run >>= fun r => done (Except.ok r)
  rw [rename_bind, show p.run.rename ρ = p'.run from hp]
  rfl

theorem Renames.dite {c : Prop} [Decidable c] {q q' : c → ExceptT ε (Program Op Ans) α}
    {r r' : ¬c → ExceptT ε (Program Op Ans) α} (hq : ∀ h, Renames ρ (q h) (q' h))
    (hr : ∀ h, Renames ρ (r h) (r' h)) : Renames ρ (dite c q r) (dite c q' r') := by
  split
  · next h => exact hq h
  · next h => exact hr h

theorem Renames.ite {c : Prop} [Decidable c] {q q' r r' : ExceptT ε (Program Op Ans) α}
    (hq : Renames ρ q q') (hr : Renames ρ r r') :
    Renames ρ (if c then q else r) (if c then q' else r') := by
  split
  · exact hq
  · exact hr

end Program

namespace Setting

variable {W : Type*} {S S' : Setting Op Ans W}

/-- Where renamed operations are answered alike, a run is a run of the renamed
program, through the same worlds. -/
theorem Runs.rename (hact : ∀ o w r w', S.act o w r w' → S'.act (ρ.op o) w (ρ.ans o r) w')
    (henv : ∀ w w', S.env w w' → S'.env w w') {c c' : Program Op Ans α × W} {log : Log Op Ans}
    (h : S.Runs c log c') :
    S'.Runs (c.1.rename ρ, c.2) (log.map ρ.entry) (c'.1.rename ρ, c'.2) := by
  induction h with
  | refl => exact .refl
  | env h _ ih => exact .env (henv _ _ h) ih
  | @call op next w w' r log c h _ ih =>
      refine .call (hact _ _ _ _ h) ?_
      rw [Equiv.symm_apply_apply]
      exact ih

end Setting

end Vuo.Foundation
