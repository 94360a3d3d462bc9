import Mathlib.Data.List.Infix
import Mathlib.Tactic.Common

/-!
# Runs and their traces

A system is a partial step function on its states, labelled by events. The
trace of a run lists the steps taken, each with the states around it. What a
run did is a property of its trace; `forall_prefix_iff` says when one holds
all along a run in terms of the single steps.
-/

namespace Vuo.Foundation

/-- A step taken. -/
structure Taken (E A : Type*) where
  before : A
  event : E
  after : A

variable {E A : Type*}

/-- The runs from `a₀`, with their traces and the states they lead to. -/
inductive Run (step : E → A → Option A) (a₀ : A) : List (Taken E A) → A → Prop
  | start : Run step a₀ [] a₀
  | step {t : List (Taken E A)} {a a' : A} {e : E} (h : Run step a₀ t a)
      (hstep : step e a = some a') : Run step a₀ (t ++ [⟨a, e, a'⟩]) a'

namespace Run

variable {step : E → A → Option A} {a₀ a : A} {t t' : List (Taken E A)} {x : Taken E A}

/-- The last step of a run. -/
theorem of_append (h : Run step a₀ (t ++ [x]) a) :
    Run step a₀ t x.before ∧ step x.event x.before = some x.after ∧ a = x.after := by
  generalize ht : t ++ [x] = t' at h
  cases h with
  | start => simp at ht
  | step h hstep =>
      obtain ⟨rfl, hx⟩ := List.append_inj' ht rfl
      cases hx
      exact ⟨h, hstep, rfl⟩

/-- A run restricted to its beginning. -/
theorem of_prefix (h : Run step a₀ t a) (ht : t' <+: t) : ∃ a', Run step a₀ t' a' := by
  induction h with
  | start =>
      obtain rfl := List.prefix_nil.1 ht
      exact ⟨a₀, .start⟩
  | step h hstep ih =>
      rcases List.prefix_concat_iff.1 ht with rfl | ht
      · exact ⟨_, .step h hstep⟩
      · exact ih ht

/-- Every step on record was taken in the state the run had come to. -/
theorem of_mem (h : Run step a₀ t a) (hx : x ∈ t) :
    ∃ t', t' ++ [x] <+: t ∧ Run step a₀ t' x.before ∧ step x.event x.before = some x.after := by
  obtain ⟨t₁, t₂, rfl⟩ := List.append_of_mem hx
  have hpre : t₁ ++ [x] <+: t₁ ++ x :: t₂ := ⟨t₂, by simp⟩
  obtain ⟨a', ha'⟩ := h.of_prefix hpre
  obtain ⟨hbefore, hstep, -⟩ := ha'.of_append
  exact ⟨t₁, hpre, hbefore, hstep⟩

/-- What one step preserves a run preserves. -/
theorem invariant {I : A → Prop} (h : Run step a₀ t a) (h₀ : I a₀)
    (hstep : ∀ e a a', I a → step e a = some a' → I a') : I a := by
  induction h with
  | start => exact h₀
  | step _ hs ih => exact hstep _ _ _ ih hs

/-- A property of the trace and the state that holds at the start, and that
each step of a run carries over exactly if it is `Ok`, holds all along a run
exactly if all its steps are. -/
theorem forall_prefix_iff_of_prefix {Good : List (Taken E A) → A → Prop}
    {Ok : List (Taken E A) → Taken E A → Prop} (h₀ : Good [] a₀)
    (hstep : ∀ t' x, t' ++ [x] <+: t → Run step a₀ t' x.before →
      step x.event x.before = some x.after → Good t' x.before →
        (Good (t' ++ [x]) x.after ↔ Ok t' x))
    (h : Run step a₀ t a) :
    (∀ t' a', t' <+: t → Run step a₀ t' a' → Good t' a') ↔
      ∀ t' x, t' ++ [x] <+: t → Ok t' x := by
  constructor
  · intro hgood t' x ht
    obtain ⟨a', ha'⟩ := h.of_prefix ht
    obtain ⟨hbefore, hs, rfl⟩ := ha'.of_append
    have hpre : t' <+: t := (List.prefix_append t' [x]).trans ht
    exact (hstep t' x ht hbefore hs (hgood t' _ hpre hbefore)).1 (hgood _ _ ht ha')
  · intro hok t' a' ht ha'
    induction ha' with
    | start => exact h₀
    | @step t' a a' e hbefore hs ih =>
        have hpre : t' <+: t := (List.prefix_append t' _).trans ht
        exact (hstep t' ⟨a, e, a'⟩ ht hbefore hs (ih hpre)).2 (hok t' _ ht)

/-- The same where no step hangs on the rest of the run. -/
theorem forall_prefix_iff {Good : List (Taken E A) → A → Prop}
    {Ok : List (Taken E A) → Taken E A → Prop} (h₀ : Good [] a₀)
    (hstep : ∀ t x, Run step a₀ t x.before → step x.event x.before = some x.after →
      Good t x.before → (Good (t ++ [x]) x.after ↔ Ok t x))
    (h : Run step a₀ t a) :
    (∀ t' a', t' <+: t → Run step a₀ t' a' → Good t' a') ↔
      ∀ t' x, t' ++ [x] <+: t → Ok t' x :=
  forall_prefix_iff_of_prefix h₀ (fun t' x _ => hstep t' x) h

/-- The same for a property of the state that a step carries over depending on
the state it is taken in only. -/
theorem forall_prefix_iff_forall_mem {Good : A → Prop} {Ok : Taken E A → Prop} (h₀ : Good a₀)
    (hstep : ∀ t x, Run step a₀ t x.before → step x.event x.before = some x.after →
      Good x.before → (Good x.after ↔ Ok x))
    (h : Run step a₀ t a) :
    (∀ t' a', t' <+: t → Run step a₀ t' a' → Good a') ↔ ∀ x ∈ t, Ok x := by
  have hpre : (∀ t' a', t' <+: t → Run step a₀ t' a' → Good a') ↔
      ∀ t' x, t' ++ [x] <+: t → Ok x :=
    @forall_prefix_iff E A step a₀ a t (fun _ a => Good a) (fun _ x => Ok x) h₀ hstep h
  rw [hpre]
  constructor
  · intro hok x hx
    obtain ⟨t', hpre, -⟩ := h.of_mem hx
    exact hok t' x hpre
  · intro hok t' x hpre
    exact hok x (hpre.subset (by simp))

end Run

end Vuo.Foundation
