import Vuo.Foundation.Program

/-!
# A worker and its jobs

A worker runs one job after the other, in an environment that moves on all the
time. A job runs to its end or is cut off at any point; what is left of the
world then is up to `crash`.
-/

namespace Vuo.Foundation

namespace Setting

variable {Op : Type} {Ans : Op → Type} {W : Type*}

/-- The guarantee that every step leaves `I` true. -/
def keeps (I : W → Prop) : Guarantee Op Ans W :=
  fun _ _ _ w' => I w'

variable (S : Setting Op Ans W) (jobs : ∀ α : Type, Program Op Ans α → Prop)
  (crash : W → W → Prop)

/-- The worlds a worker that started in `w₀` may find itself idle in. -/
inductive Idle (w₀ : W) : W → Prop
  | start : Idle w₀ w₀
  | env {w w' : W} (h : Idle w₀ w) (henv : S.env w w') : Idle w₀ w'
  | job {α : Type} {p : Program Op Ans α} {a : α} {w w' : W} (h : Idle w₀ w)
      (hjob : jobs α p) (hrun : S.Reaches (p, w) (.done a, w')) : Idle w₀ w'
  | crash {α : Type} {p p' : Program Op Ans α} {w w' w'' : W} (h : Idle w₀ w)
      (hjob : jobs α p) (hrun : S.Reaches (p, w) (p', w')) (hcrash : crash w' w'') :
      Idle w₀ w''

/-- The worlds of a worker that started in `w₀`, idle or in the middle of a
job. -/
def Visits (w₀ w : W) : Prop :=
  Idle S jobs crash w₀ w ∨ ∃ (α : Type) (p p' : Program Op Ans α) (w₁ : W),
    Idle S jobs crash w₀ w₁ ∧ jobs α p ∧ S.Reaches (p, w₁) (p', w)

variable {S jobs crash} {I : W → Prop}

/-- A program whose steps keep a stable invariant keeps it in every world of a
run. -/
theorem wp_keeps {α : Type} {p p' : Program Op Ans α} {Q : α → W → Prop} {w w' : W}
    (hI : S.Stable I) (h : S.wp (keeps I) p Q w) (hw : I w)
    (hrun : S.Reaches (p, w) (p', w')) : I w' := by
  generalize hc' : (p', w') = c' at hrun
  induction hrun generalizing p' w' with
  | refl =>
      cases hc'
      exact hw
  | @tail b c hreach hstep ih =>
      obtain ⟨p₁, w₁⟩ := b
      cases hc'
      have hw₁ : I w₁ := ih rfl
      cases hstep with
      | env henv => exact hI _ _ henv hw₁
      | call hact => exact wp_called h hreach hact

variable (hI : S.Stable I) (hcrash : ∀ w w', crash w w' → I w → I w')
  (hjobs : ∀ (α : Type) (p : Program Op Ans α), jobs α p → ∀ w, I w →
    S.wp (keeps I) p (fun _ => I) w)

include hI hcrash hjobs

/-- What every job, the environment and a crash preserve holds whenever the
worker is idle. -/
theorem Idle.invariant {w₀ w : W} (h : S.Idle jobs crash w₀ w) (hw₀ : I w₀) : I w := by
  induction h with
  | start => exact hw₀
  | env _ henv ih => exact hI _ _ henv ih
  | job _ hjob hrun ih => exact wp_keeps hI (hjobs _ _ hjob _ ih) ih hrun
  | crash _ hjob hrun hcut ih =>
      exact hcrash _ _ hcut (wp_keeps hI (hjobs _ _ hjob _ ih) ih hrun)

/-- ... and in the middle of a job as well. -/
theorem Visits.invariant {w₀ w : W} (h : S.Visits jobs crash w₀ w) (hw₀ : I w₀) : I w := by
  rcases h with hidle | ⟨α, p, p', w₁, hidle, hjob, hrun⟩
  · exact hidle.invariant hI hcrash hjobs hw₀
  · have hw₁ := hidle.invariant hI hcrash hjobs hw₀
    exact wp_keeps hI (hjobs _ _ hjob _ hw₁) hw₁ hrun

omit hI hcrash hjobs in
/-- Jobs that restore the invariant, and crashes that leave it true whatever they
cut off, keep it in the idle worlds. -/
theorem Idle.restored {G : Guarantee Op Ans W} (hI : S.Stable I)
    (hcrash : ∀ w w', crash w w' → I w')
    (hjobs : ∀ (α : Type) (p : Program Op Ans α), jobs α p → ∀ w, I w →
      S.wp G p (fun _ => I) w) {w₀ w : W} (h : S.Idle jobs crash w₀ w) (hw₀ : I w₀) : I w := by
  induction h with
  | start => exact hw₀
  | env _ henv ih => exact hI _ _ henv ih
  | job _ hjob hrun ih => exact wp_finished (hjobs _ _ hjob _ ih) hrun
  | crash _ _ _ hcut _ => exact hcrash _ _ hcut

end Setting

end Vuo.Foundation
