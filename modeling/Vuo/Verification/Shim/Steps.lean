import Vuo.Model.Shim.Loop

/-!
# The steps of the worker's loop

What a step can be, and what turning to a command leaves alone.
-/

namespace Vuo.Shim.Loop

/-- There is an account whose database opened and whose client was built. -/
def State.usable (s : State) : Bool :=
  s.vars.db && s.vars.client

/-! ## Turning to a command -/

section Begin

variable (w : Work) (s : State)

theorem signal_begin : (s.begin w).signal = s.signal := by
  unfold State.begin
  split
  · split <;> rfl
  · rfl

theorem queue_begin : (s.begin w).queue = s.queue := by
  unfold State.begin
  split
  · split <;> rfl
  · rfl

theorem pages_begin : (s.begin w).pages = s.pages := by
  unfold State.begin
  split
  · split <;> rfl
  · rfl

theorem phase_begin : (s.begin w).phase = if s.usable then .working w else s.phase := by
  unfold State.begin State.usable
  split
  · split <;> rfl
  · rfl

end Begin

/-- The worker turns to any command that needs an account, a request to flush
apart. -/
theorem serve_work (w : Work) (r : Reading) (s : State) :
    w = .command .flushOutbox ∨ s.serve (.work w) r = s.begin w := by
  cases w with
  | testConnection => exact .inr rfl
  | command c => cases c <;> first | exact .inr rfl | exact .inl rfl

/-! ## One step -/

/-- What a step can be. -/
inductive Step : Event → State → State → Prop
  | requestSync {s : State} (hidle : s.pages = .idle) : Step .requestSync s s.requestSync
  | sendSync {s : State} (hsending : s.pages = .sending) : Step .sendSync s s.sendSync
  | lower {s : State} (hlowering : s.pages = .lowering) : Step .lower s s.lower
  | send {s : State} {m : Message} (hidle : s.pages = .idle) (hsync : m.isSync = false)
      (hstop : m.isShutdown = false) : Step (.send m) s (s.send m)
  | dropWorker {s : State} (hidle : s.pages = .idle) : Step .dropWorker s s.dropWorker
  | joined {s : State} (hjoining : s.pages = .joining) (hgone : s.phase.receives = false) :
      Step .joined s { s with pages := .idle }
  | started {s : State} {ok : Bool} (hphase : s.phase = .starting) :
      Step (.started ok) s (s.started ok)
  | receive {s : State} {r : Reading} {m : Message} {rest : List Message}
      (hphase : s.phase = .waiting) (hqueue : s.queue = m :: rest) :
      Step (.receive r) s ({ s with queue := rest }.serve m r)
  | fallDue {s : State} {r : Reading} (hphase : s.phase = .waiting) :
      Step (.fallDue r) s (s.fallDue r)
  | finish {s : State} {w : Work} {changed : Bool} {now : Instant}
      (hphase : s.phase = .working w) : Step (.finish changed now) s (s.finish w changed now)
  | bump {s : State} (hphase : s.phase = .bumping) :
      Step .bump s { s with signal := s.signal.bump, phase := .waiting }

theorem of_guarded {A : Type} {p : Prop} [Decidable p] {a b : A}
    (h : (if p then some a else none) = some b) : p ∧ a = b := by
  obtain ⟨hp, hab⟩ := Option.ite_none_right_eq_some.1 h
  exact ⟨hp, Option.some.inj hab⟩

theorem step_cases {e : Event} {s s' : State} (h : step e s = some s') : Step e s s' := by
  cases e with
  | requestSync =>
      obtain ⟨hidle, rfl⟩ := of_guarded h
      exact .requestSync hidle
  | sendSync =>
      obtain ⟨hsending, rfl⟩ := of_guarded h
      exact .sendSync hsending
  | lower =>
      obtain ⟨hlowering, rfl⟩ := of_guarded h
      exact .lower hlowering
  | send m =>
      obtain ⟨hguard, rfl⟩ := of_guarded h
      simp only [Bool.and_eq_true, decide_eq_true_eq, Bool.not_eq_true'] at hguard
      exact .send hguard.1.1 hguard.1.2 hguard.2
  | dropWorker =>
      obtain ⟨hidle, rfl⟩ := of_guarded h
      exact .dropWorker hidle
  | joined =>
      obtain ⟨hguard, rfl⟩ := of_guarded h
      simp only [Bool.and_eq_true, decide_eq_true_eq, Bool.not_eq_true'] at hguard
      exact .joined hguard.1 hguard.2
  | started ok =>
      simp only [step] at h
      split at h
      case h_1 hphase =>
        obtain rfl := Option.some.inj h
        exact .started hphase
      case h_2 => cases h
  | receive r =>
      simp only [step] at h
      split at h
      case h_1 m rest hphase hqueue =>
        obtain rfl := Option.some.inj h
        exact .receive hphase hqueue
      case h_2 => cases h
  | fallDue r =>
      simp only [step] at h
      split at h
      case h_1 hphase =>
        obtain ⟨-, rfl⟩ := of_guarded h
        exact .fallDue hphase
      case h_2 => cases h
  | finish changed now =>
      simp only [step] at h
      split at h
      case h_1 w hphase =>
        obtain rfl := Option.some.inj h
        exact .finish hphase
      case h_2 => cases h
  | bump =>
      simp only [step] at h
      split at h
      case h_1 hphase =>
        obtain rfl := Option.some.inj h
        exact .bump hphase
      case h_2 => cases h

end Vuo.Shim.Loop
