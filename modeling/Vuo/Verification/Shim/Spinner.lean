import Vuo.Foundation.Trace
import Vuo.Verification.Shim.Steps

/-!
# The sync indicator

The flag is raised where a refresh is asked for or falls due and lowered where
a pass ends. It tells the truth as long as no pass ends while another refresh is
on its way, and no refresh is taken that nobody can serve.
-/

namespace Vuo.Shim.Loop

open Foundation

namespace State

/-- A pass is being executed. -/
def executing (s : State) : Bool :=
  match s.phase with
  | .working w => w.clearsSpinner
  | _ => false

/-- A refresh is on its way to the worker. -/
def onItsWay (s : State) : Bool :=
  s.pages = .sending || s.queue.any Message.isSync

/-- A refresh is being asked for, waits in the channel or is being executed. -/
def owed (s : State) : Bool :=
  s.onItsWay || s.pages = .lowering || s.executing

end State

/-- The flag is up from when a refresh is asked for until it is over, and down
when there is none. -/
structure Honest (s : State) : Prop where
  raised : s.owed = true → s.signal.running = true
  lowered : s.owed = false → s.signal.running = false

theorem honest_iff {s : State} : Honest s ↔ s.signal.running = s.owed := by
  constructor
  · intro h
    cases howed : s.owed with
    | true => exact h.raised howed
    | false => exact h.lowered howed
  · intro h
    exact ⟨fun howed => h.trans howed, fun howed => h.trans howed⟩

/-- What every step keeps: a worker that is gone has nothing in its channel,
only then is the flag lowered by the pages, and they wait while the stop is on
its way. -/
structure Inv (s : State) : Prop where
  gone : s.phase.receives = false → s.queue = []
  lowering : s.pages = .lowering → s.phase.receives = false
  joining : s.queue.any Message.isShutdown = true → s.pages = .joining

/-- The condition on a step, in the state before it. -/
def Ok (e : Event) (s : State) : Prop :=
  match e with
  | .started false => s.queue.any Message.isSync = true → s.pages = .sending
  | .receive _ =>
      ∀ m rest, s.queue = m :: rest → m.isSync = true → s.usable = false →
        { s with queue := rest }.onItsWay = true
  | .fallDue r =>
      r.allowed s.vars.wifiOnly = true →
        dueWork s.vars.nextSync s.vars.flushDue r.now ≠ some .flush → s.usable = false →
          s.onItsWay = true
  | .finish _ _ => s.executing = true → s.onItsWay = false
  | _ => True

/-! ## What the steps do to the flag and to what is owed -/

theorem executing_of_gone {s : State} (h : s.phase.receives = false) : s.executing = false := by
  unfold State.executing
  cases hphase : s.phase with
  | working w =>
      rw [hphase] at h
      cases h
  | _ => rfl

section Begin

variable {w : Work} {s : State}

theorem onItsWay_begin : (s.begin w).onItsWay = s.onItsWay := by
  rw [State.onItsWay, queue_begin, pages_begin, State.onItsWay]

theorem executing_begin (hphase : s.phase = .waiting) :
    (s.begin w).executing = (s.usable && w.clearsSpinner) := by
  unfold State.executing
  rw [phase_begin]
  cases s.usable with
  | true => rfl
  | false =>
      rw [hphase]
      rfl

/-- What is owed once the worker turned to a command. -/
theorem owed_begin (hphase : s.phase = .waiting) (hpages : s.pages ≠ .lowering) :
    (s.begin w).owed = (s.onItsWay || s.usable && w.clearsSpinner) := by
  rw [State.owed, onItsWay_begin, pages_begin, executing_begin hphase]
  simp [hpages]

end Begin

/-! ## The invariant -/

theorem inv_start : Inv State.start where
  gone := fun h => by cases h
  lowering := fun h => by cases h
  joining := fun h => by cases h

theorem inv_send {s : State} (h : Inv s) {m : Message}
    (hm : m.isShutdown = true → s.pages = .joining) : Inv (s.send m) := by
  unfold State.send
  split
  case isTrue halive =>
    constructor
    case gone => exact fun hgone => by rw [halive] at hgone; cases hgone
    case lowering => exact h.lowering
    case joining =>
      intro hstop
      rw [List.any_append, Bool.or_eq_true] at hstop
      rcases hstop with hstop | hstop
      · exact h.joining hstop
      · exact hm (by simpa using hstop)
  case isFalse => exact h

/-- The pages may be anywhere while no stop is on its way. -/
theorem inv_pages {s : State} (h : Inv s) {signal : SyncSignal} {pages : Pages}
    (hlowering : pages = .lowering → s.phase.receives = false)
    (hstop : s.queue.any Message.isShutdown = false ∨ pages = .joining) :
    Inv { s with signal := signal, pages := pages } where
  gone := h.gone
  lowering := hlowering
  joining := fun hany => by
    rcases hstop with hnone | hjoining
    · exact absurd hany (by simp [hnone])
    · exact hjoining

theorem no_stop {s : State} (h : Inv s) (hpages : s.pages ≠ .joining) :
    s.queue.any Message.isShutdown = false := by
  cases hany : s.queue.any Message.isShutdown with
  | true => exact absurd (h.joining hany) hpages
  | false => rfl

/-- A worker that is there to receive may go on to any phase that does, and
take messages off its channel. -/
theorem inv_advance {s s' : State} (h : Inv s) (hbefore : s.phase.receives = true)
    (hafter : s'.phase.receives = true) (hpages : s'.pages = s.pages)
    (hqueue : s'.queue <:+ s.queue) : Inv s' where
  gone := fun hgone => by rw [hafter] at hgone; cases hgone
  lowering := fun hlowering => by
    have hgone := h.lowering (hpages ▸ hlowering)
    rw [hbefore] at hgone
    cases hgone
  joining := fun hany => by
    rw [hpages]
    obtain ⟨m, hm, hstop⟩ := List.any_eq_true.1 hany
    exact h.joining (List.any_eq_true.2 ⟨m, hqueue.subset hm, hstop⟩)

theorem receives_begin {w : Work} {s : State} (h : s.phase.receives = true) :
    (s.begin w).phase.receives = true := by
  rw [phase_begin]
  split
  · rfl
  · exact h

theorem inv_serve {s : State} {m : Message} {rest : List Message} {r : Reading} (h : Inv s)
    (hphase : s.phase = .waiting) (hqueue : s.queue = m :: rest) :
    Inv ({ s with queue := rest }.serve m r) := by
  have halive : s.phase.receives = true := by rw [hphase]; rfl
  have hrest : rest <:+ s.queue := hqueue ▸ List.suffix_cons m rest
  cases m with
  | work w =>
      rcases serve_work w r { s with queue := rest } with rfl | hbegin
      · exact inv_advance h halive halive rfl hrest
      · rw [hbegin]
        refine inv_advance h halive (receives_begin halive) (pages_begin w _) ?_
        rw [queue_begin]
        exact hrest
  | shutdown =>
      have hjoining : s.pages = .joining := h.joining (by rw [hqueue]; rfl)
      constructor
      case gone => exact fun _ => rfl
      case lowering =>
        intro hlowering
        exact absurd (hjoining.symm.trans hlowering) (by decide)
      case joining => exact fun hany => by cases hany
  | configure => exact inv_advance h halive halive rfl hrest
  | setSyncInterval minutes => exact inv_advance h halive halive rfl hrest
  | setRetention seconds => exact inv_advance h halive halive rfl hrest
  | setWifiOnly enabled => exact inv_advance h halive halive rfl hrest

theorem inv_fallDue {s : State} {r : Reading} (h : Inv s) (hphase : s.phase = .waiting) :
    Inv (s.fallDue r) := by
  have halive : s.phase.receives = true := by rw [hphase]; rfl
  have hbegin : ∀ (w : Work) (v : Vars) (g : SyncSignal),
      Inv ({ s with vars := v, signal := g }.begin w) := by
    intro w v g
    refine inv_advance h halive (receives_begin halive) (pages_begin w _) ?_
    rw [queue_begin]
  simp only [State.fallDue]
  split
  case isTrue =>
    split
    · exact hbegin (.command .flushOutbox) _ s.signal
    · exact hbegin (.command .sync) s.vars _
  case isFalse => exact inv_advance h halive halive rfl List.suffix_rfl

theorem inv_step {e : Event} {s s' : State} (h : Inv s) (hstep : step e s = some s') :
    Inv s' := by
  cases step_cases hstep with
  | requestSync hidle =>
      exact inv_pages h (fun hl => by cases hl) (.inl (no_stop h (by rw [hidle]; decide)))
  | sendSync hsending =>
      have hnone := no_stop h (by rw [hsending]; decide)
      unfold State.sendSync
      split
      case isTrue halive =>
        have hsent : Inv (s.send (.work (.command .sync))) := inv_send h (fun hm => by cases hm)
        refine inv_pages hsent (fun hl => by cases hl) (.inl ?_)
        simp [State.send, halive, hnone, Message.isShutdown]
      case isFalse hgone =>
        exact inv_pages h (fun _ => by simpa using hgone) (.inl hnone)
  | lower hlowering =>
      exact inv_pages h (fun hl => by cases hl)
        (.inl (no_stop h (by rw [hlowering]; decide)))
  | send hidle hsync hstop =>
      exact inv_send h (fun hm => by rw [hstop] at hm; cases hm)
  | dropWorker hidle =>
      have hjoining : Inv { s with pages := .joining } :=
        inv_pages h (fun hl => by cases hl) (.inr rfl)
      have hsent := inv_send hjoining (m := .shutdown) (fun _ => rfl)
      unfold State.send at hsent
      unfold State.dropWorker State.send
      split at hsent <;> split <;> first | exact hsent | contradiction
  | joined hjoining hgone =>
      exact inv_pages h (fun hl => by cases hl) (.inl (by rw [h.gone hgone]; rfl))
  | @started _ ok hphase =>
      have halive : s.phase.receives = true := by rw [hphase]; rfl
      cases ok with
      | true => exact inv_advance h halive rfl rfl List.suffix_rfl
      | false =>
          constructor
          case gone => exact fun _ => rfl
          case lowering => exact fun _ => rfl
          case joining => exact fun hany => by cases hany
  | receive hphase hqueue => exact inv_serve h hphase hqueue
  | fallDue hphase => exact inv_fallDue h hphase
  | @finish _ w changed now hphase =>
      have halive : s.phase.receives = true := by rw [hphase]; rfl
      refine inv_advance h halive ?_ rfl List.suffix_rfl
      cases changed <;> rfl
  | bump hphase =>
      have halive : s.phase.receives = true := by rw [hphase]; rfl
      exact inv_advance h halive rfl rfl List.suffix_rfl

/-! ## The flag over one step -/

/-- A step that keeps what is owed has to keep the flag. -/
theorem honest_of_kept {s s' : State} (h : Honest s)
    (hrunning : s'.signal.running = s.signal.running) (howed : s'.owed = s.owed) :
    Honest s' := by
  rw [honest_iff, hrunning, howed]
  exact honest_iff.1 h

theorem not_lowering {s : State} (h : Inv s) (halive : s.phase.receives = true) :
    s.pages ≠ .lowering := by
  intro hlowering
  rw [h.lowering hlowering] at halive
  cases halive

theorem owed_waiting {s : State} (hphase : s.phase = .waiting) (hpages : s.pages ≠ .lowering) :
    s.owed = s.onItsWay := by
  simp [State.owed, State.executing, hphase, hpages]

theorem onItsWay_cons {s : State} {m : Message} {rest : List Message}
    (hqueue : s.queue = m :: rest) :
    s.onItsWay = (m.isSync || { s with queue := rest }.onItsWay) := by
  simp only [State.onItsWay, hqueue, List.any_cons]
  cases m.isSync <;> simp

theorem owed_send {s : State} {m : Message} (hsync : m.isSync = false) :
    (s.send m).owed = s.owed := by
  unfold State.send
  split
  case isTrue => simp [State.owed, State.onItsWay, State.executing, hsync]
  case isFalse => rfl

/-- A command is taken: a refresh that is dropped has to leave another behind
it. -/
theorem honest_receive {s : State} {m : Message} {rest : List Message} {r : Reading}
    (hinv : Inv s) (h : Honest s) (hphase : s.phase = .waiting) (hqueue : s.queue = m :: rest) :
    Honest ({ s with queue := rest }.serve m r) ↔
      (m.isSync = true → s.usable = false → { s with queue := rest }.onItsWay = true) := by
  have hpages := not_lowering hinv (by rw [hphase]; rfl)
  have hrunning : s.signal.running = (m.isSync || { s with queue := rest }.onItsWay) := by
    rw [honest_iff.1 h, owed_waiting hphase hpages, onItsWay_cons hqueue]
  -- All but a refresh leave the flag and the rest of the channel alone.
  have hkept : ∀ s' : State, m.isSync = false → s'.signal.running = s.signal.running →
      s'.owed = { s with queue := rest }.onItsWay →
        (Honest s' ↔
          (m.isSync = true → s.usable = false → { s with queue := rest }.onItsWay = true)) := by
    intro s' hsync hsignal howed
    rw [honest_iff, hsignal, howed, hrunning]
    simp [hsync]
  have howed : ∀ v : Vars, { s with queue := rest, vars := v }.owed =
      { s with queue := rest }.onItsWay := fun v => owed_waiting hphase hpages
  have hbegun : ∀ w : Work, ({ s with queue := rest }.begin w).owed =
      ({ s with queue := rest }.onItsWay || s.usable && w.clearsSpinner) :=
    fun w => owed_begin hphase hpages
  cases m with
  | work w =>
      rcases serve_work w r { s with queue := rest } with rfl | hbegin
      · exact hkept _ rfl rfl (howed _)
      · rw [hbegin, honest_iff, signal_begin, hbegun, hrunning]
        change (w.clearsSpinner || _) = (_ || s.usable && w.clearsSpinner) ↔
          (w.clearsSpinner = true → _)
        cases w.clearsSpinner <;> cases s.usable <;>
          cases { s with queue := rest }.onItsWay <;> simp
  | shutdown =>
      have hjoining : s.pages = .joining := hinv.joining (by rw [hqueue]; rfl)
      refine iff_of_true (honest_iff.2 ?_) (fun hsync => by cases hsync)
      change false = (s.pages = .sending || false || s.pages = .lowering || false)
      simp [hjoining]
  | configure => exact hkept _ rfl rfl (howed _)
  | setSyncInterval minutes => exact hkept _ rfl rfl (howed _)
  | setRetention seconds => exact hkept _ rfl rfl (howed _)
  | setWifiOnly enabled => exact hkept _ rfl rfl (howed _)

/-- The wait ended: a refresh is raised and may be dropped at once. -/
theorem honest_fallDue {s : State} {r : Reading} (hinv : Inv s) (h : Honest s)
    (hphase : s.phase = .waiting) : Honest (s.fallDue r) ↔ Ok (.fallDue r) s := by
  have hpages := not_lowering hinv (by rw [hphase]; rfl)
  have hrunning : s.signal.running = s.onItsWay := by
    rw [honest_iff.1 h, owed_waiting hphase hpages]
  have howed : ∀ (w : Work) (v : Vars) (g : SyncSignal),
      ({ s with signal := g, vars := v }.begin w).owed =
        (s.onItsWay || (v.db && v.client) && w.clearsSpinner) :=
    fun w v g => owed_begin hphase hpages
  simp only [State.fallDue, Ok]
  split
  case isTrue hallowed =>
    split
    · next hflush =>
      refine iff_of_true (honest_iff.2 ?_) (fun _ hne => absurd hflush hne)
      rw [signal_begin, howed (.command .flushOutbox) _ s.signal, hrunning]
      change s.onItsWay = (s.onItsWay || _ && false)
      simp
    · next hne =>
      have hsync : dueWork s.vars.nextSync s.vars.flushDue r.now ≠ some .flush := hne
      rw [honest_iff, signal_begin, howed (.command .sync) s.vars]
      change true = (s.onItsWay || s.usable && true) ↔ _
      cases s.onItsWay <;> cases s.usable <;> simp [hallowed, hsync]
  case isFalse hallowed =>
    refine iff_of_true (honest_iff.2 ?_) (fun hallow => absurd hallow hallowed)
    exact hrunning.trans (owed_waiting hphase hpages).symm

/-- A command ends: its refresh must have been the last. -/
theorem honest_finish {s : State} {w : Work} {changed : Bool} {now : Instant} (hinv : Inv s)
    (h : Honest s) (hphase : s.phase = .working w) :
    Honest (s.finish w changed now) ↔ (s.executing = true → s.onItsWay = false) := by
  have hpages := not_lowering hinv (by rw [hphase]; rfl)
  have hexecuting : s.executing = w.clearsSpinner := by simp [State.executing, hphase]
  have hrunning : s.signal.running = (s.onItsWay || w.clearsSpinner) := by
    rw [honest_iff.1 h, State.owed, hexecuting]
    simp [hpages]
  have howed : (s.finish w changed now).owed = s.onItsWay := by
    cases changed <;> simp [State.finish, State.owed, State.onItsWay, State.executing, hpages]
  rw [honest_iff, howed, hexecuting]
  simp only [State.finish]
  cases hclears : w.clearsSpinner with
  | true => cases s.onItsWay <;> simp [SyncSignal.setRunning]
  | false => simpa [hclears] using hrunning

/-- What one step does to a flag that told the truth. -/
theorem honest_step {e : Event} {s s' : State} (hinv : Inv s) (h : Honest s)
    (hstep : step e s = some s') : Honest s' ↔ Ok e s := by
  cases step_cases hstep with
  | requestSync hidle =>
      refine iff_of_true (honest_iff.2 ?_) trivial
      simp [State.requestSync, State.owed, State.onItsWay, SyncSignal.setRunning]
  | sendSync hsending =>
      have hup : s.signal.running = true :=
        h.raised (by simp [State.owed, State.onItsWay, hsending])
      refine iff_of_true (honest_iff.2 ?_) trivial
      unfold State.sendSync
      split
      case isTrue halive =>
        simp [State.send, halive, State.owed, State.onItsWay, hup, Message.isSync,
          Work.clearsSpinner, clearsSpinner]
      case isFalse => simp [State.owed, hup]
  | lower hlowering =>
      have hgone := hinv.lowering hlowering
      refine iff_of_true (honest_iff.2 ?_) trivial
      change false = (false || s.queue.any Message.isSync || false || s.executing)
      rw [hinv.gone hgone, executing_of_gone hgone]
      rfl
  | @send _ m hidle hsync hstop =>
      refine iff_of_true (honest_of_kept h ?_ (owed_send hsync)) trivial
      unfold State.send
      split <;> rfl
  | dropWorker hidle =>
      refine iff_of_true (honest_of_kept h ?_ ?_) trivial
      · unfold State.dropWorker State.send
        split <;> rfl
      · unfold State.dropWorker State.send
        split <;> simp [State.owed, State.onItsWay, State.executing, hidle, Message.isSync]
  | joined hjoining hgone =>
      refine iff_of_true (honest_of_kept h rfl ?_) trivial
      simp [State.owed, State.onItsWay, State.executing, hjoining]
  | @started _ ok hphase =>
      have hpages := not_lowering hinv (by rw [hphase]; rfl)
      have hexecuting : s.executing = false := by simp [State.executing, hphase]
      cases ok with
      | true =>
          refine iff_of_true (honest_of_kept h rfl ?_) trivial
          simp [State.started, State.owed, State.onItsWay, State.executing, hphase]
      | false =>
          have hrunning := honest_iff.1 h
          rw [honest_iff]
          simp only [State.started, Bool.false_eq_true, if_false, hrunning, Ok, State.owed,
            hexecuting, State.onItsWay]
          by_cases hsending : s.pages = .sending <;>
            simp [hsending, hpages, State.executing]
  | @receive _ r m rest hphase hqueue =>
      refine (honest_receive hinv h hphase hqueue).trans ⟨fun hok m' rest' hq => ?_, fun hok => ?_⟩
      · obtain ⟨rfl, rfl⟩ := List.cons.inj (hqueue.symm.trans hq)
        exact hok
      · exact hok m rest hqueue
  | fallDue hphase => exact honest_fallDue hinv h hphase
  | finish hphase => exact honest_finish hinv h hphase
  | bump hphase =>
      refine iff_of_true (honest_of_kept h rfl ?_) trivial
      simp [State.owed, State.onItsWay, State.executing, hphase]

/-! ## Runs -/

theorem inv_run {t : List (Taken Event State)} {s : State} (h : Run step State.start t s) :
    Inv s :=
  h.invariant inv_start fun _ _ _ => inv_step

/-- In a run of the pages and the worker the flag tells the truth, at every
moment, exactly if no pass ends while another refresh is on its way, and none is
dropped without one. -/
theorem spinner_honest_iff {t : List (Taken Event State)} {s : State}
    (h : Run step State.start t s) :
    (∀ t' s', t' <+: t → Run step State.start t' s' → Honest s') ↔
      ∀ t' x, t' ++ [x] <+: t → Ok x.event x.before := by
  refine Run.forall_prefix_iff ?_ ?_ h
  · exact honest_iff.2 rfl
  · intro t x hrun hstep hgood
    exact honest_step (inv_run hrun) hgood hstep

/-- An account that opens, and whose client is built. -/
def ready : Reading where
  now := 0
  clock := 0
  lastSync := none
  opened := true
  built := true
  pending := some 0
  allowed := fun _ => true

/-- A single refresh, from the pull to the reload. -/
theorem spinner_honest_iff_served :
    ∃ (t : List (Taken Event State)) (s : State), Run step State.start t s ∧ Honest s ∧
      s.signal.generation = 1 := by
  have hrun : Run step State.start _ _ :=
    .step (e := .bump) (.step (e := .finish true 0) (.step (e := .receive ready)
      (.step (e := .sendSync) (.step (e := .requestSync) (.step (e := .receive ready)
        (.step (e := .send .configure) (.step (e := .started true) .start
          rfl) rfl) rfl) rfl) rfl) rfl) rfl) rfl
  refine ⟨_, _, hrun, (spinner_honest_iff hrun).2 ?_ _ _ (List.prefix_refl _) hrun, rfl⟩
  intro t' x hprefix
  have hx : x ∈ _ := hprefix.subset (List.mem_append_right t' (List.mem_singleton_self x))
  simp only [List.mem_append, List.mem_singleton, List.not_mem_nil, false_or] at hx
  rcases hx with ((((((rfl | rfl) | rfl) | rfl) | rfl) | rfl) | rfl) | rfl
  · trivial
  · trivial
  · intro m rest hqueue hsync _
    obtain ⟨rfl, rfl⟩ := List.cons.inj hqueue
    cases hsync
  · trivial
  · trivial
  · intro m rest _ _ husable
    cases husable
  · exact fun _ => rfl
  · trivial

/-- Not so for two refreshes in a row, the second of which is not shown, nor for
an account no client can be built for, whose refresh is shown for good. -/
theorem spinner_lies :
    (∃ (t : List (Taken Event State)) (s : State), Run step State.start t s ∧
      s.owed = true ∧ s.signal.running = false) ∧
    ∃ (t : List (Taken Event State)) (s : State), Run step State.start t s ∧
      s.owed = false ∧ s.signal.running = true := by
  constructor
  · have hrun : Run step State.start _ _ :=
      .step (e := .finish true 0) (.step (e := .receive ready) (.step (e := .sendSync)
        (.step (e := .requestSync) (.step (e := .sendSync) (.step (e := .requestSync)
          (.step (e := .receive ready) (.step (e := .send .configure)
            (.step (e := .started true) .start rfl) rfl) rfl) rfl) rfl) rfl) rfl) rfl) rfl
    exact ⟨_, _, hrun, rfl, rfl⟩
  · have hrun : Run step State.start _ _ :=
      .step (e := .receive ready) (.step (e := .sendSync) (.step (e := .requestSync)
        (.step (e := .receive { ready with built := false }) (.step (e := .send .configure)
          (.step (e := .started true) .start rfl) rfl) rfl) rfl) rfl) rfl
    exact ⟨_, _, hrun, rfl, rfl⟩

end Vuo.Shim.Loop
