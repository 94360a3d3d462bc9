import Vuo.Verification.Shim.Notices

/-!
# Polls see what changed

A model that polls compares the generation with the one it saw last. A bump
makes the two differ for every model; only a model that moves its own mark
forward, to step over a bump of its own, may step over somebody else's.
-/

namespace Vuo.Shim

open Foundation

/-! ## What a step does for a model -/

/-- The threads. -/
inductive Thread
  | worker
  | pages
  deriving DecidableEq

namespace Step

def thread (x : Step) : Thread :=
  match x.event with
  | .worker _ => .worker
  | _ => .pages

/-- The step tells of a change. -/
def Announces (x : Step) : Prop :=
  x.before.signal.generation < x.after.signal.generation

/-- The model reads the mirror again. -/
def Reads (x : Step) (v : Viewer) : Prop :=
  match x.event with
  | .resume => x.before.qt = .moved v ∨
      ∃ i sync, x.before.qt = .startOver i sync ∧ v = .entries i
  | .start (.refresh u) => v = u
  | .start (.setScope i _) => v = .entries i
  | .start (.setSearch i text) =>
      v = .entries i ∧ text ≠ (x.before.entryModels i).search ∧
        (x.before.entryModels i).scope = some .search
  | .start (.loadMore i) => v = .entries i ∧ (x.before.entryModels i).hasMore = true
  | .start (.markFeedRead i row _) =>
      v = .feeds i ∧ (x.before.feedModels i).idAt row ≠ none
  | _ => False

/-- The model makes the change itself and patches its rows in place. -/
def Patches (x : Step) (v : Viewer) : Prop :=
  match x.event with
  | .start (.setRead i _ _ _) => v = .entries i
  | .start (.setReadMany i _ _ _) => v = .entries i
  | .start (.setStarred i _ _ _) => v = .entries i
  | _ => False

/-- The step changes the mirror behind the model's back. -/
def Changes (x : Step) (v : Viewer) : Prop :=
  x.before.db ≠ x.after.db ∧ ¬x.Patches v

end Step

/-- The mirror was changed and the change announced, by the thread that made
it, since the model last read the mirror. -/
def Unseen (t : Trace) (v : Viewer) : Prop :=
  ∃ t₁ w t₂ b t₃, t = t₁ ++ w :: (t₂ ++ b :: t₃) ∧ Step.Changes w v ∧
    Step.Announces b ∧ Step.thread b = Step.thread w ∧
    ∀ y ∈ w :: (t₂ ++ b :: t₃), ¬Step.Reads y v

/-- A step that is no reading of the model's keeps what it has not seen. -/
theorem Unseen.append {t : Trace} {x : Step} {v : Viewer} (h : Unseen t v)
    (hreads : ¬x.Reads v) : Unseen (t ++ [x]) v := by
  obtain ⟨t₁, w, t₂, b, t₃, rfl, hchanges, hannounces, hthread, hnone⟩ := h
  refine ⟨t₁, w, t₂, b, t₃ ++ [x], by simp, hchanges, hannounces, hthread, ?_⟩
  intro y hy
  have hy : y ∈ w :: (t₂ ++ b :: t₃) ∨ y = x := by
    simpa [or_assoc] using hy
  rcases hy with hy | rfl
  · exact hnone y hy
  · exact hreads

/-- What is unseen after a step was so before, or the step announces it. -/
theorem Unseen.of_append {t : Trace} {x : Step} {v : Viewer}
    (h : Unseen (t ++ [x]) v) : ¬x.Reads v ∧ (Unseen t v ∨ x.Announces) := by
  obtain ⟨t₁, w, t₂, b, t₃, ht, hchanges, hannounces, hthread, hnone⟩ := h
  rcases List.eq_nil_or_concat t₃ with rfl | ⟨t₃, y, rfl⟩
  · have ht' : t ++ [x] = (t₁ ++ w :: t₂) ++ [b] := by rw [ht]; simp
    obtain ⟨-, hx⟩ := List.append_inj' ht' rfl
    cases hx
    exact ⟨hnone x (by simp), .inr hannounces⟩
  · have ht' : t ++ [x] = (t₁ ++ w :: (t₂ ++ b :: t₃)) ++ [y] := by rw [ht]; simp
    obtain ⟨rfl, hx⟩ := List.append_inj' ht' rfl
    cases hx
    refine ⟨hnone x (by simp), .inl ⟨t₁, w, t₂, b, t₃, rfl, hchanges, hannounces, hthread, ?_⟩⟩
    intro y hy
    refine hnone y ?_
    simp only [List.mem_cons, List.mem_append, List.concat_eq_append] at hy ⊢
    tauto

/-! ## What a step does to the marks -/

namespace App

/-- The marks of the models are as they were. -/
def SameMarks (a a' : App) : Prop :=
  ∀ v, a'.seenGeneration v = a.seenGeneration v

theorem sameMarks_setEntryModel {a : App} {i : ℕ} {m : EntryModel}
    (h : m.seenGeneration = (a.entryModels i).seenGeneration) :
    SameMarks a (a.setEntryModel i m) := by
  rintro (j | j)
  · by_cases hj : j = i
    · subst hj
      simpa [seenGeneration, setEntryModel] using h
    · simp [seenGeneration, setEntryModel, hj]
  · rfl

theorem sameMarks_setFeedModel {a : App} {i : ℕ} {m : FeedModel}
    (h : m.seenGeneration = (a.feedModels i).seenGeneration) :
    SameMarks a (a.setFeedModel i m) := by
  rintro (j | j)
  · rfl
  · by_cases hj : j = i
    · subst hj
      simpa [seenGeneration, setFeedModel] using h
    · simp [seenGeneration, setFeedModel, hj]

theorem seenGeneration_see (u v : Viewer) (a : App) :
    (a.see v).seenGeneration u = if u = v then a.signal.generation else a.seenGeneration u := by
  rcases v with i | i <;> rcases u with j | j
  · by_cases hj : j = i <;> simp [see, seenGeneration, setEntryModel, hj]
  · rfl
  · rfl
  · by_cases hj : j = i <;> simp [see, seenGeneration, setFeedModel, hj]

section Handlers

variable [UrlLibrary] [Finder]

theorem seenGeneration_reloadKeeping (keep : Bool) (signal : SyncSignal) (db : Db)
    (m : EntryModel) : (m.reloadKeeping keep signal db).seenGeneration = m.seenGeneration := by
  simp only [EntryModel.reloadKeeping]
  split
  · rfl
  · split <;> rfl

omit [UrlLibrary] [Finder] in
/-- Patching rows moves no mark. -/
theorem seenGeneration_foldl {patch : EntryModel → ℤ → EntryModel} (ids : List ℤ)
    (hpatch : ∀ m id, (patch m id).seenGeneration = m.seenGeneration) (m : EntryModel) :
    (ids.foldl patch m).seenGeneration = m.seenGeneration := by
  induction ids generalizing m with
  | nil => rfl
  | cons id ids ih => rw [List.foldl_cons, ih, hpatch]

omit [UrlLibrary] [Finder] in
theorem sameMarks_applyLocal (i : ℕ) (ids : List ℤ) (value : DesiredValue) (now : ℤ) (a : App) :
    SameMarks a (applyLocal i ids value now a) := by
  have hmarks : ∀ patch : EntryModel → ℤ → EntryModel,
      (∀ m id, (patch m id).seenGeneration = m.seenGeneration) →
      SameMarks a (a.setEntryModel i (ids.foldl patch (a.entryModels i))) :=
    fun _ hpatch => sameMarks_setEntryModel (seenGeneration_foldl ids hpatch _)
  cases value with
  | status s => exact hmarks (fun m id => m.markRow id (some (s ≠ .read)) none) fun _ _ => rfl
  | starred b => exact hmarks (fun m id => m.markRow id none (some b)) fun _ _ => rfl

/-- A handler that starts neither bumps nor moves a mark. -/
structure Steady (a a' : App) : Prop where
  generation : a'.signal.generation = a.signal.generation
  marks : SameMarks a a'
  moved : ∀ v, a'.qt ≠ .moved v

omit [UrlLibrary] [Finder] in
theorem Steady.refl {a : App} (h : ∀ v, a.qt ≠ .moved v) : Steady a a :=
  ⟨rfl, fun _ => rfl, h⟩

omit [UrlLibrary] [Finder] in
/-- A poll only passes on a notice before it looks at the generation. -/
theorem steady_poll (page : Page) (a : App) : Steady a (poll page a) := by
  have hdraw : SameMarks a (drawSpinner page a) := by
    rcases page with (i | i) | k
    · exact sameMarks_setEntryModel rfl
    · exact fun _ => rfl
    · exact fun _ => rfl
  have hsignal : (drawSpinner page a).signal = a.signal := by
    rcases page with (i | i) | k <;> rfl
  simp only [poll, SyncSignal.takeNotice, hsignal]
  cases a.signal.notice <;> rcases page with v | k <;>
    exact ⟨rfl, hdraw, fun _ h => by cases h⟩

omit [UrlLibrary] [Finder] in
theorem sameMarks_receive (page : Page) (notice : Notice) (a : App) :
    SameMarks a (receive page notice a).1 := by
  rcases page with (i | i) | k
  · exact sameMarks_setEntryModel (by cases notice <;> rfl)
  · exact sameMarks_setFeedModel (by cases notice <;> rfl)
  · exact fun _ => rfl

omit [UrlLibrary] [Finder] in
theorem steady_settle (page : Page) (notice : Notice) (a : App) :
    Steady a (settle page notice a) := by
  have hmarks := sameMarks_receive page notice a
  have hsignal : (receive page notice a).1.signal.generation = a.signal.generation := by
    rcases page with (i | i) | k <;> rfl
  have hafter : ∀ b : App, b.signal.generation = a.signal.generation → SameMarks a b →
      Steady a (afterNotices page b) := by
    rcases page with v | k <;> exact fun b hg hm => ⟨hg, hm, fun _ h => by cases h⟩
  simp only [settle]
  split
  · exact hafter _ hsignal hmarks
  · exact hafter _ hsignal hmarks

theorem steady_handle {h : Handler} {a : App} (hidle : a.qt = .idle) :
    Steady a (handle h a) := by
  have hmoved : ∀ v, a.qt ≠ .moved v := by
    rw [hidle]
    exact fun _ h => by cases h
  have hsame : ∀ {a' : App}, a'.signal.generation = a.signal.generation → SameMarks a a' →
      a'.qt = a.qt → Steady a a' :=
    fun hg hm hq => ⟨hg, hm, hq ▸ hmoved⟩
  cases h with
  | poll page => exact steady_poll page a
  | pollArticle k =>
      simp only [handle, pollArticle]
      split
      · exact .refl hmoved
      · have hsignal : (a.signal.takeFetchOutcome (a.articles k).entryId).2.generation =
            a.signal.generation := by
          simp only [SyncSignal.takeFetchOutcome]
          split <;> rfl
        split
        · exact .refl hmoved
        · next heq =>
            rw [heq] at hsignal
            exact hsame hsignal (fun _ => rfl) rfl
  | refresh v =>
      cases v with
      | entries i =>
          exact hsame rfl (sameMarks_setEntryModel (seenGeneration_reloadKeeping _ _ _ _)) rfl
      | feeds i => exact hsame rfl (sameMarks_setFeedModel rfl) rfl
  | setScope i scope =>
      exact hsame rfl (sameMarks_setEntryModel (seenGeneration_reloadKeeping _ _ _ _)) rfl
  | setSearch i text =>
      simp only [handle]
      split
      · exact .refl hmoved
      · split
        · exact hsame rfl (sameMarks_setEntryModel (seenGeneration_reloadKeeping _ _ _ _)) rfl
        · exact hsame rfl (sameMarks_setEntryModel rfl) rfl
  | loadMore i =>
      simp only [handle]
      split
      · exact hsame rfl (sameMarks_setEntryModel (seenGeneration_reloadKeeping _ _ _ _)) rfl
      · exact .refl hmoved
  | setRead i row read now =>
      simp only [handle, setRead]
      split
      · exact .refl hmoved
      · exact ⟨rfl, sameMarks_applyLocal _ _ _ _ _, fun _ h => by cases h⟩
  | setReadMany i ids read now =>
      simp only [handle, setReadMany]
      split
      · exact .refl hmoved
      · exact ⟨rfl, sameMarks_applyLocal _ _ _ _ _, fun _ h => by cases h⟩
  | setStarred i row starred now =>
      simp only [handle, setStarred]
      split
      · exact .refl hmoved
      · exact ⟨rfl, sameMarks_applyLocal _ _ _ _ _, fun _ h => by cases h⟩
  | markAllReadIn i scope now =>
      simp only [handle, markAllReadIn]
      split
      · exact .refl hmoved
      · exact ⟨rfl, fun _ => rfl, fun _ h => by cases h⟩
  | requestSync i sent =>
      have hmarks := sameMarks_setEntryModel (a := a) (i := i)
        (m := { a.entryModels i with syncError := "", syncErrorIsAuth := false }) rfl
      exact ⟨rfl, hmarks, fun _ h => by cases h⟩
  | markFeedRead i row now =>
      simp only [handle, markFeedRead]
      split
      · exact .refl hmoved
      · next id _ =>
          have hmarks := sameMarks_setFeedModel (a := a) (i := i)
            (m := (a.feedModels i).reload (Outbox.queueMarkFeedRead id now a.db).2) rfl
          exact hsame rfl hmarks rfl
  | openArticle k entryId => exact hsame rfl (fun _ => rfl) rfl
  | fetchOriginal k => exact hsame rfl (fun _ => rfl) rfl
  | applyArticle k value now =>
      simp only [handle, applyArticle]
      split
      · exact .refl hmoved
      · exact ⟨rfl, fun _ => rfl, fun _ h => by cases h⟩

end Handlers

end App

/-- What a step does to the generation and to the marks: it bumps, or a poll
finds the mirror moved, or a model steps over its own bump, or neither the
generation nor a mark is touched. -/
inductive Effect (x : Step) : Prop
  | bump (hgeneration : x.after.signal.generation = x.before.signal.generation + 1)
      (hmarks : App.SameMarks x.before x.after)
      (hstored : ∀ i sync, x.event = .resume → x.before.qt ≠ .bumped i sync)
  | looked (v : Viewer) (hevent : x.event = .resume) (hbefore : x.before.qt = .drained v)
      (hafter : x.after.qt = .moved v)
      (hgeneration : x.after.signal.generation = x.before.signal.generation)
      (hmarks : ∀ u, x.after.seenGeneration u =
        if u = v then x.before.signal.generation else x.before.seenGeneration u)
  | stored (i : ℕ) (sync : Option Bool) (hevent : x.event = .resume)
      (hbefore : x.before.qt = .bumped i sync) (hafter : x.after.qt = .idle)
      (hgeneration : x.after.signal.generation = x.before.signal.generation)
      (hmarks : ∀ u, x.after.seenGeneration u =
        if u = .entries i then x.before.signal.generation else x.before.seenGeneration u)
  | steady (hgeneration : x.after.signal.generation = x.before.signal.generation)
      (hmarks : App.SameMarks x.before x.after)
      (hmoved : ∀ v, x.before.qt = .moved v → x.after.qt = .moved v ∨ x.Reads v)
      (hstored : ∀ i sync, x.event = .resume → x.before.qt ≠ .bumped i sync)

section Steps

variable [UrlLibrary] [Finder]

omit [UrlLibrary] [Finder] in
theorem seenGeneration_finishRequest (i : ℕ) (sync : Option Bool) (a : App) (u : Viewer) :
    (App.finishRequest i sync (a.setEntryModel i
        ((a.entryModels i).sawGeneration a.signal))).seenGeneration u =
      if u = .entries i then a.signal.generation else a.seenGeneration u := by
  have hsaw := App.seenGeneration_see u (.entries i) a
  cases sync with
  | none => exact hsaw
  | some sent =>
      have hmarks := App.sameMarks_setEntryModel
        (a := { a.see (.entries i) with signal := a.signal.setRunning sent }) (i := i)
        (m := { (a.see (.entries i)).entryModels i with seenRunning := sent }) rfl
      exact (hmarks u).trans hsaw

theorem effect_resume {a : App} (hidle : a.qt ≠ .idle) : Effect ⟨a, .resume, a.resume⟩ := by
  rcases hq : a.qt with _ | ⟨page, notice⟩ | v | v | ⟨i, sync⟩ | ⟨i, sync⟩ | ⟨i, sync⟩ | _
  case idle => exact (hidle hq).elim
  case bumped =>
    refine .stored i sync rfl hq ?_ ?_ ?_
    · simp only [App.resume, hq]
      cases sync <;> rfl
    · simp only [App.resume, hq]
      cases sync <;> rfl
    · intro u
      simp only [App.resume, hq]
      exact seenGeneration_finishRequest i sync a u
  all_goals
    have hstored : ∀ i sync, App.Event.resume = .resume → a.qt ≠ .bumped i sync := by
      rw [hq]
      exact fun _ _ _ h => by cases h
  case took =>
    have hresume : a.resume = a.settle page notice := by simp only [App.resume, hq]
    have hsteady := App.steady_settle page notice a
    rw [hresume]
    refine .steady hsteady.generation hsteady.marks ?_ hstored
    rw [hq]
    exact fun _ h => by cases h
  case drained =>
    by_cases hsame : a.signal.generation = a.seenGeneration v
    · have hresume : a.resume = { a with qt := .idle } := by
        simp only [App.resume, hq, App.look, hsame, if_true]
      rw [hresume]
      refine .steady rfl (fun _ => rfl) ?_ hstored
      rw [hq]
      exact fun _ h => by cases h
    · have hresume : a.resume = { a.see v with qt := .moved v } := by
        simp only [App.resume, hq, App.look, hsame, if_false]
      rw [hresume]
      refine .looked v rfl hq rfl ?_ (fun u => App.seenGeneration_see u v a)
      cases v <;> rfl
  case moved =>
    have hresume : a.resume = { a.reread v with qt := .idle } := by
      simp only [App.resume, hq]
    have hsteady : (a.reread v).signal = a.signal ∧ App.SameMarks a (a.reread v) := by
      cases v with
      | entries i =>
          exact ⟨rfl, App.sameMarks_setEntryModel (App.seenGeneration_reloadKeeping _ _ _ _)⟩
      | feeds i => exact ⟨rfl, App.sameMarks_setFeedModel rfl⟩
    rw [hresume]
    refine .steady (congrArg _ hsteady.1) hsteady.2 ?_ hstored
    intro u hu
    rw [hq] at hu
    cases hu
    exact .inr (.inl hq)
  case startOver =>
    have hmarks := App.sameMarks_setEntryModel (a := a) (i := i)
      (m := (a.entryModels i).reloadFresh a.signal a.db)
      (App.seenGeneration_reloadKeeping _ _ _ _)
    simp only [App.resume, hq]
    refine .steady rfl hmarks ?_ hstored
    rw [hq]
    exact fun _ h => by cases h
  case bump =>
    simp only [App.resume, hq]
    exact .bump rfl (fun _ => rfl) hstored
  case bumpForOthers =>
    simp only [App.resume, hq]
    exact .bump rfl (fun _ => rfl) hstored

theorem effect_of_step {x : Step} (hstep : App.step x.event x.before = some x.after) :
    Effect x := by
  obtain ⟨a, e, a'⟩ := x
  cases e with
  | worker e =>
      have ha : App.work e a = a' := Option.some.inj hstep
      subst ha
      cases e with
      | bump => exact .bump rfl (fun _ => rfl) (fun _ _ h => by cases h)
      | write db => exact .steady rfl (fun _ => rfl) (fun _ h => .inl h) (fun _ _ h => by cases h)
      | post n => exact .steady rfl (fun _ => rfl) (fun _ h => .inl h) (fun _ _ h => by cases h)
      | postFetchOutcome o =>
          exact .steady rfl (fun _ => rfl) (fun _ h => .inl h) (fun _ _ h => by cases h)
      | setRunning r =>
          exact .steady rfl (fun _ => rfl) (fun _ h => .inl h) (fun _ _ h => by cases h)
  | start handler =>
      by_cases hidle : a.qt = .idle
      · simp only [App.step, hidle, if_true, Option.some.injEq] at hstep
        subst hstep
        have hsteady := App.steady_handle (h := handler) hidle
        refine .steady hsteady.generation hsteady.marks ?_ (fun _ _ h => by cases h)
        rw [hidle]
        exact fun _ h => by cases h
      · simp [App.step, hidle] at hstep
  | resume =>
      by_cases hidle : a.qt = .idle
      · simp [App.step, hidle] at hstep
      · simp only [App.step, hidle, if_false, Option.some.injEq] at hstep
        subst hstep
        exact effect_resume hidle

/-! ## Whole runs -/

/-- No mark is ahead of the generation. -/
theorem seenGeneration_le {db : Db} {t : Trace} {a : App}
    (hrun : Run App.step (App.start db) t a) (v : Viewer) :
    a.seenGeneration v ≤ a.signal.generation := by
  have hinv := hrun.invariant (I := fun a => ∀ v, a.seenGeneration v ≤ a.signal.generation)
    (by rintro (i | i) <;> exact Nat.le_refl _) ?_
  · exact hinv v
  · intro e a a' h hstep u
    have hu := h u
    cases effect_of_step (x := ⟨a, e, a'⟩) hstep with
    | bump hgeneration hmarks _ =>
        rw [hgeneration, hmarks u]
        exact Nat.le_succ_of_le hu
    | looked v _ _ _ hgeneration hmarks =>
        rw [hgeneration, hmarks u]
        split
        · exact Nat.le_refl _
        · exact hu
    | stored i _ _ _ _ hgeneration hmarks =>
        rw [hgeneration, hmarks u]
        split
        · exact Nat.le_refl _
        · exact hu
    | steady hgeneration hmarks _ _ =>
        rw [hgeneration, hmarks u]
        exact hu

/-- The model's poll, if it came now, would reload. -/
def App.PollReloads (v : Viewer) (a : App) : Prop :=
  a.signal.generation ≠ a.seenGeneration v

omit [UrlLibrary] [Finder] in
/-- A poll reloads exactly if the generation is not the one it saw last. -/
theorem App.look_moved_iff (v : Viewer) (a : App) :
    (a.look v).qt = .moved v ↔ a.PollReloads v := by
  simp only [App.look, App.PollReloads]
  split
  · next h => simp [h]
  · next h => simp [h]

/-- No reload is lost so far: a model behind whose back the mirror changed
reloads at its next poll, unless it is just about to reload. -/
def NothingLost (t : Trace) (a : App) : Prop :=
  ∀ v, Unseen t v → a.qt ≠ .moved v → a.PollReloads v

/-- A model that steps over its own bump has seen everything else. -/
def StepsOverNothing (t : Trace) (x : Step) : Prop :=
  ∀ i sync, x.event = .resume → x.before.qt = .bumped i sync → ¬Unseen t (.entries i)

/-- One step: only a model stepping over its own bump can lose a reload, and
does exactly if there was something else to see. -/
theorem nothingLost_step {db : Db} {t : Trace} {x : Step}
    (hrun : Run App.step (App.start db) t x.before)
    (hstep : App.step x.event x.before = some x.after) (h : NothingLost t x.before) :
    NothingLost (t ++ [x]) x.after ↔ StepsOverNothing t x := by
  have hle := seenGeneration_le hrun
  -- what a step that does not announce leaves unseen was unseen before
  have hbefore : x.after.signal.generation = x.before.signal.generation →
      ∀ v, Unseen (t ++ [x]) v → ¬x.Reads v ∧ Unseen t v := by
    intro hgeneration v hv
    obtain ⟨hreads, hv | hannounces⟩ := hv.of_append
    · exact ⟨hreads, hv⟩
    · rw [Step.Announces, hgeneration] at hannounces
      exact (Nat.lt_irrefl _ hannounces).elim
  cases effect_of_step hstep with
  | bump hgeneration hmarks hstored =>
      refine iff_of_true ?_ fun i sync hevent hq => (hstored i sync hevent hq).elim
      intro v _ _
      have hv := hle v
      rw [App.PollReloads, hgeneration, hmarks v]
      omega
  | looked v hevent hdrained hafter hgeneration hmarks =>
      refine iff_of_true ?_ ?_
      · intro u hu hne
        have huv : u ≠ v := fun huv => hne (huv ▸ hafter)
        have hqt : x.before.qt ≠ .moved u := by
          rw [hdrained]
          exact fun h => by cases h
        rw [App.PollReloads, hgeneration, hmarks u, if_neg huv]
        exact h u (hbefore hgeneration u hu).2 hqt
      · intro i sync _ hq
        rw [hdrained] at hq
        cases hq
  | stored i sync hevent hbumped hafter hgeneration hmarks =>
      have hqt : ∀ v, x.before.qt ≠ .moved v ∧ x.after.qt ≠ .moved v := by
        intro v
        rw [hbumped, hafter]
        exact ⟨Qt.noConfusion, Qt.noConfusion⟩
      have hreads : ¬x.Reads (.entries i) := by
        simp only [Step.Reads, hevent, hbumped]
        rintro (hq | ⟨j, sync', hq, -⟩)
        · cases hq
        · cases hq
      constructor
      · intro hlost j sync' _ hq hunseen
        rw [hbumped] at hq
        cases hq
        refine hlost _ (hunseen.append hreads) (hqt _).2 ?_
        rw [hgeneration, hmarks, if_pos rfl]
      · intro hover v hv hne
        obtain ⟨-, hv'⟩ := hbefore hgeneration v hv
        have hvi : v ≠ .entries i := fun hvi => hover i sync hevent hbumped (hvi ▸ hv')
        rw [App.PollReloads, hgeneration, hmarks v, if_neg hvi]
        exact h v hv' (hqt v).1
  | steady hgeneration hmarks hmoved hstored =>
      refine iff_of_true ?_ fun i sync hevent hq => (hstored i sync hevent hq).elim
      intro v hv hne
      obtain ⟨hreads, hv'⟩ := hbefore hgeneration v hv
      have hqt : x.before.qt ≠ .moved v := by
        intro hq
        rcases hmoved v hq with hq' | hreads'
        · exact hne hq'
        · exact hreads hreads'
      rw [App.PollReloads, hgeneration, hmarks v]
      exact h v hv' hqt

end Steps

section Runs

open scoped Reader

/-- An entry of feed 1, as the mirror holds it. -/
def heldEntry (status : EntryStatus) (starred : Bool) : Vuo.EntryRow where
  id := 7
  feedId := 1
  status := status
  starred := starred
  title := "title"
  url := none
  commentsUrl := none
  author := ""
  content := ""
  publishedAt := none
  createdAt := none
  changedAt := none
  readingTime := 0
  tags := []
  lastSeenSync := 1
  contentScraped := false
  arrived := false

def held (starred : Bool) : Db :=
  { Db.empty with entries := Table.empty.put (heldEntry .unread starred) }

end Runs

end Vuo.Shim
