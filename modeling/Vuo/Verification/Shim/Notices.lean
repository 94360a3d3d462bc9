import Mathlib.Data.List.Perm.Basic
import Vuo.Model.Shim.App

/-!
# Results reach their pages

One slot holds the notice the pages wait for, another the outcome of a scrape.
Nothing posted is lost as long as whatever is put into a slot finds it empty.
-/

namespace Vuo.Shim

open Foundation

/-! ## Ownership -/

/-- The page a notice is for. -/
def Page.Owns : Page → Notice → Prop
  | .viewer (.entries _), .syncFailed .. => True
  | .viewer (.feeds _), .feedUpdated .. => True
  | .settings _, .connectionTested .. => True
  | _, _ => False

instance (page : Page) (notice : Notice) : Decidable (page.Owns notice) := by
  unfold Page.Owns
  split <;> infer_instance

namespace App

/-- A page keeps what it owns and puts back everything else. -/
theorem receive_snd (page : Page) (notice : Notice) (a : App) :
    (receive page notice a).2 = if page.Owns notice then none else some notice := by
  rcases page with (i | i) | k <;> cases notice <;> rfl

theorem receive_fst (page : Page) (notice : Notice) (a : App) :
    (receive page notice a).1.signal = a.signal := by
  rcases page with (i | i) | k <;> rfl

end App

/-! ## What a run posted and delivered -/

namespace Trace

/-- The notices a step posts. -/
def posts (x : Step) : List Notice :=
  match x.event with
  | .worker (.post notice) => [notice]
  | _ => []

/-- The notices a step delivers. -/
def delivers (x : Step) : List (Page × Notice) :=
  match x.event, x.before.qt with
  | .resume, .took page notice => if page.Owns notice then [(page, notice)] else []
  | _, _ => []

def postsOutcome (x : Step) : List FetchOutcome :=
  match x.event with
  | .worker (.postFetchOutcome outcome) => [outcome]
  | _ => []

/-- The outcomes a step delivers, with the article that takes them. -/
def deliversOutcome (x : Step) : List (ArticleModel × FetchOutcome) :=
  match x.event with
  | .start (.pollArticle k) =>
      let m := x.before.articles k
      if m.entryId = 0 then []
      else (x.before.signal.takeFetchOutcome m.entryId).1.toList.map fun o => (m, o)
  | _ => []

def posted (t : Trace) : List Notice :=
  t.flatMap posts

def delivered (t : Trace) : List (Page × Notice) :=
  t.flatMap delivers

def postedOutcomes (t : Trace) : List FetchOutcome :=
  t.flatMap postsOutcome

def deliveredOutcomes (t : Trace) : List (ArticleModel × FetchOutcome) :=
  t.flatMap deliversOutcome

end Trace

/-- The notice between its taking and the arm it goes to. -/
def Qt.hand : Qt → List Notice
  | .took _ notice => [notice]
  | _ => []

/-- Where the results of a run are: each one posted is with its owner, once,
or still waiting. -/
structure Accounted (t : Trace) (a : App) : Prop where
  notices : t.posted.Perm (t.delivered.map Prod.snd ++ a.signal.notice.toList ++ a.qt.hand)
  outcomes : t.postedOutcomes.Perm
    (t.deliveredOutcomes.map Prod.snd ++ a.signal.fetchOutcome.toList)

/-- What is put into a slot finds it empty. -/
def Spares (x : Step) : Prop :=
  match x.event, x.before.qt with
  | .worker (.post _), _ => x.before.signal.notice = none
  | .worker (.postFetchOutcome _), _ => x.before.signal.fetchOutcome = none
  | .resume, .took page notice => page.Owns notice ∨ x.before.signal.notice = none
  | _, _ => True

namespace App

variable [UrlLibrary] [Finder]

/-! ## What the other steps leave alone -/

/-- A step that takes nothing from the slots and puts nothing there. -/
structure Leaves (a a' : App) : Prop where
  notice : a'.signal.notice = a.signal.notice
  fetchOutcome : a'.signal.fetchOutcome = a.signal.fetchOutcome
  hand : a'.qt.hand = a.qt.hand

omit [UrlLibrary] [Finder] in
theorem Leaves.refl (a : App) : Leaves a a :=
  ⟨rfl, rfl, rfl⟩

theorem leaves_handle {h : Handler} {a : App} (hidle : a.qt = .idle)
    (hpoll : ∀ page, h ≠ .poll page) (harticle : ∀ k, h ≠ .pollArticle k) :
    Leaves a (handle h a) := by
  have hhand : ∀ q : Qt, q.hand = [] → q.hand = a.qt.hand := by
    rw [hidle]
    exact fun _ h => h
  cases h with
  | poll page => exact (hpoll page rfl).elim
  | pollArticle k => exact (harticle k rfl).elim
  | refresh v => cases v <;> exact ⟨rfl, rfl, rfl⟩
  | setScope i scope => exact ⟨rfl, rfl, rfl⟩
  | setSearch i text =>
      simp only [handle]
      split
      · exact .refl a
      · split <;> exact ⟨rfl, rfl, rfl⟩
  | loadMore i =>
      simp only [handle]
      split <;> exact ⟨rfl, rfl, rfl⟩
  | setRead i row read now =>
      simp only [handle, setRead]
      split
      · exact .refl a
      · exact ⟨rfl, rfl, hhand _ rfl⟩
  | setReadMany i ids read now =>
      simp only [handle, setReadMany]
      split
      · exact .refl a
      · exact ⟨rfl, rfl, hhand _ rfl⟩
  | setStarred i row starred now =>
      simp only [handle, setStarred]
      split
      · exact .refl a
      · exact ⟨rfl, rfl, hhand _ rfl⟩
  | markAllReadIn i scope now =>
      simp only [handle, markAllReadIn]
      split
      · exact .refl a
      · exact ⟨rfl, rfl, hhand _ rfl⟩
  | requestSync i sent => exact ⟨rfl, rfl, hhand _ rfl⟩
  | markFeedRead i row now =>
      simp only [handle, markFeedRead]
      split
      · exact .refl a
      · exact ⟨rfl, rfl, rfl⟩
  | openArticle k entryId => exact ⟨rfl, rfl, rfl⟩
  | fetchOriginal k => exact ⟨rfl, rfl, rfl⟩
  | applyArticle k value now =>
      simp only [handle, applyArticle]
      split
      · exact .refl a
      · exact ⟨rfl, rfl, hhand _ rfl⟩

/-- A handler past its notices leaves the slots alone. -/
theorem leaves_resume {a : App} (htook : ∀ page notice, a.qt ≠ .took page notice) :
    Leaves a (resume a) := by
  rcases hq : a.qt with _ | ⟨page, notice⟩ | v | v | ⟨i, sync⟩ | ⟨i, sync⟩ | ⟨i, sync⟩ | _
  case took => exact (htook page notice hq).elim
  case idle =>
    simp only [resume, hq]
    exact .refl a
  all_goals
    have hhand : a.qt.hand = [] := by
      rw [hq]
      rfl
  case drained =>
    simp only [resume, hq, look]
    split
    · exact ⟨rfl, rfl, hhand.symm⟩
    · cases v <;> exact ⟨rfl, rfl, hhand.symm⟩
  case moved =>
    simp only [resume, hq]
    cases v <;> exact ⟨rfl, rfl, hhand.symm⟩
  case startOver =>
    simp only [resume, hq]
    exact ⟨rfl, rfl, hhand.symm⟩
  case bump =>
    simp only [resume, hq]
    exact ⟨rfl, rfl, hhand.symm⟩
  case bumped =>
    simp only [resume, hq]
    cases sync <;> exact ⟨rfl, rfl, hhand.symm⟩
  case bumpForOthers =>
    simp only [resume, hq]
    exact ⟨rfl, rfl, hhand.symm⟩

end App

/-! ## One step -/

section Slot

variable {M : Type*} {posted kept hand : List M} {old : Option M} {m : M}

/-- A post into the slot loses nothing exactly if the slot was empty. -/
theorem perm_post_iff (h : posted.Perm (kept ++ old.toList ++ hand)) :
    (posted ++ [m]).Perm (kept ++ [m] ++ hand) ↔ old = none := by
  constructor
  · intro h'
    have hlength := h.length_eq
    have hlength' := h'.length_eq
    simp only [List.length_append, List.length_singleton] at hlength hlength'
    cases old with
    | none => rfl
    | some n =>
        simp only [Option.toList_some, List.length_singleton] at hlength
        omega
  · rintro rfl
    have hswap : (kept ++ [m] ++ hand).Perm (kept ++ hand ++ [m]) := by
      rw [List.append_assoc, List.append_assoc]
      exact List.perm_append_comm.append_left kept
    have hposted : posted.Perm (kept ++ hand) := by simpa using h
    exact (hposted.append_right [m]).trans hswap.symm

/-- So does putting back what was taken from it. -/
theorem perm_putBack_iff (h : posted.Perm (kept ++ old.toList ++ [m])) :
    posted.Perm (kept ++ [m]) ↔ old = none := by
  constructor
  · intro h'
    have hlength := h.length_eq
    have hlength' := h'.length_eq
    simp only [List.length_append, List.length_singleton] at hlength hlength'
    cases old with
    | none => rfl
    | some n =>
        simp only [Option.toList_some, List.length_singleton] at hlength
        omega
  · rintro rfl
    simpa using h

/-- A delivery only moves what was in hand. -/
theorem perm_deliver (h : posted.Perm (kept ++ old.toList ++ [m])) :
    posted.Perm (kept ++ [m] ++ old.toList) := by
  refine h.trans ?_
  rw [List.append_assoc, List.append_assoc]
  exact List.perm_append_comm.append_left kept

end Slot

/-- A step that posts and delivers nothing and leaves the slots alone. -/
theorem Accounted.of_leaves {t : Trace} {x : Step} (h : Accounted t x.before)
    (hleaves : App.Leaves x.before x.after) (hposts : Trace.posts x = [])
    (hdelivers : Trace.delivers x = []) (hpostsOutcome : Trace.postsOutcome x = [])
    (hdeliversOutcome : Trace.deliversOutcome x = []) : Accounted (t ++ [x]) x.after where
  notices := by
    simpa [Trace.posted, Trace.delivered, hposts, hdelivers, hleaves.notice, hleaves.hand]
      using h.notices
  outcomes := by
    simpa [Trace.postedOutcomes, Trace.deliveredOutcomes, hpostsOutcome, hdeliversOutcome,
      hleaves.fetchOutcome] using h.outcomes

variable {t : Trace} {a a' : App}

/-- A page's poll takes the notice into its hand. -/
theorem accounted_poll {page : Page} (hidle : a.qt = .idle) (h : Accounted t a) :
    Accounted (t ++ [⟨a, .start (.poll page), a.poll page⟩]) (a.poll page) := by
  have hdraw : (App.drawSpinner page a).signal = a.signal := by
    rcases page with (i | i) | k <;> rfl
  have hhand : a.qt.hand = [] := by rw [hidle]; rfl
  have hnotices := h.notices
  rw [hhand] at hnotices
  have hpoll : (a.poll page).signal.fetchOutcome = a.signal.fetchOutcome ∧
      (a.poll page).signal.notice = none ∧
      (a.poll page).qt.hand = a.signal.notice.toList := by
    simp only [App.poll, SyncSignal.takeNotice, hdraw]
    cases a.signal.notice <;> rcases page with (i | i) | k <;> exact ⟨rfl, rfl, rfl⟩
  refine ⟨?_, ?_⟩
  · simpa [Trace.posted, Trace.delivered, Trace.posts, Trace.delivers, hpoll] using hnotices
  · simpa [Trace.postedOutcomes, Trace.deliveredOutcomes, Trace.postsOutcome,
      Trace.deliversOutcome, hpoll] using h.outcomes

/-- An article takes the outcome of its own scrape in one go. -/
theorem accounted_pollArticle {k : ℕ} (h : Accounted t a) :
    Accounted (t ++ [⟨a, .start (.pollArticle k), a.pollArticle k⟩]) (a.pollArticle k) := by
  have hstep : (a.pollArticle k).signal.notice = a.signal.notice ∧
      (a.pollArticle k).qt = a.qt ∧
      (Trace.deliversOutcome ⟨a, .start (.pollArticle k), a.pollArticle k⟩).map Prod.snd ++
        (a.pollArticle k).signal.fetchOutcome.toList = a.signal.fetchOutcome.toList := by
    simp only [App.pollArticle, Trace.deliversOutcome]
    split
    · exact ⟨rfl, rfl, rfl⟩
    · simp only [SyncSignal.takeFetchOutcome]
      cases ho : a.signal.fetchOutcome with
      | none => simp [ho]
      | some o =>
          by_cases hid : o.entryId = (a.articles k).entryId <;> simp [hid, ho, App.setArticle]
  refine ⟨?_, ?_⟩
  · simpa [Trace.posted, Trace.delivered, Trace.posts, Trace.delivers, hstep] using h.notices
  · have houtcomes := h.outcomes
    rw [← hstep.2.2] at houtcomes
    simpa [Trace.postedOutcomes, Trace.deliveredOutcomes, Trace.postsOutcome] using houtcomes

/-- A notice in hand is delivered, or put back into the slot. -/
theorem accounted_settle {page : Page} {notice : Notice} (hq : a.qt = .took page notice)
    (h : Accounted t a) :
    Accounted (t ++ [⟨a, .resume, a.settle page notice⟩]) (a.settle page notice) ↔
      page.Owns notice ∨ a.signal.notice = none := by
  have hnotices := h.notices
  rw [hq] at hnotices
  have hsnd := App.receive_snd page notice a
  have hfst := App.receive_fst page notice a
  have hafter : ∀ b : App, (App.afterNotices page b).signal = b.signal ∧
      (App.afterNotices page b).qt.hand = [] := by
    rcases page with v | k <;> exact fun b => ⟨rfl, rfl⟩
  have houtcome : ∀ b : App, b.signal.fetchOutcome = a.signal.fetchOutcome →
      (t ++ [⟨a, .resume, b⟩] : Trace).postedOutcomes.Perm
        ((t ++ [⟨a, .resume, b⟩] : Trace).deliveredOutcomes.map Prod.snd ++
          b.signal.fetchOutcome.toList) := by
    intro b hb
    simpa [Trace.postedOutcomes, Trace.deliveredOutcomes, Trace.postsOutcome,
      Trace.deliversOutcome, hb] using h.outcomes
  by_cases howns : page.Owns notice
  · rw [if_pos howns] at hsnd
    have hsettle : a.settle page notice = App.afterNotices page (App.receive page notice a).1 := by
      simp only [App.settle, hsnd]
    refine iff_of_true ⟨?_, houtcome _ ?_⟩ (.inl howns)
    · rw [hsettle, (hafter _).1, (hafter _).2, hfst]
      simpa [Trace.posted, Trace.delivered, Trace.posts, Trace.delivers, hq, howns]
        using perm_deliver hnotices
    · rw [hsettle, (hafter _).1, hfst]
  · rw [if_neg howns] at hsnd
    have hsettle : (a.settle page notice).signal = a.signal.post notice ∧
        (a.settle page notice).qt.hand = [] := by
      simp only [App.settle, hsnd, hfst]
      exact ⟨(hafter _).1, (hafter _).2⟩
    have hiff := perm_putBack_iff hnotices
    constructor
    · intro h'
      have hnotices' := h'.notices
      rw [hsettle.1, hsettle.2] at hnotices'
      refine .inr (hiff.1 ?_)
      simpa [Trace.posted, Trace.delivered, Trace.posts, Trace.delivers, hq, howns,
        SyncSignal.post] using hnotices'
    · intro h'
      refine ⟨?_, houtcome _ (by rw [hsettle.1]; rfl)⟩
      rw [hsettle.1, hsettle.2]
      simpa [Trace.posted, Trace.delivered, Trace.posts, Trace.delivers, hq, howns,
        SyncSignal.post] using hiff.2 (h'.resolve_left howns)

/-- A post of the worker's. -/
theorem accounted_post {notice : Notice} (h : Accounted t a) :
    Accounted (t ++ [⟨a, .worker (.post notice), App.work (.post notice) a⟩])
      (App.work (.post notice) a) ↔ a.signal.notice = none := by
  have hiff := perm_post_iff (m := notice) h.notices
  constructor
  · intro h'
    refine hiff.1 ?_
    simpa [Trace.posted, Trace.delivered, Trace.posts, Trace.delivers, App.work,
      SyncSignal.post] using h'.notices
  · intro h'
    refine ⟨?_, ?_⟩
    · simpa [Trace.posted, Trace.delivered, Trace.posts, Trace.delivers, App.work,
        SyncSignal.post] using hiff.2 h'
    · simpa [Trace.postedOutcomes, Trace.deliveredOutcomes, Trace.postsOutcome,
        Trace.deliversOutcome, App.work, SyncSignal.post] using h.outcomes

theorem accounted_postFetchOutcome {outcome : FetchOutcome} (h : Accounted t a) :
    Accounted (t ++ [⟨a, .worker (.postFetchOutcome outcome),
      App.work (.postFetchOutcome outcome) a⟩]) (App.work (.postFetchOutcome outcome) a) ↔
      a.signal.fetchOutcome = none := by
  have houtcomes : t.postedOutcomes.Perm
      (t.deliveredOutcomes.map Prod.snd ++ a.signal.fetchOutcome.toList ++ []) := by
    simpa using h.outcomes
  have hiff := perm_post_iff (m := outcome) houtcomes
  constructor
  · intro h'
    refine hiff.1 ?_
    simpa [Trace.postedOutcomes, Trace.deliveredOutcomes, Trace.postsOutcome,
      Trace.deliversOutcome, App.work, SyncSignal.postFetchOutcome] using h'.outcomes
  · intro h'
    refine ⟨?_, ?_⟩
    · simpa [Trace.posted, Trace.delivered, Trace.posts, Trace.delivers, App.work,
        SyncSignal.postFetchOutcome] using h.notices
    · simpa [Trace.postedOutcomes, Trace.deliveredOutcomes, Trace.postsOutcome,
        Trace.deliversOutcome, App.work, SyncSignal.postFetchOutcome] using hiff.2 h'

section Run

variable [UrlLibrary] [Finder]

/-- A step keeps the account exactly if what it puts into a slot finds it
empty. -/
theorem accounted_step {x : Step} (hstep : App.step x.event x.before = some x.after)
    (h : Accounted t x.before) : Accounted (t ++ [x]) x.after ↔ Spares x := by
  obtain ⟨a, e, a'⟩ := x
  cases e with
  | worker e =>
      have ha : App.work e a = a' := Option.some.inj hstep
      subst ha
      cases e with
      | write db => exact iff_of_true (h.of_leaves ⟨rfl, rfl, rfl⟩ rfl rfl rfl rfl) trivial
      | bump => exact iff_of_true (h.of_leaves ⟨rfl, rfl, rfl⟩ rfl rfl rfl rfl) trivial
      | post notice => exact accounted_post h
      | postFetchOutcome outcome => exact accounted_postFetchOutcome h
      | setRunning running =>
          exact iff_of_true (h.of_leaves ⟨rfl, rfl, rfl⟩ rfl rfl rfl rfl) trivial
  | start handler =>
      by_cases hidle : a.qt = .idle
      · simp only [App.step, hidle, if_true, Option.some.injEq] at hstep
        subst hstep
        refine iff_of_true ?_ trivial
        by_cases hpoll : ∃ page, handler = .poll page
        · obtain ⟨page, rfl⟩ := hpoll
          exact accounted_poll hidle h
        · by_cases harticle : ∃ k, handler = .pollArticle k
          · obtain ⟨k, rfl⟩ := harticle
            exact accounted_pollArticle h
          · push Not at hpoll harticle
            refine h.of_leaves (App.leaves_handle hidle hpoll harticle) rfl rfl rfl ?_
            cases handler with
            | pollArticle k => exact (harticle k rfl).elim
            | _ => rfl
      · simp [App.step, hidle] at hstep
  | resume =>
      by_cases hidle : a.qt = .idle
      · simp [App.step, hidle] at hstep
      · simp only [App.step, hidle, if_false, Option.some.injEq] at hstep
        subst hstep
        by_cases htook : ∃ page notice, a.qt = .took page notice
        · obtain ⟨page, notice, hq⟩ := htook
          have hresume : a.resume = a.settle page notice := by
            simp only [App.resume, hq]
          rw [hresume]
          simpa only [Spares, hq] using accounted_settle hq h
        · push Not at htook
          refine iff_of_true (h.of_leaves (App.leaves_resume htook) rfl ?_ rfl rfl) ?_
          · cases hq : a.qt with
            | took page notice => exact (htook page notice hq).elim
            | _ => simp only [Trace.delivers, hq]
          · cases hq : a.qt with
            | took page notice => exact (htook page notice hq).elim
            | _ => simp only [Spares, hq]

/-! ## Whole runs -/

omit [UrlLibrary] [Finder] in
/-- Everything a run delivered went to its owner. -/
theorem delivered_owned (t : Trace) : ∀ d ∈ t.delivered, Page.Owns d.1 d.2 := by
  intro d hd
  obtain ⟨x, -, hx⟩ := List.mem_flatMap.1 hd
  simp only [Trace.delivers] at hx
  split at hx
  · split at hx
    · next howns =>
        cases List.mem_singleton.1 hx
        exact howns
    · cases hx
  · cases hx

omit [UrlLibrary] [Finder] in
theorem deliveredOutcomes_owned (t : Trace) :
    ∀ d ∈ t.deliveredOutcomes, d.1.entryId = d.2.entryId := by
  intro d hd
  obtain ⟨x, -, hx⟩ := List.mem_flatMap.1 hd
  simp only [Trace.deliversOutcome] at hx
  split at hx
  · split at hx
    · cases hx
    · simp only [SyncSignal.takeFetchOutcome] at hx
      split at hx
      · next hid =>
          obtain ⟨o, ho, rfl⟩ := List.mem_map.1 hx
          have ho : x.before.signal.fetchOutcome = some o := Option.mem_toList.1 ho
          rw [ho] at hid
          exact (of_decide_eq_true hid).symm
      · cases hx
  · cases hx

/-- What the pages are promised: every result posted went to its owner, once,
or still waits for it. -/
def Reliable (t : Trace) (a : App) : Prop :=
  Accounted t a ∧ (∀ d ∈ t.delivered, Page.Owns d.1 d.2) ∧
    ∀ d ∈ t.deliveredOutcomes, d.1.entryId = d.2.entryId

end Run

section Runs

/-- No address parses, and the search finds nothing. -/
abbrev bareUrls : UrlLibrary :=
  ⟨fun _ => none, fun _ _ => none⟩

abbrev bareFinder : Finder :=
  ⟨fun _ _ => []⟩

namespace Reader

scoped instance : UrlLibrary := bareUrls

scoped instance : Finder := bareFinder

end Reader

open scoped Reader

end Runs

end Vuo.Shim
