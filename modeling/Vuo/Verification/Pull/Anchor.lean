import Vuo.Verification.Pull.Rules

/-!
# The anchor of the cursor

A pass against a clock that never goes back. The clock is the server's and the
local one; every answer that carries a date carries the time it was given. The
outside keeps the pages answered and the local reading of the clock.
-/

namespace Vuo

open Foundation MinifluxClient

namespace Pull

/-- One answered page: when, with which date, and how many rows. -/
structure Answered where
  time : DateTime
  date : Option DateTime
  count : ℕ

/-- The clock, the pages answered so far and the local reading taken. -/
structure PassClock where
  now : DateTime
  pages : List Answered
  read : Option DateTime

/-- The date of an answer, where it has one, is the time it was given. -/
def Dated {request : Request} (r : Answer request) (time : DateTime) : Prop :=
  ∀ response, r = .ok response → ∀ d, response.serverDate = some d → d = time

def answeredAt : (request : Request) → Answer request → DateTime → List Answered
  | .entries _, .ok response, time =>
      [{ time := time
         date := response.serverDate
         count := match response.body with
           | .ok page => page.entries.length
           | .error _ => 0 }]
  | _, _, _ => []

/-- Any server that dates its answers correctly, over any database. -/
def clocked : Outside PassClock where
  send _ request o r o' :=
    ∃ time : DateTime, o.now.timestamp ≤ time.timestamp ∧ Dated r time ∧
      o' = { o with now := time, pages := o.pages ++ answeredAt request r time }
  now o t o' := t = o.now ∧ o' = { o with read := some t }
  commit _ _ o := o
  env w w' :=
    w.outside.now.timestamp ≤ w'.outside.now.timestamp ∧
      w'.outside.pages = w.outside.pages ∧ w'.outside.read = w.outside.read

/-- The date a cursor is anchored to: the first one any page carried, or else
the local reading at the end. -/
def PassClock.anchor (o : PassClock) : Option DateTime :=
  (o.pages.findSome? Answered.date).or o.read

/-- Unless the pages break off at a full one, the anchor is the time of the
first answer. -/
def PassClock.AnchoredAtStart (o : PassClock) : Prop :=
  ∀ first ∈ o.pages.head?, ∀ last ∈ o.pages.getLast?, last.count < pageSize →
    ∀ t, o.anchor = some t → t = first.time

/-! ## The invariant of a pass -/

structure PassInv (sn : Option ℤ) (o : PassClock) : Prop where
  anchor : sn = (o.pages.findSome? Answered.date).map DateTime.timestamp
  dated : ∀ p ∈ o.pages, ∀ d, p.date = some d → d = p.time
  first : ∀ f ∈ o.pages.head?, ∀ p ∈ o.pages, f.time.timestamp ≤ p.time.timestamp
  past : ∀ p ∈ o.pages, p.time.timestamp ≤ o.now.timestamp
  unread : o.read = none

/-- How a pass ended: with a cursor exactly after a short page, and then with
one taken off the anchor. -/
structure PassEnd (c : Option ℤ) (o : PassClock) : Prop where
  short : ∀ last ∈ o.pages.getLast?, last.count < pageSize ↔ c.isSome = true
  cursor : ∀ n, c = some n → ∃ t, o.anchor = some t ∧
    n = t.timestamp - cursorSkewSecs ∧
    ∀ f ∈ o.pages.head?, f.time.timestamp ≤ t.timestamp

theorem PassInv.of_env {sn : Option ℤ} {o o' : PassClock} (h : PassInv sn o)
    (hnow : o.now.timestamp ≤ o'.now.timestamp) (hpages : o'.pages = o.pages)
    (hread : o'.read = o.read) : PassInv sn o' where
  anchor := by rw [hpages]; exact h.anchor
  dated := by rw [hpages]; exact h.dated
  first := by rw [hpages]; exact h.first
  past := by
    rw [hpages]
    exact fun p hp => (h.past p hp).trans hnow
  unread := hread.trans h.unread

/-- A further page keeps the invariant, its date counting only if no page
before it had one. -/
theorem PassInv.answered {sn : Option ℤ} {o : PassClock} (h : PassInv sn o)
    {p : Answered} (hnow : o.now.timestamp ≤ p.time.timestamp)
    (hdate : ∀ d, p.date = some d → d = p.time) :
    PassInv (sn.or (p.date.map DateTime.timestamp))
      { o with now := p.time, pages := o.pages ++ [p] } where
  anchor := by
    have hone : [p].findSome? Answered.date = p.date := by
      cases hd : p.date <;> simp [hd]
    rw [List.findSome?_append, hone, h.anchor]
    cases o.pages.findSome? Answered.date <;> simp
  dated := by
    intro q hq
    rcases List.mem_append.1 hq with hq | hq
    · exact h.dated q hq
    · rw [List.mem_singleton.1 hq]
      exact hdate
  first := by
    intro f hf q hq
    have hlast : ∀ g ∈ o.pages, g.time.timestamp ≤ p.time.timestamp :=
      fun g hg => (h.past g hg).trans hnow
    cases hpages : o.pages with
    | nil =>
        simp only [hpages, List.nil_append, List.head?_cons, Option.mem_def,
          Option.some.injEq, List.mem_singleton] at hf hq
        rw [← hf, hq]
    | cons g gs =>
        have hg : g = f := by simpa [hpages] using hf
        subst hg
        rcases List.mem_append.1 hq with hq | hq
        · exact h.first g (by simp [hpages]) q hq
        · rw [List.mem_singleton.1 hq]
          exact hlast g (by simp [hpages])
  past := by
    intro q hq
    rcases List.mem_append.1 hq with hq | hq
    · exact (h.past q hq).trans hnow
    · rw [List.mem_singleton.1 hq]
  unread := h.unread

theorem PassInv.first_le_date {sn : Option ℤ} {o : PassClock} (h : PassInv sn o)
    {d : DateTime} (hd : o.pages.findSome? Answered.date = some d) :
    ∀ f ∈ o.pages.head?, f.time.timestamp ≤ d.timestamp := by
  intro f hf
  obtain ⟨p, hp, hdate⟩ := List.exists_of_findSome?_eq_some hd
  rw [h.dated p hp d hdate]
  exact h.first f hf p hp

/-! ## A pass step by step -/

/-- Before a page is asked for every page so far was a full one. -/
def AtPage (sn : Option ℤ) (w : World PassClock) : Prop :=
  PassInv sn w.outside ∧ ∀ last ∈ w.outside.pages.getLast?, pageSize ≤ last.count

/-- A page was answered and is not yet written. -/
def AtAnswer (sn : Option ℤ) (count : ℕ) (w : World PassClock) : Prop :=
  PassInv sn w.outside ∧ ∃ last, w.outside.pages.getLast? = some last ∧ last.count = count

/-- The pages have ended, at a short one where the window was covered. -/
def AtEnd (sn : Option ℤ) (complete : Bool) (w : World PassClock) : Prop :=
  PassInv sn w.outside ∧ (∀ last ∈ w.outside.pages.getLast?,
    last.count < pageSize ↔ complete = true)

theorem stable_pages (P : PassClock → Prop)
    (hP : ∀ o o', o.now.timestamp ≤ o'.now.timestamp → o'.pages = o.pages →
      o'.read = o.read → P o → P o') :
    clocked.setting.Stable fun w => P w.outside := by
  rintro w w' ⟨hnow, hpages, hread⟩ h
  exact hP _ _ hnow hpages hread h

theorem stable_atPage (sn : Option ℤ) : clocked.setting.Stable (AtPage sn) :=
  stable_pages (fun o => PassInv sn o ∧ ∀ last ∈ o.pages.getLast?, pageSize ≤ last.count)
    fun _ _ hnow hpages hread h =>
      ⟨h.1.of_env hnow hpages hread, by rw [hpages]; exact h.2⟩

theorem stable_atAnswer (sn : Option ℤ) (count : ℕ) :
    clocked.setting.Stable (AtAnswer sn count) :=
  stable_pages
    (fun o => PassInv sn o ∧ ∃ last, o.pages.getLast? = some last ∧ last.count = count)
    fun _ _ hnow hpages hread h =>
      ⟨h.1.of_env hnow hpages hread, by rw [hpages]; exact h.2⟩

theorem stable_atEnd (sn : Option ℤ) (complete : Bool) :
    clocked.setting.Stable (AtEnd sn complete) :=
  stable_pages
    (fun o => PassInv sn o ∧ ∀ last ∈ o.pages.getLast?,
      last.count < pageSize ↔ complete = true)
    fun _ _ hnow hpages hread h =>
      ⟨h.1.of_env hnow hpages hread, by rw [hpages]; exact h.2⟩

theorem stable_passEnd (c : Option ℤ) :
    clocked.setting.Stable fun w => PassEnd c w.outside :=
  stable_pages (PassEnd c) fun o o' _ hpages hread h => by
    have hanchor : o'.anchor = o.anchor := by simp [PassClock.anchor, hpages, hread]
    exact ⟨by rw [hpages]; exact h.short, by rw [hpages, hanchor]; exact h.cursor⟩

theorem follows_of_atAnswer {sn : Option ℤ} {after : Option EntryId}
    {page : Wire.EntriesResponse} {w : World PassClock}
    (hw : AtAnswer sn page.entries.length w) :
    Follows (fun _ => AtPage) AtEnd after page sn w := by
  obtain ⟨hinv, last, hlast, hcount⟩ := hw
  have hend : ∀ complete : Bool,
      (page.entries.length < pageSize ↔ complete = true) → AtEnd sn complete w := by
    intro complete hshort
    refine ⟨hinv, ?_⟩
    intro last' hlast'
    rw [hlast] at hlast'
    rw [← Option.some.inj hlast', hcount]
    exact hshort
  unfold Follows
  split
  · next hshort => exact hend true (by simpa using hshort)
  · next hfull =>
      have hopen : AtEnd sn false w := hend false (by simpa using hfull)
      cases page.entries.getLast?.map Wire.Entry.id with
      | none => exact hopen
      | some id =>
          dsimp only
          split
          · refine ⟨hinv, ?_⟩
            intro last' hlast'
            rw [hlast] at hlast'
            rw [← Option.some.inj hlast', hcount]
            omega
          · exact hopen

section Pass

variable [Endpoints] {client : MinifluxClient}

theorem atAnswer_of_send {sn : Option ℤ} {q : EntriesQuery} {w : World PassClock}
    {r : Answer (.entries q)} {o : PassClock} {page : Wire.EntriesResponse}
    {date : Option DateTime} (hw : AtPage sn w)
    (hsend : clocked.send client.transport (.entries q) w.outside r o)
    (hresult : pageResult client q r = .ok (page, date)) :
    AtAnswer (sn.or (date.map DateTime.timestamp)) page.entries.length (w.setOutside o) := by
  obtain ⟨time, hnow, hdated, rfl⟩ := hsend
  obtain ⟨response, rfl, hbody, rfl⟩ := pageResult_eq_ok hresult
  refine ⟨?_, ⟨time, response.serverDate, page.entries.length⟩, ?_, rfl⟩
  · have hpage := hw.1.answered (p := ⟨time, response.serverDate, page.entries.length⟩)
      hnow (fun d hd => hdated response rfl d hd)
    simpa [answeredAt, hbody] using hpage
  · simp [answeredAt, hbody]

variable [UrlLibrary] {cursor : Option ℤ} {generation : ℤ}

theorem wpe_pass (maxPages : ℕ) {w : World PassClock} (hpages : w.outside.pages = [])
    (hread : w.outside.read = none) :
    clocked.setting.wpe Outside.noPromise (entriesWithPageCap client cursor generation maxPages)
      (fun outcome w => PassEnd outcome.nextCursor w.outside) (fun _ _ => True) w := by
  have hstart : AtPage none w :=
    ⟨⟨by simp [hpages], by simp [hpages], by simp [hpages], by simp [hpages], hread⟩,
      by simp [hpages]⟩
  refine wpe_entriesWithPageCap maxPages stable_atEnd stable_passEnd
    (fun _ => Setting.stable_const _) ?_ ?_ ?_
    (wpe_entriesPages (fun _ => stable_atPage)
      (fun _ sn a => stable_atAnswer (sn.or (a.2.map DateTime.timestamp)) a.1.entries.length)
      stable_atEnd (fun _ => Setting.stable_const _) ?_ ?_ (fun _ _ _ _ _ _ _ => ⟨trivial, trivial⟩)
      ?_ maxPages none none .default hstart)
  · -- the anchor is the date of some page
    rintro t w₁ ⟨hinv, hshort⟩
    refine ⟨by simpa using hshort, ?_⟩
    intro n hn
    obtain ⟨d, hd, rfl⟩ := Option.map_eq_some_iff.1 hinv.anchor.symm
    refine ⟨d, by simp [PassClock.anchor, hd], ?_, hinv.first_le_date hd⟩
    rw [← Option.some.inj hn]
    exact d.saturatingSub_timestamp (by decide) (by decide)
  · -- no page had a date: the local clock is read at the end
    rintro w₁ ⟨hinv, hshort⟩ t o ⟨rfl, rfl⟩
    refine ⟨trivial, by simpa using hshort, ?_⟩
    intro n hn
    have hnone : w₁.outside.pages.findSome? Answered.date = none :=
      Option.map_eq_none_iff.1 hinv.anchor.symm
    refine ⟨w₁.outside.now, by simp [PassClock.anchor, hnone], ?_, ?_⟩
    · rw [← Option.some.inj hn]
      exact DateTime.saturatingSub_timestamp _ (by decide) (by decide)
    · intro f hf
      exact hinv.past f (List.mem_of_mem_head? hf)
  · rintro sn w₁ ⟨hinv, hshort⟩
    exact ⟨by simpa using hshort, fun n hn => by cases hn⟩
  · intro after sn w₁ h₁ r o hsend
    refine ⟨trivial, ?_⟩
    cases hresult : pageResult client (pageQuery cursor after) r with
    | error e => trivial
    | ok a => exact atAnswer_of_send h₁ hsend hresult
  · intro after sn page date w₁ h₁
    exact ⟨trivial, follows_of_atAnswer h₁⟩
  · rintro after sn w₁ ⟨hinv, hfull⟩
    refine ⟨hinv, fun last hlast => ?_⟩
    have hge := hfull last hlast
    simp only [Bool.false_eq_true, iff_false]
    omega

/-- A pass keeps its cursor a skew below the time of its first answer exactly
when it is anchored there: that answer is dated, or the first one that is
dated, or else the end of the pass, falls into the same second. -/
theorem cursor_anchored_iff {maxPages : ℕ} {db : Db} {cells : ℕ → Option ServerVersion}
    {start : DateTime} {outcome : PullOutcome} {w : World PassClock}
    (hrun : clocked.setting.Reaches
      ((entriesWithPageCap client cursor generation maxPages).run,
        ⟨db, cells, { now := start, pages := [], read := none }⟩)
      (.done (.ok outcome), w)) :
    (∀ first ∈ w.outside.pages.head?, ∀ c, outcome.nextCursor = some c →
      c ≤ first.time.timestamp - cursorSkewSecs) ↔ w.outside.AnchoredAtStart := by
  have hend : PassEnd outcome.nextCursor w.outside :=
    Setting.wpe_finished
      (Q := fun (outcome : PullOutcome) (w : World PassClock) =>
        PassEnd outcome.nextCursor w.outside)
      (wpe_pass maxPages rfl rfl) hrun
  constructor
  · intro hbound first hfirst last hlast hshort t ht
    obtain ⟨c, hc⟩ := Option.isSome_iff_exists.1 ((hend.short last hlast).1 hshort)
    obtain ⟨t', ht', hct, hle⟩ := hend.cursor c hc
    have htt : t' = t := Option.some.inj (ht'.symm.trans ht)
    subst htt
    have hupper := hbound first hfirst c hc
    have hlower := hle first hfirst
    exact DateTime.ext (by omega)
  · intro hanchored first hfirst c hc
    obtain ⟨t, ht, hct, -⟩ := hend.cursor c hc
    have hpages : w.outside.pages ≠ [] := by
      intro hnil
      simp [hnil] at hfirst
    have hlast := List.getLast?_eq_some_getLast hpages
    have hshort := (hend.short _ hlast).2 (by simp [hc])
    rw [hct, hanchored first hfirst _ hlast hshort t ht]

end Pass

/-! ## One page without a date -/

section Undated

open scoped Reader

/-- A pass over an empty window whose one page is answered at second 100 with
the date `date`. -/
def onePage (now : DateTime) (date : Option DateTime) (read : Option DateTime) :
    World PassClock :=
  ⟨Db.empty, fun _ => none,
    { now := now
      pages := [⟨secondsAfter 100 (by decide), date, 0⟩]
      read := read }⟩

theorem reaches_onePage (date : Option DateTime)
    (hdate : ∀ d, date = some d → d = secondsAfter 100 (by decide)) :
    ∃ outcome, clocked.setting.Reaches
      ((entriesPages readerClient none 1 400 none none .default).run,
        ⟨Db.empty, fun _ => none,
          { now := secondsAfter 100 (by decide), pages := [], read := none }⟩)
      (.done (.ok (outcome, date.map DateTime.timestamp, true)),
        onePage (secondsAfter 100 (by decide)) date none) := by
  apply Exists.intro
  have hsend : clocked.send readerTransport (.entries (pageQuery none none))
      { now := secondsAfter 100 (by decide), pages := [], read := none }
      (answered 200 ⟨[]⟩ date)
      { now := secondsAfter 100 (by decide)
        pages := [⟨secondsAfter 100 (by decide), date, 0⟩]
        read := none } :=
    ⟨secondsAfter 100 (by decide), le_rfl, fun response hr d hd => by
      cases hr
      exact hdate d hd, rfl⟩
  refine Setting.Reaches.call (Outside.act_send_of hsend) ?_
  exact Setting.Reaches.call (Outside.act_transact_ok [] _) .refl

/-- A dated page anchors the cursor a skew before its time. -/
theorem cursor_anchored_iff_dated :
    ∃ (outcome : PullOutcome) (w : World PassClock),
      w.outside.pages.head?.map Answered.time = some (secondsAfter 100 (by decide)) ∧
      ((∀ first ∈ w.outside.pages.head?, ∀ c, outcome.nextCursor = some c →
        c ≤ first.time.timestamp - cursorSkewSecs) ↔ w.outside.AnchoredAtStart) := by
  obtain ⟨outcome, hpages⟩ := reaches_onePage (some (secondsAfter 100 (by decide)))
    (fun d hd => (Option.some.inj hd).symm)
  refine ⟨_, _, rfl, cursor_anchored_iff (hpages.bind_ok _)⟩

/-- The page has no date and the pass ends three seconds later: the cursor
skips those seconds. -/
theorem cursor_not_anchored :
    ∃ (outcome : PullOutcome) (w : World PassClock) (first : Answered) (c : ℤ),
      clocked.setting.Reaches ((entriesWithPageCap readerClient none 1 400).run,
        ⟨Db.empty, fun _ => none,
          { now := secondsAfter 100 (by decide), pages := [], read := none }⟩)
        (.done (.ok outcome), w) ∧
      w.outside.pages.head? = some first ∧ outcome.nextCursor = some c ∧
      ¬c ≤ first.time.timestamp - cursorSkewSecs := by
  obtain ⟨outcome, hpages⟩ := reaches_onePage none (fun d hd => by cases hd)
  have hlater : clocked.setting.Reaches
      ((entriesWithPageCap readerClient none 1 400).run, _)
      (_, onePage (secondsAfter 103 (by decide)) none none) :=
    (hpages.bind_ok _).tail (.env ⟨by decide, rfl, rfl⟩)
  have hread : clocked.now (onePage (secondsAfter 103 (by decide)) none none).outside
      (secondsAfter 103 (by decide))
      (onePage (secondsAfter 103 (by decide)) none
        (some (secondsAfter 103 (by decide)))).outside :=
    ⟨rfl, rfl⟩
  have hrun := hlater.trans (Setting.Reaches.call (Outside.act_now_of hread) .refl)
  exact ⟨_, _, ⟨secondsAfter 100 (by decide), none, 0⟩, 43, hrun, rfl, rfl, by decide⟩

end Undated

end Pull

end Vuo
