import Vuo.Verification.Calls
import Vuo.Verification.Mirror.Bookkeeping
import Vuo.Verification.Pass
import Vuo.Verification.Pull.Journal

/-!
# Nothing is skipped

Passes over a journal that goes on growing. The stored cursor is older than
every change not handed over; a pass keeps that true of the time of its first
page, for whatever it has already gone past.
-/

namespace Vuo

open Foundation MinifluxClient

namespace Pull

open Journal

/-! ## The invariant -/

/-- A cursor leaves nothing behind: it is older than every change not handed
over, and by a minute older than the present. -/
structure Behind (cursor : Option ℤ) (o : Journal) : Prop where
  unseen : ∀ t ∈ cursor, ∀ i c, o.Unhanded i c → t * micros < c.stamp
  past : ∀ t ∈ cursor, (t + 60) * micros ≤ o.now

structure Sound (o : Journal) : Prop where
  closed : o.Closed
  bound : ∀ i ∈ o.handed, i < o.changes.length
  offered : o.offered.1 ≤ o.changes.length

theorem Sound.grows {o o' : Journal} (h : Sound o) (hgrows : o.Grows o') : Sound o' where
  closed := h.closed.grows h.bound hgrows
  bound := by
    intro i hi
    rw [hgrows.handed] at hi
    exact (h.bound i hi).trans_le hgrows.length
  offered := by
    rw [hgrows.offered]
    exact h.offered.trans hgrows.length

theorem Behind.grows {cursor : Option ℤ} {o o' : Journal} (h : Behind cursor o)
    (hgrows : o.Grows o') : Behind cursor o' where
  unseen := by
    intro t ht i c hc
    rcases hgrows.unhanded hc with hc | ⟨-, hnow⟩
    · exact h.unseen t ht i c hc
    · have hpast := h.past t ht
      simp only [micros] at *
      omega
  past := fun t ht => (h.past t ht).trans hgrows.now

section Commit

variable [UrlLibrary]

theorem Unhanded.of_commit {o : Journal} {body : Transaction} {db : Db} {i : ℕ} {c : Change}
    (h : (o.commit body db).Unhanded i c) : o.Unhanded i c :=
  ⟨h.1, fun hi => h.2 (.inl hi)⟩

theorem Sound.commit {o : Journal} (h : Sound o) (body : Transaction) (db : Db) :
    Sound (o.commit body db) where
  closed := by
    rintro i j c d hij hc hd hid (hj | ⟨hlt, d', row, hd', hrow, hrowId, hhanded⟩)
    · exact .inl (h.closed i j c d hij hc hd hid hj)
    · cases hd.symm.trans hd'
      exact .inr ⟨by omega, c, row, hc, hrow, hrowId.trans hid.symm, hhanded⟩
  bound := by
    rintro i (hi | ⟨hlt, -⟩)
    · exact h.bound i hi
    · exact hlt.trans_le h.offered
  offered := h.offered

theorem Behind.commit {cursor : Option ℤ} {o : Journal} (h : Behind cursor o)
    (body : Transaction) (db : Db) : Behind cursor (o.commit body db) where
  unseen := fun t ht i c hc => h.unseen t ht i c (Unhanded.of_commit hc)
  past := h.past

end Commit

theorem Sound.offer {o : Journal} (h : Sound o) (request : Request) (r : Answer request) :
    Sound (o.offer request r) := by
  obtain ⟨offered, heq, hoffered⟩ := offer_eq o request r
  rw [heq]
  refine ⟨h.closed, h.bound, ?_⟩
  rcases hoffered with rfl | hlength
  · exact h.offered
  · exact hlength.le

theorem Behind.offer {cursor : Option ℤ} {o : Journal} (h : Behind cursor o)
    (request : Request) (r : Answer request) : Behind cursor (o.offer request r) := by
  obtain ⟨offered, heq, -⟩ := offer_eq o request r
  rw [heq]
  exact ⟨h.unseen, h.past⟩

/-! ## A pass step by step -/

/-- The stored cursor leaves nothing behind. -/
structure Caught (w : World Journal) : Prop where
  sound : Sound w.outside
  behind : Behind w.db.syncState.cursorChangedAfter w.outside

/-- A pass is running from this cursor, and began when the journal had `n`
changes. -/
structure Passing (n : ℕ) (cursor : Option ℤ) (w : World Journal) : Prop extends Caught w where
  cursor : w.db.syncState.cursorChangedAfter = cursor
  begun : n ≤ w.outside.changes.length

/-- Whatever was not handed over is either left for this pass, or it became
visible after the pass had begun and less than a minute before its anchor. -/
structure Anchored (n : ℕ) (anchor : Option ℤ) (o : Journal) (left : ℕ → Change → Prop) :
    Prop where
  date : ∀ t ∈ anchor, (∃ d : DateTime, d.timestamp = t) ∧ t * micros ≤ o.now
  passed : ∀ i c, o.Unhanded i c →
    (∃ t ∈ anchor, n ≤ i ∧ t * micros < c.stamp + 60 * micros) ∨ left i c

theorem Anchored.grows {n : ℕ} {anchor : Option ℤ} {o o' : Journal}
    {left : ℕ → Change → Prop} (h : Anchored n anchor o left) (hn : n ≤ o.changes.length)
    (hleft : anchor = none → ∀ i c, left i c) (hgrows : o.Grows o') :
    Anchored n anchor o' left where
  date := fun t ht => ⟨(h.date t ht).1, (h.date t ht).2.trans hgrows.now⟩
  passed := by
    intro i c hc
    rcases hgrows.unhanded hc with hc | ⟨hi, hnow⟩
    · exact h.passed i c hc
    · cases anchor with
      | none => exact .inr (hleft rfl i c)
      | some t =>
          have hpast := (h.date t rfl).2
          exact .inl ⟨t, rfl, hn.trans hi, hpast.trans_lt hnow⟩

variable (n : ℕ) (cursor : Option ℤ)

/-- A page is about to be asked for. -/
structure BeforePage (after : Option EntryId) (anchor : Option ℤ) (w : World Journal) : Prop
    extends Passing n cursor w where
  first : anchor = none → after = none
  anchored : Anchored n anchor w.outside fun _ c => ∀ a ∈ after, a < c.row.id

/-- The page covers the change, or is full and ends before its entry. -/
def OnPage (bound : ℕ) (page : List Wire.Entry) (i : ℕ) (c : Change) : Prop :=
  i < bound ∧ (∃ row ∈ page, row.id = c.row.id) ∨
    pageSize ≤ page.length ∧ ∀ row ∈ page, row.id < c.row.id

/-- A page was answered and is not yet written. -/
structure AfterPage (anchor : Option ℤ) (page : List Wire.Entry) (w : World Journal) : Prop
    extends Passing n cursor w where
  dated : anchor ≠ none
  rows : w.outside.offered.2 = page
  sorted : page.Pairwise fun r s => r.id < s.id
  anchored : Anchored n anchor w.outside (OnPage w.outside.offered.1 page)

/-- The pages have ended, at a short one where the window was covered. -/
structure AfterPages (anchor : Option ℤ) (complete : Bool) (w : World Journal) : Prop
    extends Passing n cursor w where
  dated : complete = true → anchor ≠ none
  anchored : complete = true → Anchored n anchor w.outside fun _ _ => False

/-- The entries were pulled: the next cursor, where there is one, leaves behind
only what became visible since. -/
structure Pulled (next : Option ℤ) (w : World Journal) : Prop extends Passing n cursor w where
  past : ∀ t ∈ next, (t + 60) * micros ≤ w.outside.now
  unseen : ∀ t ∈ next, ∀ i c, w.outside.Unhanded i c → n ≤ i ∧ t * micros < c.stamp

variable {n cursor}

/-! ### What the environment leaves true -/

section Stable

theorem stable_of_grows [UrlLibrary] {P : World Journal → Prop}
    (h : ∀ w w' : World Journal, w.outside.Grows w'.outside →
      w'.db.syncState = w.db.syncState → P w → P w') : journal.setting.Stable P := by
  rintro w w' ⟨hgrows, body, hbody, hdb⟩ hw
  refine h w w' hgrows ?_ hw
  rw [hdb]
  refine syncState_transaction (fun s hs => ?_) w.db
  have hreader := hbody s hs
  cases s <;> trivial

theorem Caught.grows {w w' : World Journal} (h : Caught w)
    (hgrows : w.outside.Grows w'.outside) (hstate : w'.db.syncState = w.db.syncState) :
    Caught w' where
  sound := h.sound.grows hgrows
  behind := by
    rw [hstate]
    exact h.behind.grows hgrows

theorem Passing.grows {w w' : World Journal} (h : Passing n cursor w)
    (hgrows : w.outside.Grows w'.outside) (hstate : w'.db.syncState = w.db.syncState) :
    Passing n cursor w' where
  toCaught := h.toCaught.grows hgrows hstate
  cursor := by rw [hstate, h.cursor]
  begun := h.begun.trans hgrows.length

theorem Pulled.grows {next : Option ℤ} {w w' : World Journal} (h : Pulled n cursor next w)
    (hgrows : w.outside.Grows w'.outside) (hstate : w'.db.syncState = w.db.syncState) :
    Pulled n cursor next w' where
  toPassing := h.toPassing.grows hgrows hstate
  past := fun t ht => (h.past t ht).trans hgrows.now
  unseen := by
    intro t ht i c hc
    rcases hgrows.unhanded hc with hc | ⟨hi, hnow⟩
    · exact h.unseen t ht i c hc
    · have hpast := h.past t ht
      refine ⟨h.begun.trans hi, ?_⟩
      simp only [micros] at *
      omega

variable [UrlLibrary]

theorem stable_caught : journal.setting.Stable Caught :=
  stable_of_grows fun _ _ hgrows hstate h => h.grows hgrows hstate

theorem stable_passing : journal.setting.Stable (Passing n cursor) :=
  stable_of_grows fun _ _ hgrows hstate h => h.grows hgrows hstate

theorem stable_pulled (next : Option ℤ) : journal.setting.Stable (Pulled n cursor next) :=
  stable_of_grows fun _ _ hgrows hstate h => h.grows hgrows hstate

theorem stable_beforePage (after : Option EntryId) (anchor : Option ℤ) :
    journal.setting.Stable (BeforePage n cursor after anchor) :=
  stable_of_grows fun _ _ hgrows hstate h =>
    ⟨h.toPassing.grows hgrows hstate, h.first,
      h.anchored.grows h.begun (fun hnone i c a ha => by simp [h.first hnone] at ha) hgrows⟩

theorem stable_afterPage (anchor : Option ℤ) (page : List Wire.Entry) :
    journal.setting.Stable (AfterPage n cursor anchor page) :=
  stable_of_grows fun _ _ hgrows hstate h =>
    ⟨h.toPassing.grows hgrows hstate, h.dated, hgrows.offered ▸ h.rows, h.sorted,
      hgrows.offered ▸ h.anchored.grows h.begun (fun hnone => absurd hnone h.dated) hgrows⟩

theorem stable_afterPages (anchor : Option ℤ) (complete : Bool) :
    journal.setting.Stable (AfterPages n cursor anchor complete) :=
  stable_of_grows fun _ _ hgrows hstate h =>
    ⟨h.toPassing.grows hgrows hstate, h.dated, fun hcomplete =>
      (h.anchored hcomplete).grows h.begun (fun hnone => absurd hnone (h.dated hcomplete)) hgrows⟩

end Stable

/-! ### The pages -/

section Pages

theorem Unhanded.of_offer {o : Journal} {request : Request} {r : Answer request} {i : ℕ}
    {c : Change} (h : (o.offer request r).Unhanded i c) : o.Unhanded i c := by
  obtain ⟨offered, heq, -⟩ := offer_eq o request r
  rw [heq] at h
  exact h

theorem Caught.offer {w : World Journal} (h : Caught w) (request : Request)
    (r : Answer request) : Caught (w.setOutside (w.outside.offer request r)) where
  sound := h.sound.offer request r
  behind := h.behind.offer request r

/-- A page answered for a query of this pass covers what was left for it. -/
theorem onPage_of_left {o : Journal} {after : Option EntryId} {page : List Wire.Entry}
    (hclosed : o.Closed) (hbehind : Behind cursor o)
    (hlists : Lists (pageQuery cursor after) o.changes page) {i : ℕ} {c : Change}
    (hc : o.Unhanded i c) (hleft : ∀ a ∈ after, a < c.row.id) :
    OnPage o.changes.length page i c := by
  obtain ⟨j, d, hij, hlast, hid⟩ := exists_last hc.1
  have hd : o.Unhanded j d :=
    ⟨hlast.1, fun hj => hc.2 (hclosed i j c d hij hc.1 hlast.1 hid.symm hj)⟩
  have hmatches : Matches (pageQuery cursor after) d := by
    refine ⟨fun a ha => hid ▸ hleft a ha, fun t ht => ?_⟩
    exact hbehind.unseen t (Option.mem_filter_iff.1 ht).1 j d hd
  rcases hlists.covers hlast hmatches with hrow | ⟨hfull, hbefore⟩
  · exact .inl ⟨(List.getElem?_eq_some_iff.1 hc.1).1, d.row, hrow, hid⟩
  · exact .inr ⟨hfull, fun row hrow => hid ▸ hbefore row hrow⟩

theorem afterPage_of_send {after : Option EntryId} {anchor : Option ℤ} {w : World Journal}
    {o : Journal} (h : BeforePage n cursor after anchor w) (hgrows : w.outside.Grows o)
    {response : BoundedResponse Wire.EntriesResponse} {page : Wire.EntriesResponse}
    (hhonest : HonestPage o (pageQuery cursor after) (.ok response))
    (hbody : response.body = .ok page) :
    AfterPage n cursor (anchor.or (response.serverDate.map DateTime.timestamp)) page.entries
      (w.setOutside { o with offered := (o.changes.length, page.entries) }) := by
  obtain ⟨hdate, hdated, hlists⟩ := hhonest response rfl
  have hpassing : Passing n cursor (w.setOutside o) := h.toPassing.grows hgrows rfl
  have hanchored := h.anchored.grows h.begun
    (fun hnone i c a ha => by simp [h.first hnone] at ha) hgrows
  have hbehind : Behind cursor o := hpassing.cursor ▸ hpassing.behind
  refine ⟨⟨⟨⟨hpassing.sound.closed, hpassing.sound.bound, le_rfl⟩, ?_⟩, hpassing.cursor,
    hpassing.begun⟩, ?_, rfl, (hlists page hbody).sorted, ?_, ?_⟩
  · exact ⟨hpassing.behind.unseen, hpassing.behind.past⟩
  · cases anchor with
    | some t => simp
    | none =>
        have := hdated (h.first rfl)
        obtain ⟨d, hd⟩ := Option.isSome_iff_exists.1 this
        simp [hd]
  · intro t ht
    cases anchor with
    | some s => exact hanchored.date t ht
    | none =>
        obtain ⟨d, hd, rfl⟩ := Option.map_eq_some_iff.1 ht
        refine ⟨⟨d, rfl⟩, ?_⟩
        rw [hdate d hd]
        exact Int.ediv_mul_le _ (by decide)
  · intro i c hc
    rcases hanchored.passed i c hc with ⟨t, ht, hi, hstamp⟩ | hleft
    · refine .inl ⟨t, ?_, hi, hstamp⟩
      cases ht
      rfl
    · exact .inr (onPage_of_left hpassing.sound.closed hbehind (hlists page hbody) hc hleft)

variable [UrlLibrary]

theorem Caught.commitTo {w : World Journal} (h : Caught w) {body : Transaction}
    (hbody : ∀ s ∈ body, s.KeepsState) : Caught (journal.commitTo body w) where
  sound := h.sound.commit body w.db
  behind := by
    rw [Outside.db_commitTo, syncState_transaction hbody]
    exact h.behind.commit body w.db

theorem Passing.commitTo {w : World Journal} (h : Passing n cursor w) {body : Transaction}
    (hbody : ∀ s ∈ body, s.KeepsState) : Passing n cursor (journal.commitTo body w) where
  toCaught := h.toCaught.commitTo hbody
  cursor := by rw [Outside.db_commitTo, syncState_transaction hbody, h.cursor]
  begun := h.begun

theorem keepsState_answerTx (page : Wire.EntriesResponse) (cursor : Option ℤ)
    (generation : ℤ) : ∀ s ∈ answerTx page cursor generation, s.KeepsState := by
  intro s hs
  simp only [answerTx, pageTx, List.mem_append, List.mem_map] at hs
  rcases hs with ⟨e, -, rfl⟩ | ⟨id, -, rfl⟩ <;> trivial

/-- What a written page leaves: only what it did not cover. -/
theorem follows_of_commit {after : Option EntryId} {anchor : Option ℤ}
    {page : Wire.EntriesResponse} {generation : ℤ} {w : World Journal}
    (h : AfterPage n cursor anchor page.entries w) :
    Follows (BeforePage n cursor) (AfterPages n cursor) after page anchor
      (journal.commitTo (answerTx page cursor generation) w) := by
  have hpassing := h.toPassing.commitTo (keepsState_answerTx page cursor generation)
  have hpassed : ∀ i c,
      (journal.commitTo (answerTx page cursor generation) w).outside.Unhanded i c →
        (∃ t ∈ anchor, n ≤ i ∧ t * micros < c.stamp + 60 * micros) ∨
          pageSize ≤ page.entries.length ∧ ∀ row ∈ page.entries, row.id < c.row.id := by
    intro i c hc
    rcases h.anchored.passed i c (Unhanded.of_commit hc) with hfresh | ⟨hi, row, hrow, hid⟩ | hfull
    · exact .inl hfresh
    · refine absurd (.inr ⟨hi, c, row, hc.1, ?_, hid, ?_⟩) hc.2
      · rw [h.rows]
        exact hrow
      · exact handedBy_answerTx cursor generation h.sorted hrow
    · exact .inr hfull
  have hincomplete : AfterPages n cursor anchor false
      (journal.commitTo (answerTx page cursor generation) w) :=
    ⟨hpassing, by simp, by simp⟩
  unfold Follows
  split
  · next hshort =>
      refine ⟨hpassing, fun _ => h.dated, fun _ => ⟨h.anchored.date, fun i c hc => ?_⟩⟩
      refine (hpassed i c hc).imp_right fun hfull => ?_
      exact absurd hshort (Nat.not_lt.2 hfull.1)
  · split
    · next id hlast =>
        split
        · refine ⟨hpassing, fun hnone => absurd hnone h.dated, h.anchored.date, fun i c hc => ?_⟩
          refine (hpassed i c hc).imp_right fun hfull a ha => ?_
          obtain ⟨row, hrow, rfl⟩ := Option.map_eq_some_iff.1 hlast
          cases ha
          exact hfull.2 row (List.mem_of_getLast? hrow)
        · exact hincomplete
    · exact hincomplete

variable [Endpoints]

theorem wpe_entries_pulled (client : MinifluxClient) (generation : ℤ) {w : World Journal}
    (hw : Passing n cursor w) :
    journal.setting.wpe (Setting.keeps Caught) (entries client cursor generation)
      (fun outcome => Pulled n cursor outcome.nextCursor) (fun _ => Caught) w := by
  refine wpe_entriesWithPageCap (C := AfterPages n cursor) maxPagesPerPass stable_afterPages
    stable_pulled (fun _ => stable_caught) ?_ ?_ ?_ ?_
  · intro t w hpages
    obtain ⟨⟨d, rfl⟩, hnow⟩ := (hpages.anchored rfl).date t rfl
    have hsub : saturatingSub d.timestamp cursorSkewSecs = d.timestamp - 60 :=
      d.saturatingSub_timestamp (by decide) (by decide)
    refine ⟨hpages.toPassing, ?_, ?_⟩
    · rintro t ht
      cases ht
      rw [hsub, Int.sub_add_cancel]
      exact hnow
    · rintro t ht i c hc
      cases ht
      rcases (hpages.anchored rfl).passed i c hc with ⟨t, ht, hi, hstamp⟩ | hleft
      · cases ht
        refine ⟨hi, ?_⟩
        rw [hsub]
        simp only [micros] at *
        omega
      · exact hleft.elim
  · intro w hpages
    exact absurd rfl (hpages.dated rfl)
  · intro anchor w hpages
    exact ⟨hpages.toPassing, by simp, by simp⟩
  · refine wpe_entriesPages (I := BeforePage n cursor)
      (A := fun _ sn a => AfterPage n cursor (sn.or (a.2.map DateTime.timestamp)) a.1.entries)
      stable_beforePage (fun _ _ _ => stable_afterPage _ _) stable_afterPages
      (fun _ => stable_caught) ?_ ?_ ?_ ?_ maxPagesPerPass none none .default ?_
    · rintro after anchor w hbefore r o ⟨o₁, hgrows, hanswers, rfl⟩
      have hgrown : Caught (w.setOutside o₁) := hbefore.toCaught.grows hgrows rfl
      have hcaught : Caught (w.setOutside (o₁.offer (.entries (pageQuery cursor after)) r)) :=
        hgrown.offer _ r
      refine ⟨hcaught, ?_⟩
      cases hresult : pageResult client (pageQuery cursor after) r with
      | error e => exact hcaught
      | ok a =>
          obtain ⟨page, date⟩ := a
          obtain ⟨response, rfl, hbody, rfl⟩ := pageResult_eq_ok hresult
          have hafter := afterPage_of_send hbefore hgrows hanswers hbody
          simpa [Journal.offer, hbody] using hafter
    · intro after anchor page date w hafter
      exact ⟨hafter.toCaught.commitTo (keepsState_answerTx page cursor generation),
        follows_of_commit hafter⟩
    · intro after anchor page date m w hafter
      exact ⟨hafter.toCaught, hafter.toCaught⟩
    · intro after anchor w hbefore
      exact ⟨hbefore.toPassing, by simp, by simp⟩
    · exact ⟨hw, fun _ => rfl, by simp, fun i c _ => .inr (by simp)⟩

end Pages

/-- A mirror without a cursor, to which nothing was handed over. -/
structure Fresh (w : World Journal) : Prop where
  cursor : w.db.syncState.cursorChangedAfter = none
  handed : w.outside.handed = ∅
  offered : w.outside.offered = (0, [])

theorem Fresh.caught {w : World Journal} (h : Fresh w) : Caught w where
  sound := by
    refine ⟨?_, ?_, ?_⟩
    · intro i j c d _ _ _ _ hj
      simp [h.handed] at hj
    · intro i hi
      simp [h.handed] at hi
    · simp [h.offered]
  behind := by
    rw [h.cursor]
    exact ⟨by simp, by simp⟩

theorem Caught.crash {w w' : World Journal} (hcrash : Crash w w') (h : Caught w) : Caught w' := by
  obtain ⟨hdb, houtside⟩ := hcrash
  exact ⟨houtside ▸ h.sound, hdb ▸ houtside ▸ h.behind⟩

/-! ### The other steps -/

section Steps

/-- What any step but the one that stores the cursor leaves true. -/
structure Persists [UrlLibrary] (P : World Journal → Prop) : Prop where
  caught : ∀ w, P w → Caught w
  grows : ∀ w w' : World Journal, w.outside.Grows w'.outside →
    w'.db.syncState = w.db.syncState → P w → P w'
  offer : ∀ w request (r : Answer request), P w → P (w.setOutside (w.outside.offer request r))
  commit : ∀ w body, (∀ s ∈ body, s.KeepsState) → P w → P (journal.commitTo body w)

theorem Passing.offer {w : World Journal} (h : Passing n cursor w) (request : Request)
    (r : Answer request) : Passing n cursor (w.setOutside (w.outside.offer request r)) where
  toCaught := h.toCaught.offer request r
  cursor := h.cursor
  begun := by
    obtain ⟨offered, heq, -⟩ := offer_eq w.outside request r
    rw [World.outside_setOutside, heq]
    exact h.begun

theorem Pulled.offer {next : Option ℤ} {w : World Journal} (h : Pulled n cursor next w)
    (request : Request) (r : Answer request) :
    Pulled n cursor next (w.setOutside (w.outside.offer request r)) where
  toPassing := h.toPassing.offer request r
  past := by
    obtain ⟨offered, heq, -⟩ := offer_eq w.outside request r
    rw [World.outside_setOutside, heq]
    exact h.past
  unseen := fun t ht i c hc => h.unseen t ht i c (Unhanded.of_offer hc)

variable [UrlLibrary]

theorem Pulled.commitTo {next : Option ℤ} {w : World Journal} (h : Pulled n cursor next w)
    {body : Transaction} (hbody : ∀ s ∈ body, s.KeepsState) :
    Pulled n cursor next (journal.commitTo body w) where
  toPassing := h.toPassing.commitTo hbody
  past := h.past
  unseen := fun t ht i c hc => h.unseen t ht i c (Unhanded.of_commit hc)

theorem persists_caught : Persists Caught where
  caught := fun _ h => h
  grows := fun _ _ hgrows hstate h => h.grows hgrows hstate
  offer := fun _ request r h => h.offer request r
  commit := fun _ _ hbody h => h.commitTo hbody

theorem persists_passing : Persists (Passing n cursor) where
  caught := fun _ h => h.toCaught
  grows := fun _ _ hgrows hstate h => h.grows hgrows hstate
  offer := fun _ request r h => h.offer request r
  commit := fun _ _ hbody h => h.commitTo hbody

theorem persists_pulled (next : Option ℤ) : Persists (Pulled n cursor next) where
  caught := fun _ h => h.toCaught
  grows := fun _ _ hgrows hstate h => h.grows hgrows hstate
  offer := fun _ request r h => h.offer request r
  commit := fun _ _ hbody h => h.commitTo hbody

/-- A step that leaves the bookkeeping alone, as a whole. -/
theorem Persists.wpe {P : World Journal → Prop} (hP : Persists P) {α : Type} {p : Action α}
    (hp : Program.CallsE (Op.Commits Statement.KeepsState) p) {w : World Journal} (hw : P w) :
    journal.setting.wpe (Setting.keeps Caught) p (fun _ => P) (fun _ => Caught) w := by
  have hkept : ∀ op, Op.Commits Statement.KeepsState op → ∀ w r w',
      journal.setting.act op w r w' → P w → P w' := by
    intro op hop w r w' hact hw
    cases op with
    | query q =>
        obtain ⟨rfl, -⟩ := Outside.act_query hact
        exact hw
    | transact body =>
        obtain ⟨-, rfl⟩ | ⟨-, rfl⟩ := Outside.act_transact hact
        · exact hP.commit w body hop hw
        · exact hw
    | send t request =>
        obtain ⟨-, ⟨o₁, hgrows, -, rfl⟩, rfl⟩ := Outside.act_send hact
        exact hP.offer (w.setOutside o₁) request r (hP.grows w (w.setOutside o₁) hgrows rfl hw)
    | now =>
        obtain ⟨-, rfl, rfl⟩ := hact
        exact hw
    | knownVersion cell =>
        obtain ⟨-, rfl⟩ := hact
        exact hw
    | rememberVersion cell version =>
        cases hact
        exact hP.grows w _ (Journal.Grows.refl _) rfl hw
  refine Setting.wpe_mono (fun _ _ h => h) (fun _ w h => hP.caught w h)
    (Setting.wpe_of_calls (stable_of_grows hP.grows) ?_ hp hw)
  intro op hop w r w' hact hw
  have hw' := hkept op hop w r w' hact hw
  exact ⟨hP.caught _ hw', hw'⟩

variable [Endpoints] [IconDecoder]

/-- A pass handed over everything there was when it began, if it stores a
cursor of its own. -/
structure Delivered (n : ℕ) (report : SyncReport) (w : World Journal) : Prop extends Caught w where
  handed : report.pull.nextCursor.isSome = true → ∀ i < n, i ∈ w.outside.handed

theorem passRules (client : MinifluxClient) (options : SyncOptions) (n : ℕ) :
    Sync.PassRules journal (Setting.keeps Caught) client options
      (fun w => Caught w ∧ n ≤ w.outside.changes.length)
      (fun state => Passing n state.cursorChangedAfter)
      (fun state _ => Passing n state.cursorChangedAfter)
      (fun state _ next => Pulled n state.cursorChangedAfter next)
      (Delivered n) (fun _ => Caught) where
  stable_start := stable_of_grows fun _ _ hgrows hstate h =>
    ⟨h.1.grows hgrows hstate, h.2.trans hgrows.length⟩
  stable_read := fun _ => stable_passing
  stable_running := fun _ _ => stable_passing
  stable_pulled := fun _ _ next => stable_pulled next
  stable_end := fun _ => stable_of_grows fun _ _ hgrows hstate h =>
    ⟨h.toCaught.grows hgrows hstate, hgrows.handed ▸ h.handed⟩
  stable_error := fun _ => stable_caught
  read := fun _ h => ⟨fun _ => h.1, ⟨h.1, rfl, h.2⟩, fun _ => h.1⟩
  now := by
    rintro state w h t o rfl
    exact ⟨h.toCaught, h⟩
  replay := by
    intro state now w h
    refine persists_passing.wpe ?_ h
    unfold Sync.replayStep
    split
    · exact .pure _
    · exact Replay.calls_flush client (fun _ => trivial) (fun _ => trivial) fun _ _ => trivial
  version := fun state now ttl w h =>
    persists_passing.wpe (commits_of_reads (Sync.calls_resolveVersion client state now ttl)) h
  taxonomy := fun state _ generation w h =>
    persists_passing.wpe (commits_of_fetches (fetches_taxonomy client generation
      (fun _ _ => trivial) (fun _ _ => trivial) fun _ => trivial)) h
  entries := fun state _ generation w h => wpe_entries_pulled client generation h
  reconcile := fun state now next version interval w h =>
    (persists_pulled next).wpe
      (commits_of_fetches
        (Sync.fetches_reconcileStep client state version now interval fun _ => trivial)) h
  icons := fun state _ next limit w h =>
    (persists_pulled next).wpe (commits_of_fetches (Sync.fetches_fetchIcons client limit
      (fun _ => trivial) (fun _ => trivial) fun _ => trivial)) h
  prune := fun state now next w h =>
    (persists_pulled next).wpe
      (commits_of_fetches (Sync.fetches_pruneStep options now fun _ => trivial)) h
  commit := by
    intro state now report version checkedAt w h
    have hcaught : Caught (journal.commitTo
        [.setSyncState (Sync.nextState state now report version checkedAt)] w) := by
      refine ⟨h.sound.commit _ w.db, Behind.commit ?_ _ w.db⟩
      have hcursor : (Transaction.exec
          [.setSyncState (Sync.nextState state now report version checkedAt)]
            w.db).syncState.cursorChangedAfter =
          report.pull.nextCursor.or state.cursorChangedAfter := rfl
      rw [Outside.db_commitTo, hcursor]
      cases hnext : report.pull.nextCursor with
      | none => exact h.cursor ▸ h.behind
      | some t =>
          rw [hnext] at h
          exact ⟨fun t ht i c hc => (h.unseen t ht i c hc).2, h.past⟩
    refine ⟨hcaught, hcaught, fun hnext i hi => ?_⟩
    obtain ⟨t, ht⟩ := Option.isSome_iff_exists.1 hnext
    by_contra hunhanded
    have hlength : i < w.outside.changes.length := hi.trans_le h.begun
    have hold : w.outside.Unhanded i w.outside.changes[i] :=
      Unhanded.of_commit ⟨List.getElem?_eq_getElem hlength, hunhanded⟩
    exact Nat.not_le.2 hi (h.unseen t ht i _ hold).1
  commit_fails := fun _ _ _ _ _ _ h => ⟨h.toCaught, h.toCaught⟩
  refused := fun _ _ _ _ h => ⟨h.toCaught, fun hnext => by simp [SyncReport.default,
    PullOutcome.default] at hnext⟩

/-! ## Runs -/

theorem wp_job {α : Type} {p : Program Op Op.Ans α} (hp : Sync.Job α p) {w : World Journal}
    (hw : Caught w) : journal.setting.wp (Setting.keeps Caught) p (fun _ => Caught) w := by
  cases hp with
  | flush client =>
      have hflush := persists_caught.wpe (Replay.calls_flush client (fun _ => trivial)
        (fun _ => trivial) fun _ _ => trivial) hw
      refine Setting.wp_mono ?_ hflush
      rintro (e | outcome) w' h
      · exact h
      · exact h
  | sync client options =>
      refine Setting.wp_mono ?_ (Sync.wpe_sync (passRules client options 0) ⟨hw, Nat.zero_le _⟩)
      rintro (e | report) w' h
      · exact h
      · exact h.toCaught

/-- Wherever the passes, their failures and the server's changes lead: the
stored cursor is older than every change not handed over, and a pass that stores
a cursor has handed over every change visible when it started. -/
theorem no_gaps {w₀ : World Journal} (hw₀ : Fresh w₀) :
    (∀ w, journal.setting.Visits Sync.Job Crash w₀ w →
      ∀ t ∈ w.db.syncState.cursorChangedAfter, ∀ (i : ℕ) (c : Change),
        w.outside.changes[i]? = some c → i ∉ w.outside.handed → t * micros < c.stamp) ∧
    ∀ (client : MinifluxClient) (options : SyncOptions) (w₁ w₂ : World Journal)
      (report : SyncReport), journal.setting.Idle Sync.Job Crash w₀ w₁ →
      journal.setting.Reaches ((Sync.sync client options).run, w₁) (.done (.ok report), w₂) →
      report.pull.nextCursor.isSome = true →
      ∀ i < w₁.outside.changes.length, i ∈ w₂.outside.handed := by
  constructor
  · intro w hw t ht i c hc hi
    have hcaught := hw.invariant stable_caught (fun _ _ => Caught.crash)
      (fun _ _ hp _ => wp_job hp) hw₀.caught
    exact hcaught.behind.unseen t ht i c ⟨hc, hi⟩
  · intro client options w₁ w₂ report hw₁ hrun hnext
    have hcaught := hw₁.invariant stable_caught (fun _ _ => Caught.crash)
      (fun _ _ hp _ => wp_job hp) hw₀.caught
    exact (Setting.wpe_finished (Sync.wpe_sync
      (passRules client options w₁.outside.changes.length) ⟨hcaught, le_rfl⟩) hrun).handed hnext

end Steps

/-! ### One entry, pulled by the first pass -/

section FirstPass

open scoped Reader

/-- The server at second 100, after one change at second 10. -/
def oneChange : Journal where
  now := 100 * micros
  changes := [⟨10 * micros, wireEntry 7⟩]
  offered := (0, [])
  handed := ∅
  spoiled := False

/-- The journal's server, as one without feeds that hides its version. -/
theorem bare_journal (client : MinifluxClient) (time : DateTime) :
    Sync.Bare journal client time where
  now := fun _ => rfl
  version := fun o => ⟨.cancelled, o, Grows.refl o, trivial, rfl⟩
  categories := fun o => ⟨o, Grows.refl o, trivial, rfl⟩
  feeds := fun o => ⟨o, Grows.refl o, trivial, rfl⟩

/-- The first pass of an empty mirror hands over the one change there is. -/
theorem no_gaps_firstPass :
    ∃ (report : SyncReport) (w : World Journal),
      journal.setting.Reaches ((Sync.sync readerClient
        withoutIcons).run, ⟨Db.empty, fun _ => none, oneChange⟩)
        (.done (.ok report), w) ∧ 0 ∈ w.outside.handed := by
  have hsend : journal.send readerClient.transport (.entries (pageQuery none none))
      (journal.commit [] Db.empty oneChange)
      (answered 200 ⟨[wireEntry 7]⟩ (some (secondsAfter 100 (by decide))))
      (offer (journal.commit [] Db.empty oneChange) (.entries (pageQuery none none))
        (answered 200 ⟨[wireEntry 7]⟩ (some (secondsAfter 100 (by decide))))) := by
    refine ⟨_, Grows.refl _, ?_, rfl⟩
    rintro response hr
    cases hr
    refine ⟨?_, fun _ => rfl, ?_⟩
    · rintro d hd
      cases hd
      decide
    · rintro page hpage
      cases hpage
      exact lists_singleton (by decide) ⟨by simp [pageQuery, EntriesQuery.setAfterEntryId],
        by simp [pageQuery, EntriesQuery.setChangedAfter, EntriesQuery.setAfterEntryId]⟩
  have hicons : withoutIcons.iconsPerPass ≤ 0 := le_rfl
  obtain ⟨report, w₁, hnext, -, hrun⟩ :=
    (bare_journal readerClient (secondsAfter 100 (by decide))).reaches_sync
      (w := ⟨Db.empty, fun _ => none, oneChange⟩) hicons rfl rfl rfl (by decide) hsend (by decide)
  have hfresh : Fresh ⟨Db.empty, fun _ => none, oneChange⟩ := ⟨rfl, rfl, rfl⟩
  refine ⟨report, _, hrun, (no_gaps hfresh).2 _ _ _ _ _ .start hrun ?_ 0 (by decide)⟩
  rw [hnext]
  rfl

end FirstPass

end Pull

end Vuo
