import Vuo.Foundation.Trace
import Vuo.Model.Announcer
import Vuo.Verification.Mirror.Equations

/-!
# What is news stays news once

The mark of an arrival is set where an entry is inserted and nowhere else, and
an acknowledgement takes it away for as long as the entry stays.
-/

namespace Vuo

open Foundation Outbox

namespace Store

/-! ## The mark -/

/-- The mark of an entry, if the mirror holds it. -/
def mark (id : EntryId) (db : Db) : Option Bool :=
  (db.entries.find? id).map EntryRow.arrived

theorem mark_isSome_iff {id : EntryId} {db : Db} :
    (mark id db).isSome = true ↔ id ∈ heldIds db := by
  rw [mark, Option.isSome_map, mem_heldIds]

theorem mark_of_entries {db db' : Db} (h : db'.entries = db.entries) (id : EntryId) :
    mark id db' = mark id db := by
  rw [mark, mark, h]

theorem mark_updateEntry {id : EntryId} {f : EntryRow → EntryRow} {hf : ∀ e, (f e).id = e.id}
    (hmark : ∀ e, (f e).arrived = e.arrived) (db : Db) (j : EntryId) :
    mark j (db.updateEntry id f hf) = mark j db := by
  rw [mark, mark, entries_updateEntry]
  cases db.entries.find? j with
  | none => rfl
  | some e => by_cases hj : j = id <;> simp [hj, hmark]

theorem mark_queue (id : EntryId) (v : DesiredValue) (now : ℤ) (db : Db) (j : EntryId) :
    mark j (queue id v now db) = mark j db := by
  have hmark : ∀ e, (v.applyTo e).arrived = e.arrived := by
    intro e
    cases v <;> rfl
  rw [queue]
  exact mark_updateEntry hmark _ j

theorem mark_queueRead (ids : List EntryId) (now : ℤ) (db : Db) (j : EntryId) :
    mark j (queueRead ids now db) = mark j db := by
  induction ids generalizing db with
  | nil => rfl
  | cons id ids ih => exact (ih _).trans (mark_queue id _ now db j)

/-- An acknowledgement clears the marks of the entries it names. -/
theorem mark_acknowledgeArrivals (ids : List EntryId) (db : Db) (j : EntryId) :
    mark j (acknowledgeArrivals ids db) =
      (mark j db).map fun b => b && !decide (j ∈ ids) := by
  induction ids generalizing db with
  | nil => cases hj : mark j db <;> simp [acknowledgeArrivals, hj]
  | cons id ids ih =>
      have hstep : mark j (db.updateEntry id (fun e => { e with arrived := false })
          (fun _ => rfl)) = (mark j db).map fun b => b && !decide (j = id) := by
        rw [mark, mark, entries_updateEntry, Option.map_map, Option.map_map]
        congr 1
        funext e
        by_cases hj : j = id <;> simp [hj]
      have hcons := ih (db.updateEntry id (fun e => { e with arrived := false }) (fun _ => rfl))
      refine hcons.trans ?_
      rw [hstep, Option.map_map]
      congr 1
      funext b
      by_cases hj : j = id <;> simp [hj]

theorem mark_acknowledgeAllArrivals (db : Db) (j : EntryId) :
    mark j (acknowledgeAllArrivals db) = (mark j db).map fun _ => false := by
  rw [mark, mark, acknowledgeAllArrivals, Table.find?_update, Option.map_map, Option.map_map]
  congr 1
  funext e
  by_cases he : e.arrived = true <;> simp [he]

/-- A deletion keeps the marks of the entries it leaves. -/
theorem mark_deleteEntriesWhere (p : EntryRow → Bool) (db : Db) (j : EntryId) :
    mark j (db.deleteEntriesWhere p) = none ∨ mark j (db.deleteEntriesWhere p) = mark j db := by
  rw [mark, mark, entries_deleteEntriesWhere]
  cases db.entries.find? j with
  | none => exact .inl rfl
  | some e => by_cases he : p e = true <;> simp [Option.filter, he]

/-- An upsert sets a mark only where it inserts. -/
theorem mark_upsertEntry (e : Entry) (generation : ℤ) (arrival : Arrival) (db : Db)
    (j : EntryId) :
    mark j (upsertEntry e generation arrival db) =
      if e.id = j then
        some ((mark j db).getD (arrival = .announce && resolveStatus e db = .unread))
      else mark j db := by
  rw [mark, mark, entries_upsertEntry]
  by_cases hj : e.id = j
  · subst hj
    simp only [if_true, Option.map_some, upserted]
    cases db.entries.find? e.id <;> rfl
  · simp only [hj, if_false]

theorem entries_placeholderCategory (id : CategoryId) (db : Db) :
    (placeholderCategory id db).entries = db.entries :=
  (outbox_placeholderCategory id db).2

/-- What the announcements are made of. -/
theorem mem_arrivals {db : Db} {id : EntryId} :
    id ∈ arrivals db ↔ ∃ r, db.entries.find? id = some r ∧ r.arrived = true ∧
      r.status = .unread ∧ hidden r.feedId db = false := by
  simp only [arrivals, List.mem_map, List.mem_insertionSort, List.mem_filter, Bool.and_eq_true,
    decide_eq_true_eq, Bool.not_eq_true', Table.find?_eq_some, Table.mem_def]
  constructor
  · rintro ⟨r, ⟨hr, ⟨harrived, hstatus⟩, hhidden⟩, hid⟩
    exact ⟨r, ⟨hr, hid⟩, harrived, hstatus, hhidden⟩
  · rintro ⟨r, ⟨hr, hid⟩, harrived, hstatus, hhidden⟩
    exact ⟨r, ⟨hr, ⟨harrived, hstatus⟩, hhidden⟩, hid⟩

/-- In no hidden feed and in no hidden category. -/
theorem hidden_eq_false {feedId : FeedId} {db : Db} :
    hidden feedId db = false ↔ ∀ f ∈ db.feeds, f.id = feedId → f.hideGlobally = false ∧
      ∀ c ∈ db.categories, f.categoryId = some c.id → c.hideGlobally = false := by
  simp [hidden, Table.mem_def]

end Store

open Store

/-! ## Statements -/

/-- The statement brings the entry into the mirror, to be announced. -/
def Statement.Inserts (s : Statement) (id : EntryId) (db : Db) : Prop :=
  match s with
  | .upsertEntry e _ .announce => e.id = id ∧ id ∉ heldIds db
  | _ => False

def Statement.Acknowledges (s : Statement) (id : EntryId) : Prop :=
  match s with
  | .acknowledgeArrivals ids => id ∈ ids
  | .acknowledgeAllArrivals => True
  | _ => False

/-- A statement that leaves the entries' marks to what they were. -/
theorem mark_exec_of_bookkeeping {s : Statement} (hupsert : ∀ e g a, s ≠ .upsertEntry e g a)
    (hack : ∀ id, ¬s.Acknowledges id) (db : Db) (id : EntryId) :
    mark id (s.exec db) = none ∨ mark id (s.exec db) = mark id db := by
  cases s with
  | queue entryId value now => exact .inr (mark_queue _ _ _ db id)
  | queueMarkFeedRead feedId now => exact .inr (mark_queueRead _ now db id)
  | queueMarkCategoryRead categoryId now => exact .inr (mark_queueRead _ now db id)
  | confirm batch =>
      refine .inr (mark_of_entries ?_ id)
      have hconfirm : (Statement.confirm batch).exec db = (confirm batch db).2 := rfl
      rw [hconfirm, confirm_db]
  | discard batch =>
      refine .inr (mark_of_entries ?_ id)
      have hdiscard : (Statement.discard batch).exec db = (confirm batch db).2 := rfl
      rw [hdiscard, confirm_db]
  | recordFailure batch error =>
      refine .inr (mark_of_entries ?_ id)
      have hrecord : (Statement.recordFailure batch error).exec db =
        recordFailure batch error db := rfl
      rw [hrecord, recordFailure_db]
  | upsertFeed f generation =>
      refine .inr (mark_of_entries ?_ id)
      simp only [Statement.exec, Statement.run, upsertFeed]
      split
      · exact entries_placeholderCategory _ db
      · rfl
  | deleteFeed feedId => exact mark_deleteEntriesWhere _ _ id
  | upsertEntry e generation arrival => exact (hupsert _ _ _ rfl).elim
  | deleteEntry entryId => exact mark_deleteEntriesWhere _ _ id
  | pruneEntries cutoff => exact mark_deleteEntriesWhere _ _ id
  | storeScraped entryId content =>
      exact .inr (mark_updateEntry
        (f := fun e => { e with content := content, contentScraped := true }) (fun _ => rfl) db id)
  | acknowledgeArrivals ids =>
      cases ids with
      | nil => exact .inr rfl
      | cons j ids => exact (hack j List.mem_cons_self).elim
  | acknowledgeAllArrivals => exact (hack id trivial).elim
  | applyFeedPatch feedId update =>
      obtain ⟨title, categoryId, crawler, disabled, hideGlobally⟩ := update
      refine .inr (mark_of_entries ?_ id)
      cases categoryId with
      | none =>
          cases title <;> cases crawler <;> cases disabled <;> cases hideGlobally <;> rfl
      | some category =>
          have hplace := entries_placeholderCategory category
          cases title <;> cases crawler <;> cases disabled <;> cases hideGlobally <;>
            exact hplace _
  | _ => exact .inr rfl

/-- A mark that stands after a statement stood before and was not acknowledged,
or the statement inserted the entry. -/
theorem mark_exec {s : Statement} {db : Db} {id : EntryId}
    (h : mark id (s.exec db) = some true) :
    (mark id db = some true ∧ ¬s.Acknowledges id) ∨ s.Inserts id db := by
  by_cases hupsert : ∃ e g a, s = .upsertEntry e g a
  · obtain ⟨e, g, a, rfl⟩ := hupsert
    have hexec : (Statement.upsertEntry e g a).exec db = upsertEntry e g a db := rfl
    rw [hexec, mark_upsertEntry] at h
    by_cases hid : e.id = id
    · rw [if_pos hid] at h
      cases hmark : mark id db with
      | some b =>
          rw [hmark] at h
          exact .inl ⟨by simpa using h, not_false⟩
      | none =>
          rw [hmark] at h
          have hheld : id ∉ heldIds db := by
            rw [← mark_isSome_iff, hmark]
            exact Bool.false_ne_true
          cases a with
          | announce => exact .inr ⟨hid, hheld⟩
          | quiet => simp at h
    · rw [if_neg hid] at h
      exact .inl ⟨h, not_false⟩
  · by_cases hack : ∃ j, s.Acknowledges j
    · obtain ⟨j, hj⟩ := hack
      cases s with
      | acknowledgeArrivals ids =>
          have hexec : (Statement.acknowledgeArrivals ids).exec db = acknowledgeArrivals ids db :=
            rfl
          rw [hexec, mark_acknowledgeArrivals] at h
          obtain ⟨b, hb, hmark⟩ := Option.map_eq_some_iff.1 h
          simp only [Bool.and_eq_true, Bool.not_eq_true', decide_eq_false_iff_not] at hmark
          exact .inl ⟨hmark.1 ▸ hb, hmark.2⟩
      | acknowledgeAllArrivals =>
          have hexec : Statement.acknowledgeAllArrivals.exec db = acknowledgeAllArrivals db := rfl
          rw [hexec, mark_acknowledgeAllArrivals] at h
          obtain ⟨b, -, hmark⟩ := Option.map_eq_some_iff.1 h
          cases hmark
      | _ => exact hj.elim
    · push Not at hupsert hack
      rcases mark_exec_of_bookkeeping hupsert hack db id with hnone | hsame
      · rw [hnone] at h
        cases h
      · exact .inl ⟨hsame ▸ h, hack id⟩

namespace Notify

/-! ## What a review says -/

/-- A review asks for a banner exactly if an arrival is not covered yet. -/
theorem review_banner_iff {arrivals : List EntryId} {unread : ℕ} {a : Announcer} :
    (a.review arrivals unread).1 = .show true ↔ ∃ id ∈ arrivals, id ∉ a.showing := by
  simp only [Announcer.review]
  cases arrivals with
  | nil =>
      simp only [List.isEmpty_nil, if_true, Announcer.withdraw]
      split <;> simp
  | cons id ids =>
      simp only [List.isEmpty_cons, Bool.false_eq_true, if_false]
      have hany : (id :: ids).any (fun id => !a.showing.contains id) = true ↔
          ∃ j ∈ id :: ids, j ∉ a.showing := by
        simp only [List.any_eq_true, Bool.not_eq_true', List.contains_eq_mem,
          decide_eq_false_iff_not]
      rw [← hany]
      by_cases hnews : (id :: ids).any (fun id => !a.showing.contains id) = true
      · exact iff_of_true (if_pos hnews) hnews
      · refine iff_of_false ?_ hnews
        rw [if_neg hnews]
        split <;> simp

/-- A review covers the arrivals it was given. -/
theorem review_showing (arrivals : List EntryId) (unread : ℕ) (a : Announcer) :
    (a.review arrivals unread).2.showing = arrivals := by
  simp only [Announcer.review]
  cases arrivals with
  | nil =>
      simp only [List.isEmpty_nil, if_true, Announcer.withdraw]
      split
      · next h => exact List.isEmpty_iff.1 h
      · rfl
  | cons id ids => rfl

namespace Arrivals

abbrev Step := Taken Event Arrivals

abbrev Trace := List Step

/-- The step brings the entry into the mirror, to be announced. -/
def Inserts (x : Step) (id : EntryId) : Prop :=
  match x.event with
  | .write s => s.Inserts id x.before.db
  | _ => False

/-- The step acknowledges the entry. -/
def Acknowledges (x : Step) (id : EntryId) : Prop :=
  match x.event with
  | .write s => s.Acknowledges id
  | .review active _ readable written => active = true ∧ readable = true ∧ written = true
  | .dismissed written => written = true ∧ id ∈ x.before.announcer.showing
  | _ => False

/-- What a step tells the home screen. -/
def said (x : Step) : Announcement :=
  match x.event with
  | .review active enabled readable written =>
      (x.before.decide active enabled readable written).1
  | .withdraw => x.before.announcer.withdraw.1
  | _ => .unchanged

/-! ## One step -/

/-- The marks after a dismissal: exactly what the notification covered is
acknowledged, if the write goes through. -/
theorem mark_dismissed (written : Bool) (a : Arrivals) (id : EntryId) :
    mark id (a.dismissed written).db = (mark id a.db).map fun b =>
      b && !(written && a.announcer.showing.contains id) := by
  have hdb : (a.dismissed written).db =
      if a.announcer.showing.isEmpty then a.db
      else if written then acknowledgeArrivals a.announcer.showing a.db else a.db := rfl
  rw [hdb]
  by_cases hempty : a.announcer.showing.isEmpty = true
  · rw [if_pos hempty, List.isEmpty_iff.1 hempty]
    cases mark id a.db <;> simp
  · rw [if_neg hempty]
    cases written with
    | false =>
        rw [if_neg Bool.false_ne_true]
        cases mark id a.db <;> simp
    | true => simpa using mark_acknowledgeArrivals a.announcer.showing a.db id

theorem db_decide (active enabled readable written : Bool) (a : Arrivals) :
    (a.decide active enabled readable written).2.db =
      if active then acknowledgeEverything readable written a.db else a.db := by
  cases active <;> cases enabled <;> cases readable <;> rfl

/-- Nothing is marked where nothing was found to acknowledge. -/
theorem mark_of_not_anyArrivals {db : Db} (h : Store.anyArrivals db = false) (id : EntryId) :
    mark id db = (mark id db).map fun _ => false := by
  rw [mark]
  cases hr : db.entries.find? id with
  | none => rfl
  | some r =>
      have hr' := Table.mem_of_find? hr
      simp only [Store.anyArrivals, List.any_eq_false, Bool.not_eq_true] at h
      simpa using h r hr'

/-- The marks after a look at the mirror. -/
theorem mark_decide (active enabled readable written : Bool) (a : Arrivals) (id : EntryId) :
    mark id (a.decide active enabled readable written).2.db = (mark id a.db).map fun b =>
      b && !(active && readable && written) := by
  rw [db_decide]
  by_cases hack : active = true ∧ readable = true ∧ written = true
  · obtain ⟨rfl, rfl, rfl⟩ := hack
    simp only [if_true, acknowledgeEverything, Bool.true_and, Bool.and_true, Bool.not_true,
      Bool.and_false]
    by_cases hany : Store.anyArrivals a.db = true
    · rw [if_pos hany, mark_acknowledgeAllArrivals]
    · rw [if_neg hany]
      exact mark_of_not_anyArrivals (Bool.not_eq_true _ ▸ hany) id
  · have hnot : (active && readable && written) = false := by
      simpa [← and_assoc] using hack
    have hsame : (if active then acknowledgeEverything readable written a.db else a.db) = a.db := by
      cases active <;> cases readable <;> cases written <;>
        simp_all [acknowledgeEverything]
    rw [hsame, hnot]
    cases mark id a.db <;> simp

/-- A mark that stands after a step stood before and was not acknowledged, or
the step inserted the entry. -/
theorem mark_step {x : Step} (hstep : step x.event x.before = some x.after) {id : EntryId}
    (h : mark id x.after.db = some true) :
    (mark id x.before.db = some true ∧ ¬Acknowledges x id) ∨ Inserts x id := by
  obtain ⟨a, e, a'⟩ := x
  have hclear : ∀ c : Bool, mark id a'.db = (mark id a.db).map (fun b => b && !c) →
      mark id a.db = some true ∧ c = false := by
    intro c hmark
    have h : mark id a'.db = some true := h
    rw [hmark] at h
    obtain ⟨b, hb, hc⟩ := Option.map_eq_some_iff.1 h
    simp only [Bool.and_eq_true, Bool.not_eq_true'] at hc
    exact ⟨hc.1 ▸ hb, hc.2⟩
  cases e with
  | write s =>
      obtain rfl : { a with db := s.exec a.db } = a' := Option.some.inj hstep
      exact mark_exec h
  | review active enabled readable written =>
      obtain rfl : (a.decide active enabled readable written).2 = a' := Option.some.inj hstep
      obtain ⟨hmark, hc⟩ := hclear _ (mark_decide active enabled readable written a id)
      refine .inl ⟨hmark, ?_⟩
      rintro ⟨rfl, rfl, rfl⟩
      cases hc
  | withdraw =>
      obtain rfl : { a with announcer := a.announcer.withdraw.2 } = a' := Option.some.inj hstep
      exact .inl ⟨h, not_false⟩
  | dismissed written =>
      obtain rfl : a.dismissed written = a' := Option.some.inj hstep
      obtain ⟨hmark, hc⟩ := hclear _ (mark_dismissed written a id)
      refine .inl ⟨hmark, ?_⟩
      rintro ⟨rfl, hshowing⟩
      have hcontains : a.announcer.showing.contains id = true := by simpa using hshowing
      rw [hcontains] at hc
      cases hc
  | restart =>
      obtain rfl : { a with announcer := .default } = a' := Option.some.inj hstep
      exact .inl ⟨h, not_false⟩

/-! ## Whole runs -/

/-- The entry was inserted to be announced and was not acknowledged since. -/
def Fresh (t : Trace) (id : EntryId) : Prop :=
  ∃ t₁ x t₂, t = t₁ ++ x :: t₂ ∧ Inserts x id ∧ ∀ y ∈ t₂, ¬Acknowledges y id

theorem Fresh.append {t : Trace} {x : Step} {id : EntryId} (h : Fresh t id)
    (hx : ¬Acknowledges x id) : Fresh (t ++ [x]) id := by
  obtain ⟨t₁, w, t₂, rfl, hinserts, hnone⟩ := h
  refine ⟨t₁, w, t₂ ++ [x], by simp, hinserts, ?_⟩
  intro y hy
  rcases List.mem_append.1 hy with hy | hy
  · exact hnone y hy
  · exact List.mem_singleton.1 hy ▸ hx

variable {t : Trace} {a : Arrivals} {id : EntryId}

/-- A mark that stands was set by an insertion, and nobody acknowledged it. -/
theorem fresh_of_mark (hrun : Run step start t a) (h : mark id a.db = some true) :
    Fresh t id := by
  induction hrun with
  | start => cases h
  | @step t a a' e hrun hstep ih =>
      rcases mark_step (x := ⟨a, e, a'⟩) hstep h with ⟨hmark, hack⟩ | hinserts
      · exact (ih hmark).append hack
      · exact ⟨t, _, [], rfl, hinserts, by simp⟩

/-- An insertion is of an entry the mirror does not hold, and acknowledges
nothing. -/
theorem Inserts.unheld {x : Step} (h : Inserts x id) :
    id ∉ heldIds x.before.db ∧ ¬Acknowledges x id := by
  obtain ⟨b, e, b'⟩ := x
  cases e with
  | write s =>
      cases s with
      | upsertEntry e g arrival =>
          cases arrival with
          | announce => exact ⟨h.2, not_false⟩
          | quiet => exact h.elim
      | _ => exact h.elim
  | _ => exact h.elim

/-- An acknowledged entry that stays in the mirror is not marked again. -/
theorem not_marked_of_acknowledged (hrun : Run step start t a) {t₁ t₂ : Trace} {x : Step}
    (ht : t = t₁ ++ x :: t₂) (hack : Acknowledges x id)
    (hheld : ∀ y ∈ x :: t₂, id ∈ heldIds y.after.db) : mark id a.db ≠ some true := by
  induction hrun generalizing t₂ with
  | start => simp at ht
  | @step t b b' e hrun hstep ih =>
      intro hmark
      rcases mark_step (x := ⟨b, e, b'⟩) hstep hmark with ⟨hbefore, hnot⟩ | hinserts
      · rcases List.eq_nil_or_concat t₂ with rfl | ⟨t₂, y, rfl⟩
        · obtain ⟨-, hx⟩ := List.append_inj' ht rfl
          cases hx
          exact hnot hack
        · have ht' : t ++ [⟨b, e, b'⟩] = (t₁ ++ x :: t₂) ++ [y] := by rw [ht]; simp
          obtain ⟨rfl, -⟩ := List.append_inj' ht' rfl
          refine ih rfl (fun z hz => hheld z ?_) hbefore
          rcases List.mem_cons.1 hz with rfl | hz
          · exact List.mem_cons_self
          · exact List.mem_cons_of_mem _ (by simp [hz])
      · rcases List.eq_nil_or_concat t₂ with rfl | ⟨t₂, y, rfl⟩
        · obtain ⟨-, hx⟩ := List.append_inj' ht rfl
          cases hx
          exact hinserts.unheld.2 hack
        · have ht' : t ++ [⟨b, e, b'⟩] = (t₁ ++ x :: t₂) ++ [y] := by rw [ht]; simp
          obtain ⟨rfl, hy⟩ := List.append_inj' ht' rfl
          cases hy
          -- the step before left the entry in the mirror, so nothing inserts it
          have hlast : id ∈ heldIds b.db := by
            rcases List.eq_nil_or_concat (x :: t₂) with hnil | ⟨t₃, z, hz⟩
            · cases hnil
            · rw [hz, List.concat_eq_append, ← List.append_assoc] at hrun
              obtain ⟨-, -, rfl⟩ := hrun.of_append
              refine hheld z ?_
              have hmem : z ∈ x :: t₂ := by rw [hz]; simp
              rcases List.mem_cons.1 hmem with rfl | hmem
              · exact List.mem_cons_self
              · exact List.mem_cons_of_mem _ (by simp [hmem])
          exact hinserts.unheld.1 hlast

/-- Only a look at the mirror from outside the application pops a banner. -/
theorem said_banner_iff {x : Step} :
    said x = .show true ↔ ∃ written, x.event = .review false true true written ∧
      ∃ id ∈ Store.arrivals x.before.db, id ∉ x.before.announcer.showing := by
  have hwithdraw : ∀ b : Announcer, b.withdraw.1 ≠ .show true := by
    intro b
    simp only [Announcer.withdraw]
    split <;> simp
  obtain ⟨b, e, b'⟩ := x
  cases e with
  | review active enabled readable written =>
      by_cases hlook : active = false ∧ enabled = true ∧ readable = true
      · obtain ⟨rfl, rfl, rfl⟩ := hlook
        constructor
        · intro h
          exact ⟨written, rfl, review_banner_iff.1 h⟩
        · rintro ⟨-, -, h⟩
          exact review_banner_iff.2 h
      · refine iff_of_false ?_ ?_
        · cases active
          · cases enabled
            · exact hwithdraw b.announcer
            · cases readable
              · exact fun h => by cases h
              · exact (hlook ⟨rfl, rfl, rfl⟩).elim
          · exact hwithdraw b.announcer
        · rintro ⟨w, heq, -⟩
          cases heq
          exact hlook ⟨rfl, rfl, rfl⟩
  | withdraw =>
      refine iff_of_false (hwithdraw b.announcer) ?_
      rintro ⟨w, heq, -⟩
      cases heq
  | _ =>
      refine iff_of_false (fun h => by cases h) ?_
      rintro ⟨w, heq, -⟩
      cases heq

/-- What is announced is what the mirror shows as arrived. -/
theorem showing_of_said {x : Step} (hstep : step x.event x.before = some x.after)
    {banner : Bool} (h : said x = .show banner) :
    x.after.announcer.showing = Store.arrivals x.before.db := by
  have hwithdraw : ∀ b : Announcer, b.withdraw.1 ≠ .show banner := by
    intro b
    simp only [Announcer.withdraw]
    split <;> simp
  obtain ⟨b, e, b'⟩ := x
  cases e with
  | review active enabled readable written =>
      obtain rfl : (b.decide active enabled readable written).2 = b' := Option.some.inj hstep
      cases active
      · cases enabled
        · exact (hwithdraw _ h).elim
        · cases readable
          · cases h
          · exact review_showing _ _ _
      · exact (hwithdraw _ h).elim
  | withdraw => exact (hwithdraw _ h).elim
  | _ => cases h

/-- The announcements of any run. An arrival is an unread entry in no hidden
feed or category, inserted to be announced and not acknowledged since; writing
a held entry again leaves every mark; a dismissal acknowledges exactly what the
notification covered, if its write goes through, and nothing else; a banner is
asked for exactly at a look that finds an arrival not covered; and an
acknowledged entry that stays is in no later announcement. -/
theorem announcements_sound (hrun : Run step start t a) :
    (∀ id ∈ Store.arrivals a.db, Fresh t id ∧
      ∃ r, a.db.entries.find? id = some r ∧ r.status = .unread ∧
        ∀ f ∈ a.db.feeds, f.id = r.feedId → f.hideGlobally = false ∧
          ∀ c ∈ a.db.categories, f.categoryId = some c.id → c.hideGlobally = false) ∧
    (∀ x ∈ t, ∀ e g arrival, x.event = .write (.upsertEntry e g arrival) →
      e.id ∈ heldIds x.before.db → ∀ id, mark id x.after.db = mark id x.before.db) ∧
    (∀ x ∈ t, ∀ written, x.event = .dismissed written → ∀ id,
      mark id x.after.db = (mark id x.before.db).map fun b =>
        b && !(written && x.before.announcer.showing.contains id)) ∧
    (∀ x ∈ t, said x = .show true ↔ ∃ written, x.event = .review false true true written ∧
      ∃ id ∈ Store.arrivals x.before.db, id ∉ x.before.announcer.showing) ∧
    ∀ t₁ x t₂ id, t = t₁ ++ x :: t₂ → Acknowledges x id →
      (∀ y ∈ x :: t₂, id ∈ heldIds y.after.db) →
      ∀ y ∈ t₂, ∀ banner, said y = .show banner → id ∉ y.after.announcer.showing := by
  refine ⟨?_, ?_, ?_, fun x _ => said_banner_iff, ?_⟩
  · intro id hid
    obtain ⟨r, hr, harrived, hstatus, hhidden⟩ := mem_arrivals.1 hid
    have hmark : mark id a.db = some true := by rw [mark, hr, Option.map_some, harrived]
    exact ⟨fresh_of_mark hrun hmark, r, hr, hstatus, hidden_eq_false.1 hhidden⟩
  · rintro ⟨b, e, b'⟩ hx e g arrival rfl hheld id
    obtain ⟨-, -, -, hstep⟩ := hrun.of_mem hx
    obtain rfl : { b with db := upsertEntry e g arrival b.db } = b' := Option.some.inj hstep
    have hheld : (mark e.id b.db).isSome = true := mark_isSome_iff.2 hheld
    rw [mark_upsertEntry]
    split
    · next hid =>
        rw [hid] at hheld
        obtain ⟨m, hm⟩ := Option.isSome_iff_exists.1 hheld
        rw [hm]
        rfl
    · rfl
  · rintro ⟨b, e, b'⟩ hx written rfl id
    obtain ⟨-, -, -, hstep⟩ := hrun.of_mem hx
    obtain rfl : b.dismissed written = b' := Option.some.inj hstep
    exact mark_dismissed written b id
  · rintro t₁ x t₂ id rfl hack hheld y hy banner hsaid hshowing
    obtain ⟨t₃, t₄, rfl⟩ := List.append_of_mem hy
    -- the announcement was made of what the mirror showed just before it
    have hpre : t₁ ++ x :: t₃ ++ [y] <+: t₁ ++ x :: (t₃ ++ y :: t₄) := ⟨t₄, by simp⟩
    obtain ⟨b, hb⟩ := hrun.of_prefix hpre
    obtain ⟨hbefore, hstep, rfl⟩ := hb.of_append
    rw [showing_of_said hstep hsaid] at hshowing
    obtain ⟨r, hr, harrived, -⟩ := mem_arrivals.1 hshowing
    refine not_marked_of_acknowledged hbefore rfl hack ?_ ?_
    · intro z hz
      refine hheld z ?_
      rcases List.mem_cons.1 hz with rfl | hz
      · exact List.mem_cons_self
      · exact List.mem_cons_of_mem _ (List.mem_append_left _ hz)
    · rw [mark, hr, Option.map_some, harrived]

section Dismissal

/-- An unread entry, as the server sends it. -/
def newEntry : Entry where
  id := 7
  feedId := 1
  status := .unread
  starred := false
  title := "title"
  url := none
  commentsUrl := none
  author := ""
  content := ""
  publishedAt := none
  createdAt := none
  changedAt := none
  readingTime := 0
  tags := []
  enclosures := []

/-- An entry that was announced and dismissed: the next pass finds it again,
and it is no news. -/
theorem announcements_sound_dismissed :
    ∃ (t : Trace) (a : Arrivals), Run step start t a ∧
      mark 7 a.db = some false ∧ ∃ x ∈ t, said x = .show true := by
  have hrun : Run step start _ _ :=
    .step (e := .write (.upsertEntry newEntry 2 .announce)) (.step (e := .dismissed true)
      (.step (e := .review false true true true)
        (.step (e := .write (.upsertEntry newEntry 1 .announce)) .start rfl) rfl) rfl) rfl
  have hsound := announcements_sound hrun
  refine ⟨_, _, hrun, ?_, _, List.mem_append_left _ (List.mem_append_left _
    (List.mem_append_right _ (List.mem_singleton_self _))), ?_⟩
  · exact hsound.2.1 _ (List.mem_append_right _ (List.mem_singleton_self _)) _ _ _ rfl rfl 7
  · refine (hsound.2.2.2.1 _ ?_).2 ⟨true, rfl, 7, List.mem_singleton_self 7, List.not_mem_nil⟩
    exact List.mem_append_left _ (List.mem_append_left _
      (List.mem_append_right _ (List.mem_singleton_self _)))

/-- A dismissal whose write is refused acknowledges nothing: what the
notification covered is announced once more. -/
theorem dismissal_refused :
    ∃ (t : Trace) (a : Arrivals), Run step start t a ∧ ∃ x ∈ t,
      (∃ written, x.event = .dismissed written) ∧ 7 ∈ x.before.announcer.showing ∧
        mark 7 x.after.db = some true := by
  have hrun : Run step start _ _ :=
    .step (e := .dismissed false) (.step (e := .review false true true true)
      (.step (e := .write (.upsertEntry newEntry 1 .announce)) .start rfl) rfl) rfl
  exact ⟨_, _, hrun, _, List.mem_append_right _ (List.mem_singleton_self _),
    ⟨false, rfl⟩, List.mem_singleton_self 7, rfl⟩

end Dismissal

end Arrivals

end Notify

end Vuo
