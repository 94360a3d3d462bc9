import Vuo.Verification.Mirror.PendingWins
import Vuo.Verification.Pull.Journal

/-!
# Where the mirror agrees with the journal

The mirror agrees with a set of changes where it shows, of every entry whose
last change is among them and for which nothing is queued, what the server
shows. Each statement a pass writes keeps this, but for the two that clear
intents.
-/

namespace Vuo

open Foundation Outbox Store

namespace Journal

/-! ## Last changes -/

variable {changes : List Change} {i j n : ℕ} {c d : Change}

theorem last_unique (hc : Last changes i c) (hd : Last changes j d)
    (hid : d.row.id = c.row.id) : d = c := by
  rcases Nat.lt_trichotomy i j with hij | rfl | hji
  · exact absurd hid (hc.2 j d hij hd.1)
  · exact Option.some.inj (hd.1.symm.trans hc.1)
  · exact absurd hid.symm (hd.2 i c hji hc.1)

/-- A last change is the last one of any shorter journal that has it. -/
theorem last_take (h : Last changes i c) (hi : i < n) : Last (changes.take n) i c := by
  refine ⟨by rw [List.getElem?_take_of_lt hi, h.1], ?_⟩
  intro j d hij hd
  rw [List.getElem?_take] at hd
  split at hd
  · exact h.2 j d hij hd
  · cases hd

theorem Grows.last {o o' : Journal} (hgrows : o.Grows o') (hi : i < o.changes.length)
    (h : Last o'.changes i c) : Last o.changes i c := by
  obtain ⟨fresh, hfresh, -⟩ := hgrows.changes
  have htake : o'.changes.take o.changes.length = o.changes := by
    rw [hfresh, List.take_left]
  rw [← htake]
  exact last_take h hi

variable [UrlLibrary]

theorem Grows.serves {o o' : Journal} (hgrows : o.Grows o') (hi : i < o.changes.length)
    {id : EntryId} {f : OutboxField} {v : DesiredValue} (h : Serves o'.changes i id f v) :
    Serves o.changes i id f v := by
  obtain ⟨c, e, hlast, hid, hentry, hv⟩ := h
  exact ⟨c, e, hgrows.last hi hlast, hid, hentry, hv⟩

/-! ## The rows of the last page -/

/-- The rows of the last page are those of the journal it was answered from. -/
structure Offers (o : Journal) : Prop where
  rows : ∀ row ∈ o.offered.2, ∃ i c, Last (o.changes.take o.offered.1) i c ∧ c.row = row
  bound : o.offered.1 ≤ o.changes.length

omit [UrlLibrary] in
theorem Offers.grows {o o' : Journal} (h : o.Offers) (hgrows : o.Grows o') : o'.Offers := by
  obtain ⟨fresh, hfresh, -⟩ := hgrows.changes
  refine ⟨fun row hrow => ?_, ?_⟩
  · rw [hgrows.offered] at hrow ⊢
    rw [hfresh, List.take_append_of_le_length h.bound]
    exact h.rows row hrow
  · rw [hgrows.offered]
    exact h.bound.trans hgrows.length

omit [UrlLibrary] in
theorem Offers.offer {o o' : Journal} (h : o'.Offers) {request : Request} {r : Answer request}
    (hanswers : o.Answers o' request r) : (o'.offer request r).Offers := by
  have hkept : ∀ {o₁ : Journal}, o₁ = o' → o₁.Offers := fun heq => heq ▸ h
  cases request with
  | entries query =>
      cases r with
      | error e => exact h
      | ok response =>
          cases hbody : response.body with
          | error e => exact hkept (by simp [Journal.offer, hbody])
          | ok page =>
              obtain ⟨rows, -, hrows, hpage⟩ := (hanswers response rfl).2.2 page hbody
              simp only [Journal.offer, hbody]
              refine ⟨fun row hrow => ?_, le_rfl⟩
              have hrow' : row ∈ rows := List.mem_of_mem_take (hpage ▸ hrow)
              obtain ⟨i, c, hlast, -, hc⟩ := (hrows row).1 hrow'
              rw [List.take_length]
              exact ⟨i, c, hlast, hc⟩
  | _ => exact h

omit [UrlLibrary] in
/-- An offered row is that of the last change of its entry, unless the entry
changed since. -/
theorem Offers.row_eq {o : Journal} (h : o.Offers) {row : Wire.Entry} (hrow : row ∈ o.offered.2)
    (hlast : Last o.changes i c) (hi : i < o.offered.1) (hid : row.id = c.row.id) :
    row = c.row := by
  obtain ⟨j, d, hd, rfl⟩ := h.rows row hrow
  rw [last_unique (last_take hlast hi) hd hid]

/-! ## Agreement -/

/-- Of every entry whose last change is in `H` the mirror shows what the server
does, where nothing is queued. -/
def AgreesOn (changes : List Change) (H : Set ℕ) (db : Db) : Prop :=
  ∀ i ∈ H, ∀ id f v x, Serves changes i id f v → shown id f db = some x →
    pendingFor id f db = none → x = v

theorem AgreesOn.union {H K : Set ℕ} {db : Db} (hH : AgreesOn changes H db)
    (hK : AgreesOn changes K db) : AgreesOn changes (H ∪ K) db := by
  rintro i (hi | hi)
  · exact hH i hi
  · exact hK i hi

/-- Nothing is shown that was not before, and no intent of what is shown went
away. -/
structure Sheds (db db' : Db) : Prop where
  values : ∀ id f x, shown id f db' = some x → shown id f db = some x
  intents : ∀ id f x, shown id f db' = some x → pendingFor id f db' = pendingFor id f db

omit [UrlLibrary] in
theorem sheds_of_sameView {db db' : Db} (h : SameView db db') : Sheds db db' where
  values := fun id f _ hx => h.values id f ▸ hx
  intents := fun id f _ _ => h.intents id f

theorem Sheds.agreesOn {H : Set ℕ} {db db' : Db} (h : Sheds db db')
    (hdb : AgreesOn changes H db) : AgreesOn changes H db' := by
  intro i hi id f v x hv hx hp
  rw [h.intents id f x hx] at hp
  exact hdb i hi id f v x hv (h.values id f x hx) hp

omit [UrlLibrary] in
theorem sheds_deleteEntry (id : EntryId) (db : Db) : Sheds db (deleteEntry id db) := by
  refine ⟨(forgets_deleteEntry id db).values, fun j f x hx => ?_⟩
  rw [shown_deleteEntry] at hx
  rw [pendingFor_deleteEntry]
  split at hx
  · cases hx
  · next hj => rw [if_neg hj]

omit [UrlLibrary] in
theorem sheds_deleteFeed (id : FeedId) (db : Db) : Sheds db (deleteFeed id db) := by
  refine ⟨(forgets_deleteFeed id db).values, fun j f x hx => ?_⟩
  rw [shown_deleteFeed] at hx
  rw [pendingFor_deleteFeed]
  split at hx
  · cases hx
  · next hj => rw [if_neg hj]

theorem AgreesOn.queue {H : Set ℕ} {db : Db} (h : AgreesOn changes H db) (id : EntryId)
    (w : DesiredValue) (now : ℤ) : AgreesOn changes H (queue id w now db) := by
  intro i hi j f v x hv hx hp
  rw [pendingFor_queue] at hp
  rw [shown_queue] at hx
  obtain ⟨y, hy, rfl⟩ := Option.map_eq_some_iff.1 hx
  split at hp
  · cases hp
  · next hj =>
      rw [if_neg hj]
      exact h i hi j f v y hv hy hp

theorem AgreesOn.queueRead {H : Set ℕ} {db : Db} (h : AgreesOn changes H db)
    (ids : List EntryId) (now : ℤ) : AgreesOn changes H (queueRead ids now db) := by
  induction ids generalizing db with
  | nil => exact h
  | cons id ids ih => exact ih (h.queue id _ now)

/-- What the reader does keeps the agreement. -/
theorem AgreesOn.reader {H : Set ℕ} {db : Db} (h : AgreesOn changes H db) {s : Statement}
    (hs : s.ByReader) : AgreesOn changes H (s.exec db) := by
  have hkeep : bookkeeping s = true → AgreesOn changes H (s.exec db) := fun hb =>
    (sheds_of_sameView (sameView_of_bookkeeping hb db)).agreesOn h
  cases s with
  | queue id w now => exact h.queue id w now
  | queueMarkFeedRead feedId now => exact h.queueRead _ now
  | queueMarkCategoryRead categoryId now => exact h.queueRead _ now
  | acknowledgeArrivals ids => exact hkeep rfl
  | acknowledgeAllArrivals => exact hkeep rfl
  | storeScraped id content => exact hkeep rfl
  | _ => exact hs.elim

/-! ## What a pass writes -/

/-- A statement of a pass other than clearing a batch: an entry it writes is one
the server offered. -/
def Fits (o : Journal) : Statement → Prop
  | .upsertEntry e _ _ => ∃ row ∈ o.offered.2, Convert.entry row = .ok e
  | .queue .. | .queueMarkFeedRead .. | .queueMarkCategoryRead .. | .confirm _ | .discard _ =>
      False
  | _ => True

/-- The mirror shows an entry as the server sent it, where it holds it and
nothing is queued. -/
def Written (e : Entry) (db : Db) : Prop :=
  ∀ f x, shown e.id f db = some x → pendingFor e.id f db = none → x = Store.offered f e

omit [UrlLibrary] in
theorem Written.sheds {e : Entry} {db db' : Db} (h : Sheds db db') (hdb : Written e db) :
    Written e db' := by
  intro f x hx hp
  rw [h.intents e.id f x hx] at hp
  exact hdb f x (h.values e.id f x hx) hp

omit [UrlLibrary] in
theorem written_upsertEntry (e : Entry) (generation : ℤ) (arrival : Arrival) (db : Db) :
    Written e (upsertEntry e generation arrival db) := by
  intro f x hx hp
  rw [pendingFor_upsertEntry] at hp
  rw [shown_upsertEntry, if_pos rfl, hp] at hx
  exact (Option.some.inj hx).symm

variable {o : Journal}

/-- A statement of a pass writes an offered entry, or sheds. -/
theorem Fits.sheds {s : Statement} (h : o.Fits s) (db : Db) :
    (∃ e generation arrival, s = .upsertEntry e generation arrival) ∨ Sheds db (s.exec db) := by
  have hkeep : bookkeeping s = true → Sheds db (s.exec db) := fun hb =>
    sheds_of_sameView (sameView_of_bookkeeping hb db)
  cases s with
  | upsertEntry e generation arrival => exact .inl ⟨e, generation, arrival, rfl⟩
  | deleteFeed id => exact .inr (sheds_deleteFeed id db)
  | deleteEntry id => exact .inr (sheds_deleteEntry id db)
  | pruneEntries cutoff =>
      exact .inr ⟨(forgets_pruneEntries cutoff db).values, fun _ _ _ _ => rfl⟩
  | queue id w now => exact h.elim
  | queueMarkFeedRead feedId now => exact h.elim
  | queueMarkCategoryRead categoryId now => exact h.elim
  | confirm batch => exact h.elim
  | discard batch => exact h.elim
  | _ => exact .inr (hkeep rfl)

/-- Two offered entries of one id are the same. -/
theorem Offers.entry_eq (ho : o.Offers) {row row' : Wire.Entry} {e e' : Entry}
    (hrow : row ∈ o.offered.2) (hrow' : row' ∈ o.offered.2) (he : Convert.entry row = .ok e)
    (he' : Convert.entry row' = .ok e') (hid : e'.id = e.id) : e' = e := by
  obtain ⟨i, c, hc, rfl⟩ := ho.rows row hrow
  obtain ⟨j, d, hd, rfl⟩ := ho.rows row' hrow'
  have hids : d.row.id = c.row.id := by
    rw [← (Convert.entry_eq_ok he).1, ← (Convert.entry_eq_ok he').1, hid]
  rw [last_unique hc hd hids, he] at he'
  exact (Except.ok.inj he').symm

theorem Written.exec (ho : o.Offers) {e : Entry} {row : Wire.Entry} (hrow : row ∈ o.offered.2)
    (he : Convert.entry row = .ok e) {s : Statement} (hs : o.Fits s) {db : Db}
    (h : Written e db) : Written e (s.exec db) := by
  rcases hs.sheds db with ⟨e', generation, arrival, rfl⟩ | hsheds
  · obtain ⟨row', hrow', he'⟩ := hs
    by_cases hid : e'.id = e.id
    · rw [← ho.entry_eq hrow hrow' he he' hid]
      exact written_upsertEntry e' generation arrival db
    · intro f x hx hp
      have hexec : (Statement.upsertEntry e' generation arrival).exec db =
          upsertEntry e' generation arrival db := rfl
      rw [hexec, shown_upsertEntry, if_neg (Ne.symm hid)] at hx
      exact h f x hx hp
  · exact h.sheds hsheds

/-- An entry a transaction writes stands as it was sent when the transaction
ends. -/
theorem written_transaction (ho : o.Offers) {body : Transaction} (hbody : ∀ s ∈ body, o.Fits s)
    {e : Entry} {generation : ℤ} {arrival : Arrival}
    (he : Statement.upsertEntry e generation arrival ∈ body) (db : Db) :
    Written e (body.exec db) := by
  obtain ⟨row, hrow, hentry⟩ := hbody _ he
  obtain ⟨before, after, rfl⟩ := List.append_of_mem he
  rw [Transaction.exec_append, Transaction.exec_cons]
  refine Transaction.exec_invariant (P := Written e) (fun s hs db h => ?_)
    (written_upsertEntry e generation arrival _)
  exact h.exec ho hrow hentry (hbody s (List.mem_append_right _ (List.mem_cons_of_mem _ hs)))

theorem AgreesOn.exec (ho : o.Offers) {H : Set ℕ} (hH : ∀ i ∈ H, i < o.offered.1) {db : Db}
    (h : AgreesOn o.changes H db) {s : Statement} (hs : o.Fits s) :
    AgreesOn o.changes H (s.exec db) := by
  rcases hs.sheds db with ⟨e, generation, arrival, rfl⟩ | hsheds
  · intro i hi id f v x hv hx hp
    have hexec : (Statement.upsertEntry e generation arrival).exec db =
        upsertEntry e generation arrival db := rfl
    rw [hexec] at hx hp
    by_cases hid : id = e.id
    · obtain ⟨row, hrow, hentry⟩ := hs
      obtain ⟨c, e', hlast, rfl, hentry', rfl⟩ := hv
      have hrowId : row.id = c.row.id := by rw [← (Convert.entry_eq_ok hentry).1, ← hid]
      have hsame : e' = e := by
        rw [ho.row_eq hrow hlast (hH i hi) hrowId, hentry'] at hentry
        exact Except.ok.inj hentry
      rw [hid] at hx hp
      rw [hsame]
      exact written_upsertEntry e generation arrival db f x hx hp
    · rw [shown_upsertEntry, if_neg hid] at hx
      exact h i hi id f v x hv hx hp
  · exact hsheds.agreesOn h

/-- A transaction of a pass keeps the agreement, and extends it to the changes
it hands over. -/
theorem AgreesOn.transaction (ho : o.Offers) (hbound : ∀ i ∈ o.handed, i < o.offered.1)
    {body : Transaction} (hbody : ∀ s ∈ body, o.Fits s) {db : Db}
    (h : AgreesOn o.changes o.handed db) :
    AgreesOn o.changes (o.handed ∪ o.handedBy body) (body.exec db) := by
  refine .union (Transaction.exec_invariant (P := AgreesOn o.changes o.handed)
    (fun s hs _ h => h.exec ho hbound (hbody s hs)) h) ?_
  rintro i ⟨hi, c', row, hc', hrow, hid, hhanded⟩ id f v x ⟨c, e, hlast, rfl, hentry, rfl⟩ hx hp
  cases hlast.1.symm.trans hc'
  rw [ho.row_eq hrow hlast hi hid, HandedBy, hentry] at hhanded
  obtain ⟨generation, arrival, hmem⟩ := hhanded
  have hwritten := written_transaction ho hbody hmem db
  rw [← (Convert.entry_eq_ok hentry).1] at hx hp
  exact hwritten f x hx hp

/-- Indices handed over by a transaction that writes no entry belong to rows
that do not convert, about which nothing is said. -/
theorem AgreesOn.handedBy (ho : o.Offers) {body : Transaction}
    (hbody : ∀ e generation arrival, Statement.upsertEntry e generation arrival ∉ body)
    (db : Db) : AgreesOn o.changes (o.handedBy body) db := by
  rintro i ⟨hi, c', row, hc', hrow, hid, hhanded⟩ id f v x ⟨c, e, hlast, rfl, hentry, rfl⟩ _ _
  cases hlast.1.symm.trans hc'
  rw [ho.row_eq hrow hlast hi hid, HandedBy, hentry] at hhanded
  obtain ⟨generation, arrival, hmem⟩ := hhanded
  exact absurd hmem (hbody e generation arrival)

/-! ## Clearing a batch -/

/-- The mirror's last word on the entries of a batch is out of date. -/
def Superseded (b : Batch) (o : Journal) : Prop :=
  ∀ id ∈ b.entryIds, ∀ i ∈ o.handed, ∀ c, Last o.changes i c → c.row.id ≠ id

omit [UrlLibrary] in
/-- An accepted write makes everything handed over for its entries out of
date. -/
theorem superseded_of_applied {o' : Journal} {b : Batch} {body : Wire.EntriesUpdateRequest}
    (hbound : ∀ i ∈ o.handed, i < o.changes.length) (hgrows : o.Grows o')
    (happlied : Applied o o' body) (hids : body.entryIds = b.entryIds) : Superseded b o' := by
  rintro id hid i hi c hlast rfl
  rw [hgrows.handed] at hi
  have hold := (hgrows.last (hbound i hi) hlast).1
  obtain ⟨j, d, hj, hd, hdid, -⟩ := happlied c.row.id (hids ▸ hid)
    ⟨c, List.mem_of_getElem? hold, rfl⟩
  have hij : i < j := (hbound i hi).trans_le hj
  exact hlast.2 j d hij hd hdid

omit [UrlLibrary] in
theorem Superseded.grows {o' : Journal} {b : Batch} (h : Superseded b o)
    (hbound : ∀ i ∈ o.handed, i < o.changes.length) (hgrows : o.Grows o') : Superseded b o' := by
  intro id hid i hi c hlast
  rw [hgrows.handed] at hi
  exact h id hid i hi c (hgrows.last (hbound i hi) hlast)

/-- Clearing an intent asks one thing: that what is shown for it agrees. -/
theorem AgreesOn.cleared {H : Set ℕ} {db : Db} (h : AgreesOn changes H db) (b : Batch)
    (hcleared : ∀ i ∈ H, ∀ id ∈ b.entryIds, ∀ f v x, Serves changes i id f v →
      shown id f db = some x → pendingFor id f db = some b.value → x = v) :
    AgreesOn changes H (Outbox.confirm b db).2 := by
  intro i hi id f v x hv hx hp
  rw [shown_confirm] at hx
  rw [pendingFor_confirm] at hp
  cases hpending : pendingFor id f db with
  | none => exact h i hi id f v x hv hx hpending
  | some p =>
      rw [hpending, Option.filter_some] at hp
      have hsent : id ∈ b.entryIds ∧ p = b.value := by
        by_contra hnot
        have hkeep : (!(decide (id ∈ b.entryIds) && decide (p = b.value))) = true := by
          simpa [imp_iff_not_or] using not_and.1 hnot
        rw [if_pos hkeep] at hp
        cases hp
      exact hcleared i hi id hsent.1 f v x hv hx (hsent.2 ▸ hpending)

theorem AgreesOn.confirm {db : Db} (h : AgreesOn o.changes o.handed db) {b : Batch}
    (hb : Superseded b o) : AgreesOn o.changes o.handed (Outbox.confirm b db).2 := by
  refine h.cleared b ?_
  rintro i hi id hid f v x ⟨c, e, hlast, hc, -⟩ _ _
  exact absurd hc (hb id hid i hi c hlast)

/-- Only a discard throws an intent away. -/
theorem not_spoils {body : Transaction} (h : ∀ b, Statement.discard b ∉ body) (db : Db) :
    ¬o.Spoils body db :=
  fun ⟨b, hb, _⟩ => h b hb

theorem AgreesOn.discard {db : Db} (hwins : PendingWins db)
    (h : AgreesOn o.changes o.handed db) {b : Batch}
    (hspoils : ¬o.Spoils [.discard b] db) : AgreesOn o.changes o.handed (Outbox.confirm b db).2 := by
  refine h.cleared b ?_
  intro i hi id hid f v x hv hx hp
  have hfield : f = b.value.field := (pendingFor_field hp).symm
  subst hfield
  rw [hwins id _ _ x hp hx]
  by_contra hne
  have hheld : id ∈ heldIds db := by
    rw [shown, Option.map_eq_some_iff] at hx
    obtain ⟨e, he, -⟩ := hx
    rw [mem_heldIds, he]
    rfl
  exact hspoils ⟨b, List.mem_singleton_self _, id, hid, hheld, hp, i, hi, v, hv, Ne.symm hne⟩

end Journal

end Vuo
