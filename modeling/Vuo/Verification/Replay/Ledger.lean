import Vuo.Verification.Mirror.PendingWins
import Vuo.Verification.World

/-!
# What became of every intent

A server that sets values as it is told, and for every field of an entry the
value the reader last asked for. The ledger says how an intent that is no longer
queued left the outbox: confirmed, gone with its entry, or discarded.
-/

namespace Vuo

open Foundation Outbox Store MinifluxClient

/-- The server's values, the values last queued, the fields whose last intent
was confirmed, those whose last intent went with its entry, and whether any
intent was discarded. -/
structure Ledger where
  server : EntryId → OutboxField → DesiredValue
  last : EntryId → OutboxField → Option DesiredValue
  confirmed : Set (EntryId × OutboxField)
  lost : Set (EntryId × OutboxField)
  discarded : Prop

/-- The intents a statement of the reader queues. -/
def Statement.queues : Statement → Db → List (EntryId × DesiredValue)
  | .queue id v _, _ => [(id, v)]
  | .queueMarkFeedRead feedId _, db =>
      (unreadOfFeed feedId db).map fun id => (id, .status .read)
  | .queueMarkCategoryRead categoryId _, db =>
      (unreadOfCategory categoryId db).map fun id => (id, .status .read)
  | _, _ => []

/-- The intents a statement takes out of the outbox. -/
def Statement.removed (s : Statement) (db : Db) : Set (EntryId × OutboxField) :=
  {k | (pendingFor k.1 k.2 db).isSome = true ∧ pendingFor k.1 k.2 (s.exec db) = none}

namespace Ledger

/-- What a write sets of a field. -/
def sets (body : Wire.EntriesUpdateRequest) : OutboxField → Option DesiredValue
  | .status => body.status.bind (DesiredValue.parse OutboxField.status.asStr)
  | .starred => body.starred.map .starred

/-- A write applied: absolute values for the entries it names. -/
def write (o : Ledger) (body : Wire.EntriesUpdateRequest) : Ledger :=
  { o with
    server := fun id f =>
      if id ∈ body.entryIds then (sets body f).getD (o.server id f) else o.server id f }

/-- The rows of a page show the server's values. -/
def Shows [UrlLibrary] (o : Ledger) (page : Wire.EntriesResponse) : Prop :=
  ∀ row ∈ page.entries, ∀ x, Convert.entry row = .ok x → ∀ f, offered f x = o.server x.id f

/-- A write is applied once or not at all, and applied where it was accepted. -/
def Answers [UrlLibrary] (o o' : Ledger) : (request : Request) → Answer request → Prop
  | .updateEntries body, r => (o' = o ∨ o' = o.write body) ∧
      ∀ response : BoundedResponse Unit, r = .ok response →
        200 ≤ response.status → response.status < 300 → o' = o.write body
  | .entries _, r => o' = o ∧ ∀ response : BoundedResponse Wire.EntriesResponse,
      r = .ok response → ∀ page, response.body = .ok page → o.Shows page
  | _, _ => o' = o

/-- The reader asks for a value. -/
def queue (o : Ledger) (id : EntryId) (v : DesiredValue) : Ledger :=
  { o with
    last := fun j f => if j = id ∧ f = v.field then some v else o.last j f
    confirmed := o.confirmed \ {(id, v.field)}
    lost := o.lost \ {(id, v.field)} }

def queueAll (o : Ledger) (intents : List (EntryId × DesiredValue)) : Ledger :=
  intents.foldl (fun o (id, v) => o.queue id v) o

/-- How the intents a statement takes out have left. -/
def after (o : Ledger) (s : Statement) (db : Db) : Ledger :=
  match s with
  | .confirm _ => { o with confirmed := o.confirmed ∪ s.removed db }
  | .discard _ => { o with discarded := o.discarded ∨ (s.removed db).Nonempty }
  | _ => { o with lost := o.lost ∪ s.removed db }

def commit : Transaction → Db → Ledger → Ledger
  | [], _, o => o
  | s :: body, db, o => commit body (s.exec db) (o.after s db)

end Ledger

/-- A server that sets values as told, the reader, and other writers, who leave
alone whatever the reader asked for. -/
def ledger [UrlLibrary] : Outside Ledger where
  send _ request o r o' := o.Answers o' request r
  now o _ o' := o' = o
  commit := Ledger.commit
  env w w' :=
    (∃ s : Statement, s.ByReader ∧ w'.db = s.exec w.db ∧
      w'.outside = w.outside.queueAll (s.queues w.db)) ∨
    w'.db = w.db ∧ ∃ server, (∀ id f, w.outside.last id f ≠ none →
      server id f = w.outside.server id f) ∧ w'.outside = { w.outside with server := server }

namespace Ledger

/-- What a batch's write sets. -/
theorem sets_updateRequest (ids : List EntryId) (v : DesiredValue) (f : OutboxField) :
    sets (updateRequest ids (Replay.mutation v)) f = if f = v.field then some v else none := by
  rcases v with (_ | _) | b <;> cases f <;> rfl

/-! ## The books are in order -/

/-- What is queued is what was last asked for. What was confirmed is what the
server has. Everything else asked for is accounted for, and the mirror shows it
unless something was discarded. -/
structure Kept (db : Db) (o : Ledger) : Prop where
  understood : Understood db
  queued : ∀ id f v, pendingFor id f db = some v → o.last id f = some v
  confirmed : ∀ id f, (id, f) ∈ o.confirmed →
    pendingFor id f db = none ∧ o.last id f = some (o.server id f)
  accounted : ∀ id f v, o.last id f = some v → pendingFor id f db = none →
    (id, f) ∈ o.confirmed ∨ (id, f) ∈ o.lost ∨ o.discarded
  shown : ∀ id f v x, o.last id f = some v → (id, f) ∉ o.lost → ¬o.discarded →
    Store.shown id f db = some x → x = v

variable {db : Db} {o : Ledger}

theorem Kept.queue (h : Kept db o) (id : EntryId) (v : DesiredValue) (now : ℤ) :
    Kept (Outbox.queue id v now db) (o.queue id v) where
  understood := understood_queue id v now h.understood
  queued := by
    intro j f p hp
    rw [pendingFor_queue] at hp
    simp only [Ledger.queue]
    split at hp
    · next hk => rw [if_pos hk, hp]
    · next hk => rw [if_neg hk, h.queued j f p hp]
  confirmed := by
    rintro j f ⟨hconfirmed, hne⟩
    have hk : ¬(j = id ∧ f = v.field) := fun hk => hne (by simp [hk.1, hk.2])
    obtain ⟨hpending, hlast⟩ := h.confirmed j f hconfirmed
    simp only [Ledger.queue]
    rw [pendingFor_queue, if_neg hk, if_neg hk]
    exact ⟨hpending, hlast⟩
  accounted := by
    intro j f p hlast hpending
    rw [pendingFor_queue] at hpending
    simp only [Ledger.queue] at hlast ⊢
    split at hpending
    · cases hpending
    · next hk =>
        rw [if_neg hk] at hlast
        have hne : (j, f) ≠ (id, v.field) := fun heq => hk (Prod.mk.inj heq)
        rcases h.accounted j f p hlast hpending with hc | hl | hd
        · exact .inl ⟨hc, hne⟩
        · exact .inr (.inl ⟨hl, hne⟩)
        · exact .inr (.inr hd)
  shown := by
    intro j f p x hlast hlost hkept hx
    rw [shown_queue] at hx
    obtain ⟨y, hy, rfl⟩ := Option.map_eq_some_iff.1 hx
    simp only [Ledger.queue] at hlast hlost hkept
    by_cases hk : j = id ∧ f = v.field
    · rw [if_pos hk] at hlast ⊢
      exact Option.some.inj hlast
    · rw [if_neg hk] at hlast ⊢
      have hne : (j, f) ≠ (id, v.field) := fun heq => hk (Prod.mk.inj heq)
      exact h.shown j f p y hlast (fun hl => hlost ⟨hl, hne⟩) hkept hy

theorem Kept.queueAll (h : Kept db o) (ids : List EntryId) (now : ℤ) :
    Kept (queueRead ids now db) (o.queueAll (ids.map fun id => (id, .status .read))) := by
  induction ids generalizing db o with
  | nil => exact h
  | cons id ids ih => exact ih (h.queue id _ now)

/-- Neither the mirror nor the outbox look different. -/
theorem Kept.of_sameView {db' : Db} (h : Kept db o) (hsame : SameView db db')
    (hunderstood : Understood db') : Kept db' o where
  understood := hunderstood
  queued := fun id f v hv => h.queued id f v (hsame.intents id f ▸ hv)
  confirmed := fun id f hc => ⟨(hsame.intents id f).trans (h.confirmed id f hc).1,
    (h.confirmed id f hc).2⟩
  accounted := fun id f v hlast hpending =>
    h.accounted id f v hlast ((hsame.intents id f).symm.trans hpending)
  shown := fun id f v x hlast hlost hkept hx =>
    h.shown id f v x hlast hlost hkept ((hsame.values id f).symm.trans hx)

/-- The server changed, but nothing that was confirmed. -/
theorem Kept.of_server (h : Kept db o) {server : EntryId → OutboxField → DesiredValue}
    (hserver : ∀ id f, (id, f) ∈ o.confirmed → server id f = o.server id f) :
    Kept db { o with server := server } where
  understood := h.understood
  queued := h.queued
  confirmed := fun id f hc => ⟨(h.confirmed id f hc).1,
    (h.confirmed id f hc).2.trans (congrArg some (hserver id f hc).symm)⟩
  accounted := h.accounted
  shown := h.shown

/-- Forgetting some intents, and nothing else new. -/
theorem Kept.of_forgets (h : Kept db o) {s : Statement} (hforgets : Forgets db (s.exec db)) :
    Kept (s.exec db) { o with lost := o.lost ∪ s.removed db } where
  understood := understood_exec s h.understood
  queued := fun id f v hv => h.queued id f v (hforgets.intents id f v hv)
  confirmed := by
    intro id f hconfirmed
    obtain ⟨hpending, hlast⟩ := h.confirmed id f hconfirmed
    refine ⟨Option.eq_none_iff_forall_ne_some.2 fun v hv => ?_, hlast⟩
    rw [hforgets.intents id f v hv] at hpending
    cases hpending
  accounted := by
    intro id f v hlast hpending
    cases hold : pendingFor id f db with
    | none => exact (h.accounted id f v hlast hold).imp_right (Or.imp_left .inl)
    | some p => exact .inr (.inl (.inr ⟨by rw [hold]; rfl, hpending⟩))
  shown := fun id f v x hlast hlost hkept hx =>
    h.shown id f v x hlast (fun hl => hlost (.inl hl)) hkept (hforgets.values id f x hx)

/-- A batch takes out intents of its own only. -/
theorem mem_of_removed {b : Batch} {id : EntryId} {f : OutboxField}
    (h : (id, f) ∈ (Statement.confirm b).removed db) :
    id ∈ b.entryIds ∧ f = b.value.field ∧ pendingFor id f db = some b.value := by
  obtain ⟨hsome, hnone⟩ := h
  obtain ⟨v, hv⟩ := Option.isSome_iff_exists.1 hsome
  have hcleared := pendingFor_confirm b db id f
  have hexec : pendingFor id f (Outbox.confirm b db).2 = none := hnone
  rw [hexec, hv] at hcleared
  have hsent : id ∈ b.entryIds ∧ v = b.value := by simpa [Option.filter] using hcleared.symm
  obtain ⟨hid, rfl⟩ := hsent
  exact ⟨hid, (pendingFor_field hv).symm, hv⟩

/-- A batch's rows go, confirmed: the server has what they asked for. -/
theorem Kept.confirm (h : Kept db o) {b : Batch}
    (hserver : ∀ id ∈ b.entryIds, o.server id b.value.field = b.value) :
    Kept ((Statement.confirm b).exec db) (o.after (.confirm b) db) := by
  have hrest := h.of_forgets (s := .confirm b) (forgets_confirm b db)
  refine ⟨hrest.understood, hrest.queued, ?_, ?_, ?_⟩
  · rintro id f (hconfirmed | hremoved)
    · exact hrest.confirmed id f hconfirmed
    · obtain ⟨hid, rfl, hv⟩ := mem_of_removed hremoved
      have hlast : o.last id b.value.field = some b.value := h.queued id _ _ hv
      exact ⟨hremoved.2, hlast.trans (congrArg some (hserver id hid).symm)⟩
  · intro id f v hlast hpending
    cases hold : pendingFor id f db with
    | none => exact (h.accounted id f v hlast hold).imp_left .inl
    | some p => exact .inl (.inr ⟨by rw [hold]; rfl, hpending⟩)
  · intro id f v x hlast hlost hkept hx
    have hsame : Store.shown id f ((Statement.confirm b).exec db) = Store.shown id f db :=
      shown_confirm b db id f
    rw [hsame] at hx
    exact h.shown id f v x hlast hlost hkept hx

/-- A batch's rows go, discarded. -/
theorem Kept.discard (h : Kept db o) (b : Batch) :
    Kept ((Statement.discard b).exec db) (o.after (.discard b) db) := by
  have hrest := h.of_forgets (s := .discard b) (forgets_confirm b db)
  refine ⟨hrest.understood, hrest.queued, hrest.confirmed, ?_, ?_⟩
  · intro id f v hlast hpending
    cases hold : pendingFor id f db with
    | none =>
        exact (h.accounted id f v hlast hold).imp_right (Or.imp_right .inl)
    | some p =>
        exact .inr (.inr (.inr ⟨(id, f), by rw [hold]; rfl, hpending⟩))
  · intro id f v x hlast hlost hkept hx
    have hsame : Store.shown id f ((Statement.discard b).exec db) = Store.shown id f db :=
      shown_confirm b db id f
    rw [hsame] at hx
    exact h.shown id f v x hlast hlost (fun hd => hkept (.inl hd)) hx

/-- An entry is written with the values the server shows. -/
theorem Kept.upsertEntry (h : Kept db o) {e : Entry} (generation : ℤ) (arrival : Arrival)
    (hfits : ∀ f, (e.id, f) ∈ o.confirmed → offered f e = o.server e.id f) :
    Kept ((Statement.upsertEntry e generation arrival).exec db)
      (o.after (.upsertEntry e generation arrival) db) where
  understood := understood_exec _ h.understood
  queued := h.queued
  confirmed := h.confirmed
  accounted := fun id f v hlast hpending =>
    (h.accounted id f v hlast hpending).imp_right (Or.imp_left .inl)
  shown := by
    intro id f v x (hlast : o.last id f = some v) hlost hkept hx
    have hwritten : Store.shown id f ((Statement.upsertEntry e generation arrival).exec db) =
        if id = e.id then some ((pendingFor id f db).getD (offered f e))
        else Store.shown id f db :=
      shown_upsertEntry e generation arrival db id f
    rw [hwritten] at hx
    have hlost' : (id, f) ∉ o.lost := fun hl => hlost (.inl hl)
    split at hx
    · next hid =>
        subst hid
        cases hpending : pendingFor e.id f db with
        | some p =>
            have hp := h.queued e.id f p hpending
            rw [hlast] at hp
            cases hp
            rw [hpending] at hx
            exact (Option.some.inj hx).symm
        | none =>
            rcases h.accounted e.id f v hlast hpending with hc | hl | hd
            · have hserver := (h.confirmed e.id f hc).2
              rw [hlast] at hserver
              rw [hpending, Option.getD_none, hfits f hc] at hx
              exact (Option.some.inj hx).symm.trans (Option.some.inj hserver).symm
            · exact absurd hl hlost'
            · exact absurd hd hkept
    · exact h.shown id f v x hlast hlost' hkept hx

/-! ## Transactions -/

/-- The statements of a pass that neither queue nor confirm, and write entries
as the server shows what was confirmed. -/
def Fits (o : Ledger) : Statement → Prop
  | .upsertEntry e _ _ => ∀ f, (e.id, f) ∈ o.confirmed → offered f e = o.server e.id f
  | .queue .. | .queueMarkFeedRead .. | .queueMarkCategoryRead .. | .confirm _ => False
  | _ => True

theorem Kept.exec (h : Kept db o) {s : Statement} (hs : o.Fits s) :
    Kept (s.exec db) (o.after s db) := by
  have hkeep : bookkeeping s = true → Kept (s.exec db) { o with lost := o.lost ∪ s.removed db } :=
    fun hb => h.of_forgets (sameView_of_bookkeeping hb db).forgets
  cases s with
  | queue id v now => exact hs.elim
  | queueMarkFeedRead feedId now => exact hs.elim
  | queueMarkCategoryRead categoryId now => exact hs.elim
  | confirm b => exact hs.elim
  | discard b => exact h.discard b
  | upsertEntry e generation arrival => exact h.upsertEntry generation arrival hs
  | deleteFeed id => exact h.of_forgets (forgets_deleteFeed id db)
  | deleteEntry id => exact h.of_forgets (forgets_deleteEntry id db)
  | pruneEntries cutoff => exact h.of_forgets (forgets_pruneEntries cutoff db)
  | _ => exact hkeep rfl

/-- What such a statement leaves alone. -/
theorem after_of_fits {s : Statement} (hs : o.Fits s) (db : Db) :
    (o.after s db).server = o.server ∧ (o.after s db).last = o.last ∧
      (o.after s db).confirmed = o.confirmed := by
  cases s <;> first | exact hs.elim | exact ⟨rfl, rfl, rfl⟩

theorem Fits.after {s t : Statement} (hs : o.Fits s) (ht : o.Fits t) (db : Db) :
    (o.after s db).Fits t := by
  obtain ⟨hserver, -, hconfirmed⟩ := after_of_fits hs db
  cases t with
  | upsertEntry e generation arrival =>
      intro f hf
      rw [hconfirmed] at hf
      rw [hserver]
      exact ht f hf
  | _ => exact ht

theorem Kept.commit (h : Kept db o) {body : Transaction} (hbody : ∀ s ∈ body, o.Fits s) :
    Kept (body.exec db) (o.commit body db) := by
  induction body generalizing db o with
  | nil => exact h
  | cons s body ih =>
      have hs := hbody s List.mem_cons_self
      exact ih (h.exec hs) fun t ht => hs.after (hbody t (List.mem_cons_of_mem s ht)) db

theorem commit_of_fits {body : Transaction} (hbody : ∀ s ∈ body, o.Fits s) (db : Db) :
    (o.commit body db).server = o.server ∧ (o.commit body db).last = o.last ∧
      (o.commit body db).confirmed = o.confirmed := by
  induction body generalizing db o with
  | nil => exact ⟨rfl, rfl, rfl⟩
  | cons s body ih =>
      have hs := hbody s List.mem_cons_self
      obtain ⟨h₁, h₂, h₃⟩ := after_of_fits hs db
      obtain ⟨h₁', h₂', h₃'⟩ := ih (fun t ht => hs.after (hbody t (List.mem_cons_of_mem s ht)) db)
        (s.exec db)
      exact ⟨h₁'.trans h₁, h₂'.trans h₂, h₃'.trans h₃⟩

end Ledger

end Vuo
