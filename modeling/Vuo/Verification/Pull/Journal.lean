import Mathlib.Data.Set.Lattice
import Vuo.Foundation.Worker
import Vuo.Verification.Mirror.View
import Vuo.Verification.Pull.Rules

/-!
# The server's journal

The server as the journal of the changes its entries went through, in the order
they became visible. An entry shows what its last change left; a listing shows
the entries past a keyset position whose last change is past a time. The outside
remembers which changes were handed to the mirror.
-/

namespace Vuo

open Foundation MinifluxClient

/-- Microseconds in a second. Times of changes are in microseconds. -/
abbrev micros : ℤ := 1000000

/-- One change of an entry: its `changed_at`, and the row it left. -/
structure Change where
  stamp : ℤ
  row : Wire.Entry

/-- The server's clock and journal, the rows of the last page answered with the
length the journal had then, the changes handed to the mirror, and whether some
discard threw away what the server should have been told. -/
structure Journal where
  now : ℤ
  changes : List Change
  offered : ℕ × List Wire.Entry
  handed : Set ℕ
  spoiled : Prop

namespace Journal

/-- Time passes, and changes become visible, each within a minute of its
stamp. -/
structure Grows (o o' : Journal) : Prop where
  now : o.now ≤ o'.now
  changes : ∃ fresh, o'.changes = o.changes ++ fresh ∧ ∀ c ∈ fresh,
    ∃ visible, o.now ≤ visible ∧ visible ≤ o'.now ∧ visible < c.stamp + 60 * micros
  offered : o'.offered = o.offered
  handed : o'.handed = o.handed
  spoiled : o'.spoiled = o.spoiled

/-- The `i`-th change is `c`, and no later one is of the same entry. -/
def Last (changes : List Change) (i : ℕ) (c : Change) : Prop :=
  changes[i]? = some c ∧ ∀ j d, i < j → changes[j]? = some d → d.row.id ≠ c.row.id

/-- The entry is past the position and its change past the time a query
names. -/
def Matches (query : EntriesQuery) (c : Change) : Prop :=
  (∀ a ∈ query.afterEntryId, a < c.row.id) ∧ ∀ t ∈ query.changedAfter, t * micros < c.stamp

/-- The page holds the first rows, by id, of those that match. -/
def Lists (query : EntriesQuery) (changes : List Change) (page : List Wire.Entry) : Prop :=
  ∃ rows : List Wire.Entry, rows.Pairwise (fun r s => r.id < s.id) ∧
    (∀ row, row ∈ rows ↔ ∃ i c, Last changes i c ∧ Matches query c ∧ c.row = row) ∧
    page = rows.take query.limit

/-- A page carries the rows of that moment. Its date, where it has one, is the
second it was read in; a first page is dated. -/
def HonestPage (o : Journal) (query : EntriesQuery) (r : Answer (.entries query)) : Prop :=
  ∀ response, r = .ok response →
    (∀ d, response.serverDate = some d → d.timestamp = o.now / micros) ∧
    (query.afterEntryId = none → response.serverDate.isSome = true) ∧
    ∀ page : Wire.EntriesResponse, response.body = .ok page →
      Lists query o.changes page.entries

/-- A write that was accepted changed the entries it names. -/
def Applied (o o' : Journal) (body : Wire.EntriesUpdateRequest) : Prop :=
  ∀ id ∈ body.entryIds, (∃ c ∈ o.changes, c.row.id = id) →
    ∃ i c, o.changes.length ≤ i ∧ o'.changes[i]? = some c ∧ c.row.id = id ∧
      (∀ s ∈ body.status, c.row.status = s) ∧ ∀ b ∈ body.starred, c.row.starred = b

/-- What the server's answers say about it. -/
def Answers (o o' : Journal) : (request : Request) → Answer request → Prop
  | .entries query, r => HonestPage o' query r
  | .updateEntries body, r => ∀ response : BoundedResponse Unit, r = .ok response →
      200 ≤ response.status → response.status < 300 → Applied o o' body
  | _, _ => True

/-- The rows of a page, kept until it is written. -/
def offer (o : Journal) : (request : Request) → Answer request → Journal
  | .entries _, .ok response =>
      match response.body with
      | .ok page => { o with offered := (o.changes.length, page.entries) }
      | .error _ => o
  | _, _ => o

/-- An answer is offered; nothing else moves. -/
theorem offer_eq (o : Journal) (request : Request) (r : Answer request) :
    ∃ offered, o.offer request r = { o with offered := offered } ∧
      (offered = o.offered ∨ offered.1 = o.changes.length) := by
  have hsame : o = { o with offered := o.offered } := rfl
  cases request with
  | entries query =>
      cases r with
      | error e => exact ⟨_, hsame, .inl rfl⟩
      | ok response =>
          simp only [offer]
          split
          · exact ⟨_, rfl, .inr rfl⟩
          · exact ⟨_, hsame, .inl rfl⟩
  | _ => exact ⟨_, hsame, .inl rfl⟩

section Commit

variable [UrlLibrary]

/-- The transaction writes the row, or deletes its entry where it reports it
removed. A row that does not convert asks for nothing. -/
def HandedBy (body : Transaction) (row : Wire.Entry) : Prop :=
  match Convert.entry row with
  | .ok e => ∃ generation arrival, Statement.upsertEntry e generation arrival ∈ body
  | .error _ => row.status = "removed" → Statement.deleteEntry row.id ∈ body

/-- The changes a transaction hands over: those the offered rows stand for. -/
def handedBy (o : Journal) (body : Transaction) : Set ℕ :=
  {i | i < o.offered.1 ∧ ∃ c row, o.changes[i]? = some c ∧ row ∈ o.offered.2 ∧
    row.id = c.row.id ∧ HandedBy body row}

/-- The server shows this value of a field of an entry. -/
def Serves (changes : List Change) (i : ℕ) (id : EntryId) (f : OutboxField)
    (v : DesiredValue) : Prop :=
  ∃ c e, Last changes i c ∧ c.row.id = id ∧ Convert.entry c.row = .ok e ∧
    Store.offered f e = v

/-- A discard takes away the intent for an entry of the mirror whose last change
was handed over already, and the server does not agree with it. -/
def Spoils (o : Journal) (body : Transaction) (db : Db) : Prop :=
  ∃ batch, Statement.discard batch ∈ body ∧ ∃ id ∈ batch.entryIds,
    id ∈ Store.heldIds db ∧
      Outbox.pendingFor id batch.value.field db = some batch.value ∧
        ∃ i ∈ o.handed, ∃ v, Serves o.changes i id batch.value.field v ∧ v ≠ batch.value

def commit (body : Transaction) (db : Db) (o : Journal) : Journal :=
  { o with
    handed := o.handed ∪ o.handedBy body
    spoiled := o.spoiled ∨ o.Spoils body db }

end Commit

end Journal

/-- A server with a journal, and a reader at work on the mirror. -/
def journal [UrlLibrary] : Outside Journal where
  send _ request o r o' :=
    ∃ o₁, o.Grows o₁ ∧ o.Answers o₁ request r ∧ o' = o₁.offer request r
  now o _ o' := o' = o
  commit := Journal.commit
  env w w' :=
    w.outside.Grows w'.outside ∧
      ∃ body : Transaction, (∀ s ∈ body, s.ByReader) ∧ w'.db = body.exec w.db

namespace Journal

/-! ## Changes not handed over -/

/-- The `i`-th change was not handed to the mirror yet. -/
def Unhanded (o : Journal) (i : ℕ) (c : Change) : Prop :=
  o.changes[i]? = some c ∧ i ∉ o.handed

/-- What is handed over is handed over with everything before it. -/
def Closed (o : Journal) : Prop :=
  ∀ i j c d, i ≤ j → o.changes[i]? = some c → o.changes[j]? = some d →
    c.row.id = d.row.id → j ∈ o.handed → i ∈ o.handed

theorem Grows.refl (o : Journal) : o.Grows o where
  now := le_rfl
  changes := ⟨[], by simp⟩
  offered := rfl
  handed := rfl
  spoiled := rfl

theorem Grows.getElem? {o o' : Journal} (h : o.Grows o') {i : ℕ} {c : Change}
    (hc : o.changes[i]? = some c) : o'.changes[i]? = some c := by
  obtain ⟨fresh, hfresh, -⟩ := h.changes
  have hi : i < o.changes.length := (List.getElem?_eq_some_iff.1 hc).1
  rw [hfresh, List.getElem?_append_left hi]
  exact hc

/-- A change is an old one, or it became visible just now. -/
theorem Grows.fresh {o o' : Journal} (h : o.Grows o') {i : ℕ} {c : Change}
    (hc : o'.changes[i]? = some c) :
    o.changes[i]? = some c ∨ o.changes.length ≤ i ∧ o.now < c.stamp + 60 * micros := by
  obtain ⟨fresh, hfresh, hstamps⟩ := h.changes
  rw [hfresh] at hc
  rcases Nat.lt_or_ge i o.changes.length with hi | hi
  · rw [List.getElem?_append_left hi] at hc
    exact .inl hc
  · rw [List.getElem?_append_right hi] at hc
    obtain ⟨visible, hnow, -, hstamp⟩ := hstamps c (List.mem_of_getElem? hc)
    exact .inr ⟨hi, by omega⟩

theorem Grows.unhanded {o o' : Journal} (h : o.Grows o') {i : ℕ} {c : Change}
    (hc : o'.Unhanded i c) :
    o.Unhanded i c ∨ o.changes.length ≤ i ∧ o.now < c.stamp + 60 * micros := by
  rcases h.fresh hc.1 with hold | hfresh
  · exact .inl ⟨hold, h.handed ▸ hc.2⟩
  · exact .inr hfresh

theorem Grows.length {o o' : Journal} (h : o.Grows o') :
    o.changes.length ≤ o'.changes.length := by
  obtain ⟨fresh, hfresh, -⟩ := h.changes
  rw [hfresh, List.length_append]
  exact Nat.le_add_right _ _

theorem Closed.grows {o o' : Journal} (hclosed : o.Closed) (hbound : ∀ i ∈ o.handed,
    i < o.changes.length) (h : o.Grows o') : o'.Closed := by
  intro i j c d hij hc hd hid hj
  rw [h.handed] at hj ⊢
  have hjo := hbound j hj
  rcases h.fresh hc with hc' | ⟨hi, -⟩
  · rcases h.fresh hd with hd' | ⟨hj', -⟩
    · exact hclosed i j c d hij hc' hd' hid hj
    · omega
  · omega

/-- Every entry has a last change. -/
theorem exists_last {changes : List Change} {i : ℕ} {c : Change}
    (hc : changes[i]? = some c) :
    ∃ j d, i ≤ j ∧ Last changes j d ∧ d.row.id = c.row.id := by
  induction hleft : changes.length - i using Nat.strongRecOn generalizing i c with
  | ind left ih =>
      by_cases hlast : ∃ j d, i < j ∧ changes[j]? = some d ∧ d.row.id = c.row.id
      · obtain ⟨j, d, hij, hd, hid⟩ := hlast
        have hj : j < changes.length := (List.getElem?_eq_some_iff.1 hd).1
        obtain ⟨k, e, hjk, he, hid'⟩ := ih (changes.length - j) (by omega) hd rfl
        exact ⟨k, e, by omega, he, hid'.trans hid⟩
      · refine ⟨i, c, le_rfl, ⟨hc, ?_⟩, rfl⟩
        intro j d hij hd hid
        exact hlast ⟨j, d, hij, hd, hid⟩

/-! ## Pages -/

/-- An entry that matches is on the page, or the page is full and ends before
it. -/
theorem Lists.covers {query : EntriesQuery} {changes : List Change} {page : List Wire.Entry}
    (h : Lists query changes page) {i : ℕ} {c : Change} (hlast : Last changes i c)
    (hmatches : Matches query c) :
    c.row ∈ page ∨ query.limit ≤ page.length ∧ ∀ row ∈ page, row.id < c.row.id := by
  obtain ⟨rows, hsorted, hrows, rfl⟩ := h
  have hc : c.row ∈ rows := (hrows _).2 ⟨i, c, hlast, hmatches, rfl⟩
  rw [← List.take_append_drop query.limit rows] at hc hsorted
  rcases List.mem_append.1 hc with hc | hc
  · exact .inl hc
  · refine .inr ⟨?_, fun row hrow => (List.pairwise_append.1 hsorted).2.2 row hrow _ hc⟩
    have hdrop := List.length_pos_of_mem hc
    rw [List.length_drop] at hdrop
    rw [List.length_take]
    omega

theorem Lists.sorted {query : EntriesQuery} {changes : List Change} {page : List Wire.Entry}
    (h : Lists query changes page) : page.Pairwise fun r s => r.id < s.id := by
  obtain ⟨rows, hsorted, -, rfl⟩ := h
  exact hsorted.sublist (List.take_sublist _ _)

/-- A page of nothing, where nothing matches. -/
theorem lists_nil {query : EntriesQuery} {changes : List Change}
    (h : ∀ i c, Last changes i c → ¬Matches query c) : Lists query changes [] :=
  ⟨[], .nil, fun row => by simpa using fun i c hlast hmatches _ => h i c hlast hmatches, by simp⟩

/-- A page of the one entry there is, where it matches. -/
theorem lists_singleton {query : EntriesQuery} {c : Change} (hlimit : 0 < query.limit)
    (h : Matches query c) : Lists query [c] [c.row] := by
  refine ⟨[c.row], List.pairwise_singleton _ _, fun row => ?_, ?_⟩
  · constructor
    · rintro hrow
      rw [List.mem_singleton.1 hrow]
      refine ⟨0, c, ⟨rfl, fun j d hj hd => ?_⟩, h, rfl⟩
      simp [Nat.ne_of_gt hj] at hd
    · rintro ⟨i, d, ⟨hd, -⟩, -, rfl⟩
      have hmem := List.mem_of_getElem? hd
      simp only [List.mem_singleton] at hmem ⊢
      rw [hmem]
  · cases hl : query.limit with
    | zero => omega
    | succ n => simp

theorem eq_of_id_eq {page : List Wire.Entry} (hsorted : page.Pairwise fun r s => r.id < s.id)
    {row other : Wire.Entry} (hrow : row ∈ page) (hother : other ∈ page)
    (hid : other.id = row.id) : other = row := by
  have hnodup : (page.map Wire.Entry.id).Nodup :=
    (List.pairwise_map.2 hsorted).imp fun h => h.ne
  exact List.inj_on_of_nodup_map hnodup hother hrow hid

variable [UrlLibrary]

/-- The transaction of a page hands over each of its rows. -/
theorem handedBy_answerTx {page : Wire.EntriesResponse} (cursor : Option ℤ) (generation : ℤ)
    (hsorted : page.entries.Pairwise fun r s => r.id < s.id) {row : Wire.Entry}
    (hrow : row ∈ page.entries) :
    HandedBy (Pull.answerTx page cursor generation) row := by
  unfold HandedBy
  cases hentry : Convert.entry row with
  | ok e =>
      have hkept : row.id ∉ Convert.removedIds page.entries := by
        intro hremoved
        obtain ⟨other, hother, hstatus, hid⟩ := Convert.mem_removedIds.1 hremoved
        rw [eq_of_id_eq hsorted hrow hother hid] at hstatus
        have hname := (Convert.entry_eq_ok hentry).2.2
        rw [hstatus] at hname
        cases hs : e.status <;> simp [hs, EntryStatus.asApiStr] at hname
      refine ⟨generation, Pull.arrivalFor e cursor, List.mem_append_left _ ?_⟩
      exact List.mem_map_of_mem (Convert.mem_valid.2 ⟨row, hrow, hkept, hentry⟩)
  | error err =>
      intro hstatus
      refine List.mem_append_right _ (List.mem_map_of_mem ?_)
      exact Convert.mem_removedIds.2 ⟨row, hrow, hstatus, rfl⟩

end Journal

end Vuo
