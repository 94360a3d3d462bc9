import Vuo.Foundation.Paging
import Vuo.Verification.Deletions.Rules
import Vuo.Verification.Mirror.Equations

/-!
# The catalog of ids

A server as a catalog of ids that changes as it likes while a listing runs,
except that an id once given is never given again. The outside keeps the
pages answered, the sets the catalog went through, and the ids deleted.
-/

namespace Vuo

open Foundation MinifluxClient Paging

namespace Pull

/-- One answered page of ids: the catalog at that moment, what was asked, and
the answer. -/
structure IdPage where
  ids : Finset ℤ
  query : EntriesQuery
  offset : ℕ
  answer : Wire.EntryIdsResponse

/-- The ids in the order a query asks for. -/
def Arranged (query : EntriesQuery) (ids : Finset ℤ) (l : List ℤ) : Prop :=
  l.Nodup ∧ l.toFinset = ids ∧
    (query.order = .id → match query.direction with
      | .asc => l.Pairwise (· ≤ ·)
      | .desc => l.Pairwise (· ≥ ·))

/-- The page is cut out of the catalog as the request asks, and the total is
the number of its ids. -/
def IdPage.Honest (p : IdPage) : Prop :=
  p.answer.total = p.ids.card ∧ ∃ l, Arranged p.query p.ids l ∧
    p.answer.entryIds = (l.drop p.offset).take p.query.limit

/-- The catalog now, every id it ever had, the pages answered, the sets it went
through since the first request and up to the last answer, and the ids deleted
from the mirror. -/
structure Catalog where
  ids : Finset ℤ
  past : Finset ℤ
  pages : List IdPage
  since : List (Finset ℤ)
  during : List (Finset ℤ)
  deleted : Set ℤ

def Catalog.start (ids : Finset ℤ) : Catalog where
  ids := ids
  past := ids
  pages := []
  since := []
  during := []
  deleted := ∅

def answeredIds (ids : Finset ℤ) : (request : Request) → Answer request → List IdPage
  | .entryIds query offset, .ok response =>
      if 200 ≤ response.status ∧ response.status < 300 then
        match response.body with
        | .ok answer => [⟨ids, query, offset, answer⟩]
        | .error _ => []
      else []
  | _, _ => []

/-- Ids leave and larger ones join. -/
structure Catalog.Changes (o o' : Catalog) : Prop where
  past : o'.past = o.past ∪ o'.ids
  fresh : ∀ y ∈ o'.ids, y ∉ o.ids → ∀ x ∈ o.past, x < y
  since : o'.since = if o.since = [] then [] else o.since ++ [o'.ids]
  pages : o'.pages = o.pages
  during : o'.during = o.during
  deleted : o'.deleted = o.deleted

/-- A server that answers anything, over a catalog; the mirror's set of entries
is the reconcile's own to change. -/
def catalog : Outside Catalog where
  send _ request o r o' :=
    o' = { o with
      pages := o.pages ++ answeredIds o.ids request r
      since := o.since ++ [o.ids]
      during := o.since ++ [o.ids] }
  now o _ o' := o' = o
  commit body db o :=
    { o with
      deleted := o.deleted ∪ (Store.heldIds db \ Store.heldIds (body.exec db)) }
  env w w' :=
    w.outside.Changes w'.outside ∧ Store.heldIds w'.db = Store.heldIds w.db

/-! ## What a listing shows -/

def collected (pages : List IdPage) : Finset ℤ :=
  (pages.flatMap fun p => p.answer.entryIds).toFinset

/-- The listing cannot be acted on: its total is negative, the ids collected do
not come to it, or its last page was still a full one. -/
def Refused (pages : List IdPage) : Prop :=
  (∃ first ∈ pages.head?, first.answer.total < 0 ∨
      ((collected pages).card : ℤ) ≠ first.answer.total) ∨
    ∃ last ∈ pages.getLast?, reconcilePage ≤ last.answer.entryIds.length

/-- The catalog at each page. -/
def sets (pages : List IdPage) : List (Finset ℤ) :=
  pages.map IdPage.ids

/-- The listing ends at a short page with as many ids as the first set has,
and still one of the mirror's entries, in the catalog at every page, slipped
over a page boundary. -/
def Misleads (sets : List (Finset ℤ)) (mirror : Set ℤ) : Prop :=
  (∀ last ∈ sets.getLast?, last.card < reconcilePage * sets.length) ∧
    (∀ first ∈ sets.head?, (listed reconcilePage 0 sets).card = first.card) ∧
    ∃ id ∈ mirror, (∀ S ∈ sets, id ∈ S) ∧ Slips reconcilePage id 0 sets

/-- Nothing that was in the catalog throughout is deleted; a refused listing
deletes nothing; and a listing of a catalog that stays the same completes and
leaves no entry the catalog has not. -/
structure Reconciles (ids : Finset ℤ) (outcome : Reconcile) (w : World Catalog) : Prop where
  absent : ∀ id ∈ w.outside.deleted, ∃ S ∈ w.outside.during, id ∉ S
  refused : Refused w.outside.pages → w.outside.deleted = ∅ ∧ outcome.completed = false
  unchanged : (∀ S ∈ w.outside.during, S = ids) → ids.card ≤ reconcileLimit →
    outcome.completed = true ∧ ∀ id ∈ Store.heldIds w.db, id ∈ ids

/-! ## The catalog over time -/

/-- An id that leaves does not come back, and one that joins comes last. -/
structure History (o : Catalog) : Prop where
  past : o.ids ⊆ o.past
  begun : o.pages = [] → o.since = []
  kept : ∀ S ∈ o.during, S ∈ o.since
  asked : ∀ p ∈ o.pages, p.ids ⊆ o.past ∧ p.ids ∈ o.during
  falling : ∀ first ∈ o.pages.head?, ∀ x ∈ first.ids, Falling x (sets o.pages)
  joins : ∀ first ∈ o.pages.head?, ∀ last ∈ o.pages.getLast?,
    ∀ x ∈ first.ids, ∀ y ∈ o.ids, y < x → y ∈ last.ids
  since : ∀ first ∈ o.pages.head?, ∀ S ∈ o.since, ∀ x ∈ first.ids, x ∈ o.ids → x ∈ S
  during : ∀ first ∈ o.pages.head?, ∀ last ∈ o.pages.getLast?,
    ∀ S ∈ o.during, ∀ x ∈ first.ids, x ∈ last.ids → x ∈ S

theorem History.start (ids : Finset ℤ) : History (.start ids) := by
  constructor <;> simp [Catalog.start]

theorem History.of_changes {o o' : Catalog} (h : History o) (hchange : o.Changes o') :
    History o' where
  past := by
    rw [hchange.past]
    exact Finset.subset_union_right
  begun := by
    intro hpages
    rw [hchange.pages] at hpages
    rw [hchange.since, if_pos (h.begun hpages)]
  kept := by
    intro S hS
    rw [hchange.during] at hS
    have hsince := h.kept S hS
    rw [hchange.since, if_neg (List.ne_nil_of_mem hsince)]
    exact List.mem_append_left _ hsince
  asked := by
    intro p hp
    rw [hchange.pages] at hp
    obtain ⟨hpast, hduring⟩ := h.asked p hp
    rw [hchange.past, hchange.during]
    exact ⟨hpast.trans Finset.subset_union_left, hduring⟩
  falling := by
    rw [hchange.pages]
    exact h.falling
  joins := by
    rw [hchange.pages]
    intro first hfirst last hlast x hx y hy hlt
    by_cases hold : y ∈ o.ids
    · exact h.joins first hfirst last hlast x hx y hold hlt
    · -- a fresh id is larger than every id of the first page
      have hpast := (h.asked first (List.mem_of_mem_head? hfirst)).1 hx
      have hfresh := hchange.fresh y hy hold x hpast
      omega
  since := by
    rw [hchange.pages, hchange.since]
    intro first hfirst S hS x hx hnow
    have hold : x ∈ o.ids := by
      by_contra hold
      have hpast := (h.asked first (List.mem_of_mem_head? hfirst)).1 hx
      exact absurd (hchange.fresh x hnow hold x hpast) (lt_irrefl x)
    split at hS
    · simp at hS
    · rcases List.mem_append.1 hS with hS | hS
      · exact h.since first hfirst S hS x hx hold
      · rwa [List.mem_singleton.1 hS]
  during := by
    rw [hchange.pages, hchange.during]
    exact h.during

/-- The catalog after one more answered page. -/
def Catalog.answer (o : Catalog) (p : IdPage) : Catalog :=
  { o with
    pages := o.pages ++ [p]
    since := o.since ++ [o.ids]
    during := o.since ++ [o.ids] }

theorem mem_head?_append {α : Type*} {l : List α} {a b : α} :
    b ∈ (l ++ [a]).head? ↔ b ∈ l.head? ∨ l = [] ∧ b = a := by
  cases l <;> simp [eq_comm]

/-- An id of the first page that is still there was there all along. -/
theorem History.answer_mem {o : Catalog} (h : History o) (p : IdPage) :
    ∀ first ∈ (o.answer p).pages.head?, ∀ S ∈ (o.answer p).since,
      ∀ x ∈ first.ids, x ∈ o.ids → x ∈ S := by
  intro first hfirst S hS x hx hnow
  rcases List.mem_append.1 hS with hS | hS
  · rcases mem_head?_append.1 hfirst with hfirst | ⟨hnil, -⟩
    · exact h.since first hfirst S hS x hx hnow
    · simp [h.begun hnil] at hS
  · rwa [List.mem_singleton.1 hS]

theorem History.answer {o : Catalog} (h : History o) {p : IdPage} (hp : p.ids = o.ids) :
    History (o.answer p) where
  past := h.past
  begun := by simp [Catalog.answer]
  kept := fun S hS => hS
  asked := by
    intro q hq
    rcases List.mem_append.1 hq with hq | hq
    · obtain ⟨hpast, hduring⟩ := h.asked q hq
      exact ⟨hpast, List.mem_append_left _ (h.kept _ hduring)⟩
    · rw [List.mem_singleton.1 hq, hp]
      exact ⟨h.past, List.mem_append_right _ (List.mem_singleton_self _)⟩
  falling := by
    intro first hfirst x hx
    have hsets : sets (o.answer p).pages = sets o.pages ++ [o.ids] := by
      simp [sets, Catalog.answer, hp]
    rw [hsets]
    rcases mem_head?_append.1 hfirst with hfirst | ⟨hnil, -⟩
    · refine List.isChain_append.2 ⟨h.falling first hfirst x hx, .singleton _, ?_⟩
      intro S hS T hT y hy hlt
      obtain ⟨last, hlast, rfl⟩ : ∃ last ∈ o.pages.getLast?, last.ids = S := by
        simpa [sets, List.getLast?_map] using hS
      have hT' : o.ids = T := by simpa using hT
      subst hT'
      exact h.joins first hfirst last hlast x hx y hy hlt
    · simp [sets, hnil, Falling]
  joins := by
    intro first hfirst last hlast x hx y hy hlt
    have hlast' : p = last := by simpa [Catalog.answer] using hlast
    rw [← hlast', hp]
    exact hy
  since := h.answer_mem p
  during := by
    intro first hfirst last hlast S hS x hx hnow
    have hlast' : p = last := by simpa [Catalog.answer] using hlast
    rw [← hlast', hp] at hnow
    exact h.answer_mem p first hfirst S hS x hx hnow

theorem History.delete {o : Catalog} (h : History o) (deleted : Set ℤ) :
    History { o with deleted := deleted } :=
  ⟨h.past, h.begun, h.kept, h.asked, h.falling, h.joins, h.since, h.during⟩

/-! ## A listing step by step -/

/-- The pages were asked for one after the other. -/
def AskedFrom : ℕ → List IdPage → Prop
  | _, [] => True
  | offset, p :: pages =>
      (p.query = reconcileQuery ∧ p.offset = offset) ∧
        AskedFrom (offset + reconcilePage) pages

theorem askedFrom_append {offset : ℕ} {pages : List IdPage} {p : IdPage} :
    AskedFrom offset (pages ++ [p]) ↔ AskedFrom offset pages ∧
      p.query = reconcileQuery ∧ p.offset = offset + reconcilePage * pages.length := by
  induction pages generalizing offset with
  | nil => simp [AskedFrom]
  | cons q pages ih =>
      have hoffset : offset + reconcilePage + reconcilePage * pages.length =
          offset + reconcilePage * (pages.length + 1) := by
        rw [Nat.mul_succ]
        omega
      simp [AskedFrom, ih, hoffset, and_assoc]

/-- The pages are those of a listing with this total and these ids so far. -/
structure Listed (pages : List IdPage) (total : Option ℤ) (seen : List ℤ) : Prop where
  asked : AskedFrom 0 pages
  total : total = pages.head?.map fun p => p.answer.total
  seen : seen.toFinset = collected pages

theorem Listed.answer {pages : List IdPage} {total : Option ℤ} {seen : List ℤ}
    (h : Listed pages total seen) (p : IdPage) (hquery : p.query = reconcileQuery)
    (hoffset : p.offset = reconcilePage * pages.length) :
    Listed (pages ++ [p]) (some (total.getD p.answer.total)) (p.answer.entryIds ++ seen) where
  asked := askedFrom_append.2 ⟨h.asked, hquery, by simpa using hoffset⟩
  total := by
    rw [h.total]
    cases pages <;> simp
  seen := by
    have hseen := h.seen
    simp only [collected, List.toFinset_append, List.flatMap_append, List.flatMap_cons,
      List.flatMap_nil, List.append_nil] at hseen ⊢
    rw [hseen, Finset.union_comm]

/-- The last page answered, where it was a full one or not. -/
def LastPage (pages : List IdPage) (full : Prop) : Prop :=
  ∃ last, pages.getLast? = some last ∧ (reconcilePage ≤ last.answer.entryIds.length ↔ full)

theorem LastPage.ne_nil {pages : List IdPage} {full : Prop} (h : LastPage pages full) :
    pages ≠ [] := by
  obtain ⟨last, hlast, -⟩ := h
  intro hnil
  simp [hnil] at hlast

theorem LastPage.not_full {pages : List IdPage} (h : LastPage pages False) :
    ¬LastPage pages True := by
  rintro ⟨last, hlast, hfull⟩
  obtain ⟨last', hlast', hshort⟩ := h
  cases hlast.symm.trans hlast'
  tauto

/-- The guard of the code is the guard of the pages. -/
theorem refused_iff {pages : List IdPage} {total : ℤ} {seen : List ℤ}
    (h : Listed pages (some total) seen) (hshort : LastPage pages False) :
    Refused pages ↔ listingAgrees total seen = false := by
  obtain ⟨first, hfirst, hfirstTotal⟩ := Option.map_eq_some_iff.1 h.total.symm
  obtain ⟨last, hlast, hlastShort⟩ := hshort
  have hcount : seen.dedup.length = (collected pages).card := by
    rw [← h.seen, List.card_toFinset]
  simp only [Refused, Option.mem_def, hfirst, hlast, Option.some.injEq, exists_eq_left',
    hfirstTotal, listingAgrees, hcount, Bool.and_eq_false_iff, decide_eq_false_iff_not]
  have hlast' : ¬reconcilePage ≤ last.answer.entryIds.length := by tauto
  simp only [hlast', or_false, not_le]

/-! ## Honest listings -/

theorem IdPage.Honest.entryIds {p : IdPage} (h : p.Honest) (hquery : p.query = reconcileQuery) :
    p.answer.entryIds = page p.ids p.offset reconcilePage := by
  obtain ⟨-, l, ⟨hnodup, hids, hsorted⟩, hl⟩ := h
  have hasc : l.Pairwise (· ≤ ·) := by
    rw [hquery] at hsorted
    exact hsorted rfl
  have hsort : p.ids.sort = l := by
    rw [← hids]
    exact (List.toFinset_sort (· ≤ ·) hnodup).2 hasc
  rw [hl, page, hsort, hquery]
  rfl

/-- The ids collected are those the windows of the listing show. -/
theorem collected_eq_listed {pages : List IdPage} {offset : ℕ}
    (hhonest : ∀ p ∈ pages, p.Honest) (hasked : AskedFrom offset pages) :
    collected pages = listed reconcilePage offset (sets pages) := by
  induction pages generalizing offset with
  | nil => rfl
  | cons p pages ih =>
      obtain ⟨⟨hquery, hoffset⟩, hasked⟩ := hasked
      have hrest := ih (fun q hq => hhonest q (List.mem_cons_of_mem p hq)) hasked
      have hpage := (hhonest p List.mem_cons_self).entryIds hquery
      simp only [collected, sets, List.flatMap_cons, List.toFinset_append, List.map_cons,
        listed] at hrest ⊢
      rw [hrest, hpage, hoffset]

/-- The last page is a full one exactly when its catalog reaches beyond it. -/
theorem lastPage_full {pages : List IdPage} {offset : ℕ} {last : IdPage}
    (hhonest : last.Honest) (hasked : AskedFrom offset pages)
    (hlast : pages.getLast? = some last) :
    reconcilePage ≤ last.answer.entryIds.length ↔
      offset + reconcilePage * pages.length ≤ last.ids.card := by
  obtain ⟨front, rfl⟩ := List.getLast?_eq_some_iff.1 hlast
  obtain ⟨-, hquery, hoffset⟩ := askedFrom_append.1 hasked
  rw [hhonest.entryIds hquery, hoffset, length_page, List.length_append, List.length_singleton,
    Nat.mul_succ]
  simp only [reconcilePage]
  omega

/-- An honest listing is acted on exactly when it ends at a short page with as
many ids as the first set has. -/
theorem accepted_iff {pages : List IdPage} (hhonest : ∀ p ∈ pages, p.Honest)
    (hasked : AskedFrom 0 pages) :
    ¬Refused pages ↔
      (∀ last ∈ (sets pages).getLast?, last.card < reconcilePage * (sets pages).length) ∧
        ∀ first ∈ (sets pages).head?,
          (listed reconcilePage 0 (sets pages)).card = first.card := by
  have hlast : ∀ last ∈ pages.getLast?, (¬reconcilePage ≤ last.answer.entryIds.length ↔
      last.ids.card < reconcilePage * (sets pages).length) := by
    intro last hlast
    have hfull := lastPage_full (hhonest last (List.mem_of_getLast? hlast)) hasked hlast
    simp only [sets, List.length_map]
    omega
  have hfirst : ∀ first ∈ pages.head?,
      (¬(first.answer.total < 0 ∨ ((collected pages).card : ℤ) ≠ first.answer.total) ↔
        (listed reconcilePage 0 (sets pages)).card = first.ids.card) := by
    intro first hfirst
    rw [(hhonest first (List.mem_of_mem_head? hfirst)).1,
      collected_eq_listed hhonest hasked]
    omega
  have hsplit : ¬Refused pages ↔
      (∀ last ∈ pages.getLast?, ¬reconcilePage ≤ last.answer.entryIds.length) ∧
        ∀ first ∈ pages.head?,
          ¬(first.answer.total < 0 ∨ ((collected pages).card : ℤ) ≠ first.answer.total) := by
    rw [Refused, or_comm]
    simp only [not_or, not_exists, not_and]
  rw [hsplit]
  refine and_congr ?_ ?_
  · simp only [sets, List.getLast?_map, Option.mem_def, Option.map_eq_some_iff,
      forall_exists_index, and_imp, forall_apply_eq_imp_iff₂]
    exact forall₂_congr hlast
  · simp only [sets, List.head?_map, Option.mem_def, Option.map_eq_some_iff,
      forall_exists_index, and_imp, forall_apply_eq_imp_iff₂]
    exact forall₂_congr hfirst

/-- An id of the catalog at every page is missed exactly when it slips. -/
theorem notMem_listed_iff {o : Catalog} (h : History o)
    (hshort : ∀ last ∈ (sets o.pages).getLast?,
      last.card < reconcilePage * (sets o.pages).length)
    (hne : o.pages ≠ []) {id : ℤ} (hid : ∀ S ∈ sets o.pages, id ∈ S) :
    id ∉ listed reconcilePage 0 (sets o.pages) ↔ Slips reconcilePage id 0 (sets o.pages) := by
  obtain ⟨first, rest, hpages⟩ := List.exists_cons_of_ne_nil hne
  have hfall : Falling id (sets o.pages) :=
    h.falling first (by simp [hpages]) id (hid _ (by simp [sets, hpages]))
  simp only [sets, hpages, List.map_cons] at hshort hid hfall ⊢
  rw [mem_listed_iff hfall hid (Nat.zero_le _) (by simpa using hshort), not_not]

end Pull

end Vuo
