import Mathlib.Data.Int.Interval
import Vuo.Verification.Deletions.Catalog

/-!
# What a reconcile deletes

The reconcile against a catalog that changes while the listing runs. Its count
guard lets one kind of torn listing through: as many fresh ids read as initial
ones missed, and a mirrored entry among those missed.
-/

namespace Vuo

open Foundation MinifluxClient Paging

namespace Pull

/-! ## A reconcile step by step -/

variable (mirror : Set ℤ)

/-- A page is about to be asked for. -/
def AtOffset (offset : ℕ) (total : Option ℤ) (seen : List ℤ) (w : World Catalog) : Prop :=
  History w.outside ∧ (Listed w.outside.pages total seen ∧
    offset = reconcilePage * w.outside.pages.length ∧ w.outside.deleted = ∅ ∧
    Store.heldIds w.db = mirror)

/-- The listing ended, at a short page or at none. -/
def AtListed (r : Option (ℤ × List ℤ)) (w : World Catalog) : Prop :=
  History w.outside ∧ (match r with
    | some (total, seen) => Listed w.outside.pages (some total) seen ∧
        LastPage w.outside.pages False
    | none => (∃ total seen, Listed w.outside.pages total seen) ∧
        LastPage w.outside.pages True ∧
        reconcileLimit < reconcilePage * w.outside.pages.length) ∧
    w.outside.deleted = ∅ ∧ Store.heldIds w.db = mirror

/-- The listing was accepted and the local ids are known. -/
def AtStale (seen : List ℤ) (localIds : List EntryId) (w : World Catalog) : Prop :=
  History w.outside ∧ (∃ total, listingAgrees total seen = true ∧
    Listed w.outside.pages (some total) seen) ∧ LastPage w.outside.pages False ∧
    (∀ id, id ∈ localIds ↔ id ∈ mirror) ∧ w.outside.deleted = ∅ ∧ Store.heldIds w.db = mirror

/-- How a reconcile ends: refused and without effect, or with exactly the
entries deleted that the listing does not name. -/
def AtEndOf (outcome : Reconcile) (w : World Catalog) : Prop :=
  History w.outside ∧ (AskedFrom 0 w.outside.pages ∧ w.outside.pages ≠ [] ∧
    ((LastPage w.outside.pages True → reconcileLimit < reconcilePage * w.outside.pages.length) ∧
    (outcome.completed = false ∧ Refused w.outside.pages ∧ w.outside.deleted = ∅ ∨
      outcome.completed = true ∧ ¬Refused w.outside.pages ∧
        w.outside.deleted = mirror \ collected w.outside.pages ∧
        Store.heldIds w.db = mirror ∩ collected w.outside.pages)))

theorem stable_catalog (P : List IdPage → Set ℤ → Set ℤ → Prop) :
    catalog.setting.Stable fun w =>
      History w.outside ∧ P w.outside.pages w.outside.deleted (Store.heldIds w.db) := by
  rintro w w' ⟨hchange, hheld⟩ ⟨hhistory, hP⟩
  refine ⟨hhistory.of_changes hchange, ?_⟩
  rw [hchange.pages, hchange.deleted, hheld]
  exact hP

theorem mem_staleIds {localIds : List EntryId} {seen : List ℤ} {id : EntryId} :
    id ∈ staleIds localIds seen ↔ id ∈ localIds ∧ id ∉ seen := by
  simp [staleIds]

theorem stable_atOffset (offset : ℕ) (total : Option ℤ) (seen : List ℤ) :
    catalog.setting.Stable (AtOffset mirror offset total seen) :=
  stable_catalog fun pages deleted held =>
    Listed pages total seen ∧ offset = reconcilePage * pages.length ∧
      deleted = ∅ ∧ held = mirror

theorem stable_atListed (r : Option (ℤ × List ℤ)) :
    catalog.setting.Stable (AtListed mirror r) := by
  rcases r with _ | ⟨total, seen⟩
  · exact stable_catalog fun pages deleted held =>
      ((∃ total seen, Listed pages total seen) ∧ LastPage pages True ∧
        reconcileLimit < reconcilePage * pages.length) ∧ deleted = ∅ ∧ held = mirror
  · exact stable_catalog fun pages deleted held =>
      (Listed pages (some total) seen ∧ LastPage pages False) ∧ deleted = ∅ ∧ held = mirror

theorem stable_atStale (seen : List ℤ) (localIds : List EntryId) :
    catalog.setting.Stable (AtStale mirror seen localIds) :=
  stable_catalog fun pages deleted held =>
    (∃ total, listingAgrees total seen = true ∧ Listed pages (some total) seen) ∧
      LastPage pages False ∧ (∀ id, id ∈ localIds ↔ id ∈ mirror) ∧ deleted = ∅ ∧ held = mirror

theorem stable_atEndOf (outcome : Reconcile) : catalog.setting.Stable (AtEndOf mirror outcome) :=
  stable_catalog fun pages deleted held =>
    AskedFrom 0 pages ∧ pages ≠ [] ∧
      ((LastPage pages True → reconcileLimit < reconcilePage * pages.length) ∧
      (outcome.completed = false ∧ Refused pages ∧ deleted = ∅ ∨
        outcome.completed = true ∧ ¬Refused pages ∧
          deleted = mirror \ collected pages ∧ held = mirror ∩ collected pages))

variable {mirror}

theorem Listed.mem_stale {pages : List IdPage} {total : Option ℤ} {seen : List ℤ}
    (h : Listed pages total seen) {localIds : List EntryId}
    (hids : ∀ id, id ∈ localIds ↔ id ∈ mirror) {id : EntryId} :
    id ∈ staleIds localIds seen ↔ id ∈ mirror ∧ id ∉ collected pages := by
  rw [mem_staleIds, hids, ← h.seen, List.mem_toFinset]

theorem listingFollows_of_answer {offset : ℕ} {total : Option ℤ} {seen : List ℤ}
    {page : Wire.EntryIdsResponse} {w : World Catalog} (h : AtOffset mirror offset total seen w) :
    ListingFollows (AtOffset mirror) (AtListed mirror) offset total seen page
      (w.setOutside (w.outside.answer ⟨w.outside.ids, reconcileQuery, offset, page⟩)) := by
  obtain ⟨hhistory, hlisted, hoffset, hdeleted, hheld⟩ := h
  have hhistory' := hhistory.answer (p := ⟨w.outside.ids, reconcileQuery, offset, page⟩) rfl
  have hlisted' := hlisted.answer ⟨w.outside.ids, reconcileQuery, offset, page⟩ rfl hoffset
  have hlast : (w.outside.answer ⟨w.outside.ids, reconcileQuery, offset, page⟩).pages.getLast? =
      some ⟨w.outside.ids, reconcileQuery, offset, page⟩ := by
    simp [Catalog.answer]
  have hlength : offset + reconcilePage = reconcilePage *
      (w.outside.answer ⟨w.outside.ids, reconcileQuery, offset, page⟩).pages.length := by
    simp [Catalog.answer, Nat.mul_succ, hoffset]
  constructor
  · intro hshort
    exact ⟨hhistory', ⟨hlisted', _, hlast, by simpa using hshort⟩, hdeleted, hheld⟩
  · intro hfull hlimit
    rw [hlength] at hlimit
    exact ⟨hhistory', ⟨⟨_, _, hlisted'⟩, ⟨_, hlast, by simpa using hfull⟩, hlimit⟩,
      hdeleted, hheld⟩
  · intro _ _
    exact ⟨hhistory', hlisted', hlength, hdeleted, hheld⟩

variable {ids : Finset ℤ} {db : Db} {cells : ℕ → Option ServerVersion} {outcome : Reconcile}
  {w : World Catalog}

/-! ## How a reconcile may end -/

/-- A misleading listing costs an entry that was in the catalog throughout. -/
theorem AtEndOf.loses (h : AtEndOf mirror outcome w)
    (hhonest : ∀ p ∈ w.outside.pages, p.Honest)
    (hmisleads : Misleads (sets w.outside.pages) mirror) :
    ∃ id ∈ w.outside.deleted, ∀ S ∈ w.outside.during, id ∈ S := by
  obtain ⟨hhistory, hasked, hne, -, hend⟩ := h
  obtain ⟨hshort, hcount, id, hmirror, hid, hslips⟩ := hmisleads
  have haccepted := (accepted_iff hhonest hasked).2 ⟨hshort, hcount⟩
  rcases hend with ⟨-, hrefused, -⟩ | ⟨-, -, hdeleted, -⟩
  · exact absurd hrefused haccepted
  · have hmissed := (notMem_listed_iff hhistory hshort hne hid).2 hslips
    refine ⟨id, ?_, ?_⟩
    · rw [hdeleted, collected_eq_listed hhonest hasked]
      exact ⟨hmirror, by simpa using hmissed⟩
    · intro S hS
      refine hhistory.during _ (List.head_mem_head? hne) _
        (List.getLast_mem_getLast? hne) S hS id ?_ ?_
      · exact hid _ (List.mem_map_of_mem (List.head_mem hne))
      · exact hid _ (List.mem_map_of_mem (List.getLast_mem hne))

theorem AtEndOf.refused (h : AtEndOf mirror outcome w) (hrefused : Refused w.outside.pages) :
    w.outside.deleted = ∅ ∧ outcome.completed = false := by
  obtain ⟨-, -, -, -, ⟨hcompleted, -, hdeleted⟩ | ⟨-, haccepted, -⟩⟩ := h
  · exact ⟨hdeleted, hcompleted⟩
  · exact absurd hrefused haccepted

/-- What is deleted without having left the catalog was missed by a misleading
listing. -/
theorem AtEndOf.absent (h : AtEndOf mirror outcome w)
    (hhonest : ∀ p ∈ w.outside.pages, p.Honest)
    (hsound : ¬Misleads (sets w.outside.pages) mirror) :
    ∀ id ∈ w.outside.deleted, ∃ S ∈ w.outside.during, id ∉ S := by
  obtain ⟨hhistory, hasked, hne, -, hend⟩ := h
  intro id hgone
  by_contra hnever
  have hkept : ∀ S ∈ w.outside.during, id ∈ S := by
    intro S hS
    by_contra habsent
    exact hnever ⟨S, hS, habsent⟩
  rcases hend with ⟨-, -, hdeleted⟩ | ⟨-, haccepted, hdeleted, -⟩
  · simp [hdeleted] at hgone
  · rw [hdeleted, collected_eq_listed hhonest hasked] at hgone
    obtain ⟨hshort, hcount⟩ := (accepted_iff hhonest hasked).1 haccepted
    have hid : ∀ S ∈ sets w.outside.pages, id ∈ S := by
      intro S hS
      obtain ⟨p, hp, rfl⟩ := List.mem_map.1 hS
      exact hkept _ (hhistory.asked p hp).2
    have hslips := (notMem_listed_iff hhistory hshort hne hid).1 (by simpa using hgone.2)
    exact hsound ⟨hshort, hcount, id, hgone.1, hid, hslips⟩

/-- A listing of a catalog that stays the same, and is not too long to be
listed, completes. -/
theorem AtEndOf.unchanged (h : AtEndOf mirror outcome w)
    (hhonest : ∀ p ∈ w.outside.pages, p.Honest)
    (hsame : ∀ S ∈ w.outside.during, S = ids) (hcard : ids.card ≤ reconcileLimit) :
    outcome.completed = true ∧ ∀ id ∈ Store.heldIds w.db, id ∈ ids := by
  obtain ⟨hhistory, hasked, hne, hendless, hend⟩ := h
  have hsets : ∀ S ∈ sets w.outside.pages, S = ids := by
    intro S hS
    obtain ⟨p, hp, rfl⟩ := List.mem_map.1 hS
    exact hsame _ (hhistory.asked p hp).2
  have hshort : ids.card < reconcilePage * (sets w.outside.pages).length := by
    have hlast := List.getLast?_eq_some_getLast hne
    have hmem := List.getLast_mem hne
    have hfull := lastPage_full (hhonest _ hmem) hasked hlast
    rw [hsets _ (List.mem_map_of_mem hmem)] at hfull
    have hlimit : ¬reconcilePage ≤ (w.outside.pages.getLast hne).answer.entryIds.length := by
      intro hpage
      have hreach := hendless ⟨_, hlast, by simpa using hpage⟩
      have hsize := hfull.1 hpage
      omega
    simp only [sets, List.length_map]
    omega
  have hlisted : listed reconcilePage 0 (sets w.outside.pages) = ids :=
    listed_const hsets (by simpa [sets] using hne) hshort
  have haccepted : ¬Refused w.outside.pages := by
    refine (accepted_iff hhonest hasked).2 ⟨?_, ?_⟩
    · intro last hlast
      rw [hsets last (List.mem_of_getLast? hlast)]
      exact hshort
    · intro first hfirst
      rw [hsets first (List.mem_of_mem_head? hfirst), hlisted]
  rcases hend with ⟨-, hrefused, -⟩ | ⟨hcompleted, -, -, hheld⟩
  · exact absurd hrefused haccepted
  · refine ⟨hcompleted, ?_⟩
    intro id hid
    rw [hheld, collected_eq_listed hhonest hasked, hlisted] at hid
    simpa using hid.2

/-! ## Runs -/

/-- The page an honest server answers. -/
noncomputable def honestPage (ids : Finset ℤ) (offset : ℕ) : IdPage where
  ids := ids
  query := reconcileQuery
  offset := offset
  answer :=
    { total := ids.card
      entryIds := page ids offset reconcilePage }

theorem honest_honestPage (ids : Finset ℤ) (offset : ℕ) : (honestPage ids offset).Honest :=
  ⟨rfl, ids.sort (· ≤ ·),
    ⟨ids.sort_nodup _, ids.sort_toFinset _, fun _ => ids.pairwise_sort (· ≤ ·)⟩, rfl⟩

/-- The catalog moves on to a new set. -/
def Catalog.change (o : Catalog) (ids : Finset ℤ) : Catalog :=
  { o with
    ids := ids
    past := o.past ∪ ids
    since := if o.since = [] then [] else o.since ++ [ids] }

theorem env_change {w : World Catalog} (ids : Finset ℤ)
    (hfresh : ∀ y ∈ ids, y ∉ w.outside.ids → ∀ x ∈ w.outside.past, x < y) :
    catalog.setting.env w (w.setOutside (w.outside.change ids)) :=
  ⟨⟨rfl, hfresh, rfl, rfl, rfl, rfl⟩, rfl⟩

section Runs

variable [Endpoints] {client : MinifluxClient}

/-- What an answered page of ids leaves, and what the client reads off it. -/
theorem answered_ids {offset : ℕ} {w : World Catalog}
    {r : Answer (.entryIds reconcileQuery offset)} {o : Catalog}
    {page : Wire.EntryIdsResponse}
    (hsend : catalog.send client.transport (.entryIds reconcileQuery offset) w.outside r o)
    (hresult : readResult client (.entryIds reconcileQuery offset) r = .ok page) :
    o = w.outside.answer ⟨w.outside.ids, reconcileQuery, offset, page⟩ := by
  cases r with
  | error e => cases hresult
  | ok response =>
      obtain ⟨hlo, hhi, hbody⟩ := decode_eq_ok hresult
      have hpages : answeredIds w.outside.ids (.entryIds reconcileQuery offset) (.ok response) =
          [⟨w.outside.ids, reconcileQuery, offset, page⟩] := by
        simp only [answeredIds]
        rw [if_pos ⟨hlo, hhi⟩, hbody]
      exact hsend.trans (by rw [hpages]; rfl)

theorem wpe_reconcile_catalog {w : World Catalog} (hw : AtOffset mirror 0 none [] w) :
    catalog.setting.wpe Outside.noPromise (reconcile client) (AtEndOf mirror)
      (fun _ _ => True) w := by
  refine wpe_reconcile (stable_atListed mirror) (stable_atStale mirror) (stable_atEndOf mirror)
    (fun _ => Setting.stable_const _)
    (wpe_reconcilePages (stable_atOffset mirror) (stable_atListed mirror)
      (fun _ => Setting.stable_const _) ?_ 0 none [] hw)
    ?_ ?_ ?_ ?_ ?_ (fun _ _ _ _ _ => ⟨trivial, trivial⟩)
  · intro offset total seen w₁ h₁ r o hsend
    refine ⟨trivial, ?_⟩
    cases hresult : readResult client (.entryIds reconcileQuery offset) r with
    | error e => trivial
    | ok page =>
        rw [answered_ids hsend hresult]
        exact listingFollows_of_answer h₁
  · rintro w₁ ⟨hhistory, ⟨⟨total, seen, hlisted⟩, ⟨last, hlast, hfull⟩, hlimit⟩, hdeleted, hheld⟩
    have hne : w₁.outside.pages ≠ [] := by
      intro hnil
      simp [hnil] at hlast
    exact ⟨hhistory, hlisted.asked, hne, fun _ => hlimit,
      .inl ⟨rfl, .inr ⟨last, hlast, hfull.2 trivial⟩, hdeleted⟩⟩
  · rintro total seen w₁ hrefuse ⟨hhistory, ⟨hlisted, hshort⟩, hdeleted, hheld⟩
    exact ⟨hhistory, hlisted.asked, hshort.ne_nil, fun h => absurd h hshort.not_full,
      .inl ⟨rfl, (refused_iff hlisted hshort).2 hrefuse, hdeleted⟩⟩
  · rintro total seen w₁ hagrees ⟨hhistory, ⟨hlisted, hshort⟩, hdeleted, hheld⟩
    refine ⟨fun _ => trivial, ⟨hhistory, ⟨total, hagrees, hlisted⟩, hshort, ?_, hdeleted, hheld⟩,
      fun _ => trivial⟩
    intro id
    rw [← hheld]
    exact Store.mem_localEntryIds
  · rintro seen ids w₁ ⟨hhistory, ⟨total, hagrees, hlisted⟩, hshort, hids, hdeleted, hheld⟩ hnil
    have haccepted : ¬Refused w₁.outside.pages := by simp [refused_iff hlisted hshort, hagrees]
    have hall : mirror ⊆ collected w₁.outside.pages := by
      intro id hid
      by_contra hmissing
      have hstale := (hlisted.mem_stale hids).2 ⟨hid, hmissing⟩
      simp [hnil] at hstale
    refine ⟨hhistory, hlisted.asked, hshort.ne_nil, fun h => absurd h hshort.not_full,
      .inr ⟨rfl, haccepted, ?_, ?_⟩⟩
    · rw [hdeleted, Set.sdiff_eq_empty.2 hall]
    · rw [hheld, Set.inter_eq_left.2 hall]
  · rintro seen ids w₁ ⟨hhistory, ⟨total, hagrees, hlisted⟩, hshort, hids, hdeleted, hheld⟩ -
    have haccepted : ¬Refused w₁.outside.pages := by simp [refused_iff hlisted hshort, hagrees]
    have hheld₁ : ∀ id, id ∈ Store.heldIds w₁.db ↔ id ∈ mirror := fun id => by rw [hheld]
    have hheld₂ : ∀ id, id ∈ Store.heldIds ((staleTx ids seen).exec w₁.db) ↔
        id ∈ mirror ∧ id ∈ collected w₁.outside.pages := by
      intro id
      rw [staleTx, Store.mem_heldIds_deleteEntries, hheld₁, hlisted.mem_stale hids]
      tauto
    refine ⟨trivial, hhistory.delete _, hlisted.asked, hshort.ne_nil,
      fun h => absurd h hshort.not_full, .inr ⟨rfl, haccepted, ?_, ?_⟩⟩
    · ext id
      have hdel : id ∈ (catalog.commitTo (staleTx ids seen) w₁).outside.deleted ↔
          id ∈ w₁.outside.deleted ∨
            id ∈ Store.heldIds w₁.db ∧ id ∉ Store.heldIds ((staleTx ids seen).exec w₁.db) :=
        Iff.rfl
      have hpages : (catalog.commitTo (staleTx ids seen) w₁).outside.pages =
          w₁.outside.pages :=
        rfl
      rw [hdel, hheld₁, hheld₂, hdeleted, hpages]
      simp only [Set.mem_empty_iff_false, false_or, Set.mem_sdiff, Finset.mem_coe]
      tauto
    · exact Set.ext hheld₂

theorem reconcile_ends
    (hrun : catalog.setting.Reaches ((reconcile client).run, ⟨db, cells, .start ids⟩)
      (.done (.ok outcome), w)) : AtEndOf (Store.heldIds db) outcome w := by
  have hstart : AtOffset (Store.heldIds db) 0 none [] (⟨db, cells, .start ids⟩ : World Catalog) :=
    ⟨.start ids, ⟨trivial, rfl, rfl⟩, rfl, rfl, rfl⟩
  exact Setting.wpe_finished (Q := AtEndOf (Store.heldIds db)) (wpe_reconcile_catalog hstart) hrun

theorem reaches_entryIds (offset : ℕ) (w : World Catalog) :
    catalog.setting.Reaches ((client.entryIds reconcileQuery offset).run, w)
      (.done (.ok (honestPage w.outside.ids offset).answer),
        w.setOutside (w.outside.answer (honestPage w.outside.ids offset))) := by
  have hsend : catalog.send client.transport (.entryIds reconcileQuery offset) w.outside
      (answered 200 (honestPage w.outside.ids offset).answer none)
      (w.outside.answer (honestPage w.outside.ids offset)) :=
    rfl
  exact reaches_getJson hsend

/-- A full page leads to the next one. -/
theorem reaches_fullPage {offset : ℕ} {total : Option ℤ} {seen : List ℤ} {w : World Catalog}
    (hfull : offset + reconcilePage ≤ w.outside.ids.card)
    (hlimit : offset + reconcilePage ≤ reconcileLimit) :
    catalog.setting.Reaches ((reconcilePages client offset total seen).run, w)
      ((reconcilePages client (offset + reconcilePage) (some (total.getD w.outside.ids.card))
          (page w.outside.ids offset reconcilePage ++ seen)).run,
        w.setOutside (w.outside.answer (honestPage w.outside.ids offset))) := by
  have hshort : ¬(honestPage w.outside.ids offset).answer.entryIds.length < reconcilePage := by
    rw [honestPage, length_page]
    omega
  rw [reconcilePages]
  refine ((reaches_entryIds offset w).bind_ok _).trans ?_
  dsimp only
  rw [if_neg hshort, dif_neg hlimit.not_gt]
  exact .refl

/-- A short page ends the listing. -/
theorem reaches_shortPage {offset : ℕ} {total : Option ℤ} {seen : List ℤ} {w : World Catalog}
    (hshort : w.outside.ids.card < offset + reconcilePage) :
    catalog.setting.Reaches ((reconcilePages client offset total seen).run, w)
      (.done (.ok (some (total.getD w.outside.ids.card,
          page w.outside.ids offset reconcilePage ++ seen))),
        w.setOutside (w.outside.answer (honestPage w.outside.ids offset))) := by
  have hpage : (honestPage w.outside.ids offset).answer.entryIds.length < reconcilePage :=
    (length_page_lt (by decide)).2 hshort
  rw [reconcilePages]
  refine ((reaches_entryIds offset w).bind_ok _).trans ?_
  dsimp only
  rw [if_pos hpage]
  exact .refl

/-- A reconcile whose listing is accepted runs to its end. -/
theorem reaches_reconcile {total : ℤ} {seen : List ℤ} {w w' : World Catalog}
    (hlisting : catalog.setting.Reaches ((reconcilePages client 0 none []).run, w)
      (.done (.ok (some (total, seen))), w'))
    (hagrees : listingAgrees total seen = true) :
    ∃ outcome w₁, catalog.setting.Reaches ((reconcile client).run, w)
      (.done (.ok outcome), w₁) ∧ w₁.outside.pages = w'.outside.pages := by
  have hend : ∃ outcome w₁, catalog.setting.Reaches
      ((deleteUnlisted (some (total, seen))).run, w') (.done (.ok outcome), w₁) ∧
        w₁.outside.pages = w'.outside.pages := by
    rw [deleteUnlisted, if_pos hagrees]
    have hread := (Outside.reaches_query (O := catalog) .localEntryIds w').bind_ok
      (fun localIds => (do
        let stale := staleIds localIds seen
        if stale = [] then return { completed := true, deleted := 0 }
        else
          let _ ← Action.withTx (stale.map .deleteEntry)
          return { completed := true, deleted := stale.length } : Action Reconcile))
    dsimp only at hread
    split at hread
    · exact ⟨_, _, hread.trans .refl, rfl⟩
    · exact ⟨_, _, hread.trans ((Outside.reaches_withTx _ w').bind_ok _), rfl⟩
  obtain ⟨outcome, w₁, hend, hpages⟩ := hend
  exact ⟨outcome, w₁, (hlisting.bind_ok deleteUnlisted).trans hend, hpages⟩

end Runs

/-! ## A listing torn without a trace -/

/-- The ids from `a` to `b`. -/
def idsFrom (a b : ℤ) : Finset ℤ :=
  (Finset.range (b + 1 - a).toNat).image fun n : ℕ => a + n

@[simp]
theorem mem_idsFrom {a b x : ℤ} : x ∈ idsFrom a b ↔ a ≤ x ∧ x ≤ b := by
  simp only [idsFrom, Finset.mem_image, Finset.mem_range]
  constructor
  · rintro ⟨n, hn, rfl⟩
    omega
  · intro hx
    exact ⟨(x - a).toNat, by omega, by omega⟩

@[simp]
theorem card_idsFrom (a b : ℤ) : (idsFrom a b).card = (b + 1 - a).toNat := by
  rw [idsFrom, Finset.card_image_of_injective, Finset.card_range]
  intro m n h
  simpa using h

theorem rank_idsFrom {a b x : ℤ} (hx : x ≤ b) : rank (idsFrom a b) x = (x - a).toNat := by
  have hfilter : (idsFrom a b).filter (fun y => y < x) = idsFrom a (x - 1) := by
    ext y
    simp only [Finset.mem_filter, mem_idsFrom]
    omega
  rw [rank, hfilter, card_idsFrom]
  congr 1
  omega

theorem toFinset_page_idsFrom (a b : ℤ) (offset limit : ℕ) :
    (page (idsFrom a b) offset limit).toFinset =
      idsFrom (a + offset) (min b (a + offset + limit - 1)) := by
  ext x
  rw [List.mem_toFinset, mem_page, mem_idsFrom, mem_idsFrom]
  constructor
  · rintro ⟨⟨hlo, hhi⟩, hrank⟩
    rw [rank_idsFrom hhi] at hrank
    omega
  · intro hx
    rw [rank_idsFrom (by omega)]
    omega

/-- The ids 1 to 2000, of which 1 is deleted and 2001 added behind the first
page. -/
abbrev movedSets : List (Finset ℤ) :=
  [idsFrom 1 2000, idsFrom 2 2001, idsFrom 2 2001]

theorem listed_moved :
    listed reconcilePage 0 movedSets = idsFrom 1 1000 ∪ idsFrom 1002 2001 := by
  ext x
  simp only [listed, toFinset_page_idsFrom, reconcilePage, Finset.mem_union,
    mem_idsFrom, Finset.notMem_empty, or_false]
  omega

theorem card_listed_moved : (listed reconcilePage 0 movedSets).card = 2000 := by
  have hdisjoint : Disjoint (idsFrom 1 1000) (idsFrom 1002 2001) := by
    rw [Finset.disjoint_left]
    intro x hx hx'
    simp only [mem_idsFrom] at hx hx'
    omega
  rw [listed_moved, Finset.card_union_of_disjoint hdisjoint, card_idsFrom, card_idsFrom]
  rfl

theorem misleads_moved : Misleads movedSets (Store.heldIds (mirrorOf 1001)) := by
  refine ⟨?_, ?_, 1001, rfl, by simp, .inl ⟨?_, ?_⟩⟩
  · intro last hlast
    have hlast' : idsFrom 2 2001 = last := by simpa using hlast
    rw [← hlast', card_idsFrom]
    decide
  · intro first hfirst
    have hfirst' : idsFrom 1 2000 = first := by simpa using hfirst
    rw [card_listed_moved, ← hfirst', card_idsFrom]
    rfl
  · rw [rank_idsFrom (by decide)]
    decide
  · rw [rank_idsFrom (by decide)]
    decide

section Runs

variable [Endpoints] {client : MinifluxClient}

/-- The listing of the moved catalog is accepted. -/
theorem reaches_moved (client : MinifluxClient) (cells : ℕ → Option ServerVersion) :
    ∃ total seen w, catalog.setting.Reaches ((reconcilePages client 0 none []).run,
        ⟨mirrorOf 1001, cells, .start (idsFrom 1 2000)⟩)
        (.done (.ok (some (total, seen))), w) ∧
      listingAgrees total seen = true ∧
      w.outside.pages = [honestPage (idsFrom 1 2000) 0,
        honestPage (idsFrom 2 2001) (0 + reconcilePage),
        honestPage (idsFrom 2 2001) (0 + reconcilePage + reconcilePage)] := by
  refine ⟨_, _, _, (reaches_fullPage ?_ ?_).trans (.head (.env (env_change (idsFrom 2 2001) ?_))
    ((reaches_fullPage ?_ ?_).trans (reaches_shortPage ?_))), ?_, rfl⟩
  · simp [Catalog.start, reconcilePage]
  · decide
  · intro y hy hnew x hx
    simp only [World.outside_setOutside, Catalog.answer, Catalog.start, mem_idsFrom] at hy hnew hx
    omega
  · simp [Catalog.change, reconcilePage]
  · decide
  · simp [Catalog.change, Catalog.answer, reconcilePage]
  · have hunion (a b c : List ℤ) : (c ++ (b ++ (a ++ []))).toFinset =
        a.toFinset ∪ (b.toFinset ∪ (c.toFinset ∪ ∅)) := by
      ext x
      simp only [List.toFinset_append, List.toFinset_nil, Finset.mem_union]
      tauto
    have hcount := card_listed_moved
    rw [movedSets, listed, listed, listed, listed, ← hunion, List.card_toFinset] at hcount
    have htotal : ((idsFrom 1 2000).card : ℤ) = 2000 := by
      rw [card_idsFrom]
      rfl
    have hagrees : ∀ (total : ℤ) (seen : List ℤ), total = 2000 → seen.dedup.length = 2000 →
        listingAgrees total seen = true := by
      rintro total seen rfl hlength
      simp [listingAgrees, hlength]
    exact hagrees _ _ htotal hcount

/-! ## When a reconcile is safe -/

/-- A refused listing, whoever answered it, deletes nothing. Against an honest
server a reconcile meets its promise exactly when its listing does not mislead
it. -/
theorem reconcile_safe_iff
    (hrun : catalog.setting.Reaches ((reconcile client).run, ⟨db, cells, .start ids⟩)
      (.done (.ok outcome), w)) :
    (Refused w.outside.pages → w.outside.deleted = ∅ ∧ outcome.completed = false) ∧
      ((∀ p ∈ w.outside.pages, p.Honest) →
        (Reconciles ids outcome w ↔ ¬Misleads (sets w.outside.pages) (Store.heldIds db))) := by
  have hend := reconcile_ends hrun
  have hrefused := hend.refused
  refine ⟨hrefused, fun hhonest => ⟨?_, ?_⟩⟩
  · intro hsafe hmisleads
    obtain ⟨id, hgone, hkept⟩ := hend.loses hhonest hmisleads
    obtain ⟨S, hS, habsent⟩ := hsafe.absent id hgone
    exact habsent (hkept S hS)
  · intro hsound
    exact ⟨hend.absent hhonest hsound, hrefused, hend.unchanged hhonest⟩

end Runs

section Moved

open scoped Reader

/-- A catalog of one id: nothing slips, and the promise is kept. -/
theorem reconcile_safe_iff_single : ∃ (outcome : Reconcile) (w : World Catalog),
    sets w.outside.pages = [{7}] ∧
      (Reconciles {7} outcome w ↔
        ¬Misleads (sets w.outside.pages) (Store.heldIds (mirrorOf 7))) := by
  have hlisting : catalog.setting.Reaches ((reconcilePages readerClient 0 none []).run,
      (⟨mirrorOf 7, fun _ => none, .start {7}⟩ : World Catalog)) _ :=
    reaches_shortPage (by decide)
  have hagrees : listingAgrees ((none : Option ℤ).getD ({7} : Finset ℤ).card)
      (page {7} 0 reconcilePage ++ []) = true := by
    have hpage : page ({7} : Finset ℤ) 0 reconcilePage = [7] := by simp [page, reconcilePage]
    rw [hpage]
    rfl
  obtain ⟨outcome, w, hrun, hpages⟩ := reaches_reconcile hlisting hagrees
  have hpage : w.outside.pages = [honestPage {7} 0] := hpages
  refine ⟨outcome, w, by rw [hpage]; rfl, (reconcile_safe_iff hrun).2 ?_⟩
  rw [hpage]
  simpa using honest_honestPage {7} 0

/-- Id 1001 is in the catalog throughout and deleted: the deletion of 1 moves it
over the page boundary, and 2001 makes up for it in the count. -/
theorem reconcile_deletes_live : ∃ (outcome : Reconcile) (w : World Catalog),
    catalog.setting.Reaches ((reconcile readerClient).run,
        ⟨mirrorOf 1001, fun _ => none, .start (idsFrom 1 2000)⟩) (.done (.ok outcome), w) ∧
      (∀ p ∈ w.outside.pages, p.Honest) ∧ sets w.outside.pages = movedSets ∧
      ∃ id ∈ w.outside.deleted, ∀ S ∈ w.outside.during, id ∈ S := by
  obtain ⟨total, seen, w, hlisting, hagrees, hpages⟩ :=
    reaches_moved readerClient fun _ => none
  obtain ⟨outcome, w₁, hrun, hsame⟩ := reaches_reconcile hlisting hagrees
  rw [← hsame] at hpages
  have hhonest : ∀ p ∈ w₁.outside.pages, p.Honest := by
    rw [hpages]
    simp [honest_honestPage]
  have hsets : sets w₁.outside.pages = movedSets := by
    rw [hpages]
    rfl
  refine ⟨outcome, w₁, hrun, hhonest, hsets, (reconcile_ends hrun).loses hhonest ?_⟩
  rw [hsets]
  exact misleads_moved

end Moved

end Pull

end Vuo
