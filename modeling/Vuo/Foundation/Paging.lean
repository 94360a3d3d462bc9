import Mathlib.Data.Finset.Sort
import Mathlib.Data.List.Chain
import Mathlib.Tactic.Common

/-!
# Offset paging over a changing set

A listing reads a set page by page, each page by its offset in the sorted set,
while the set changes between the pages. Where nothing joins before an element,
its rank only falls: the listing misses the element exactly when it slips over
a page boundary, from behind it to before it.
-/

namespace Vuo.Foundation.Paging

variable {α : Type*} [LinearOrder α]

/-- How many elements come before `x`. -/
def rank (S : Finset α) (x : α) : ℕ :=
  (S.filter fun y => y < x).card

/-- At most `limit` elements in ascending order, the first `offset` skipped. -/
def page (S : Finset α) (offset limit : ℕ) : List α :=
  (S.sort.drop offset).take limit

theorem rank_lt_card {S : Finset α} {x : α} (hx : x ∈ S) : rank S x < S.card := by
  refine Finset.card_lt_card ?_
  rw [Finset.ssubset_iff_of_subset (Finset.filter_subset _ _)]
  exact ⟨x, hx, by simp⟩

/-- A rank only falls where nothing joins before the element. -/
theorem rank_anti {S S' : Finset α} {x : α} (h : ∀ y ∈ S', y < x → y ∈ S) :
    rank S' x ≤ rank S x := by
  refine Finset.card_le_card ?_
  intro y hy
  obtain ⟨hy, hlt⟩ := Finset.mem_filter.1 hy
  exact Finset.mem_filter.2 ⟨h y hy hlt, hlt⟩

/-- In an ascending list as many elements come before one as its index says. -/
theorem length_filter_lt_getElem {l : List α} (hl : l.Pairwise (· < ·)) {i : ℕ}
    (hi : i < l.length) : (l.filter fun y => y < l[i]).length = i := by
  induction l generalizing i with
  | nil => simp at hi
  | cons a l ih =>
      obtain ⟨ha, hl⟩ := List.pairwise_cons.1 hl
      cases i with
      | zero =>
          have hnone : ∀ y ∈ l, ¬ y < a := fun y hy => (ha y hy).not_gt
          simpa [List.filter_eq_nil_iff] using hnone
      | succ i =>
          have hi' : i < l.length := by simpa using hi
          have hlt : a < l[i] := ha _ (List.getElem_mem hi')
          simp [hlt, ih hl hi']

theorem rank_eq_index {S : Finset α} {i : ℕ} (hi : i < S.sort.length) :
    rank S S.sort[i] = i := by
  have hsorted : S.sort.Pairwise (· < ·) := S.sortedLT_sort.pairwise
  have hfilter : S.filter (fun y => y < S.sort[i]) =
      (S.sort.filter fun y => y < S.sort[i]).toFinset := by
    ext y
    simp
  rw [rank, hfilter, List.toFinset_card_of_nodup ((S.sort_nodup _).filter _)]
  exact length_filter_lt_getElem hsorted hi

/-- A page holds the elements whose rank falls into its window. -/
theorem mem_page {S : Finset α} {offset limit : ℕ} {x : α} :
    x ∈ page S offset limit ↔
      x ∈ S ∧ offset ≤ rank S x ∧ rank S x < offset + limit := by
  constructor
  · intro hx
    obtain ⟨i, hi, rfl⟩ := List.mem_iff_getElem.1 hx
    simp only [page, List.length_take, List.length_drop] at hi
    have hlen : offset + i < S.sort.length := by omega
    simp only [page, List.getElem_take, List.getElem_drop]
    refine ⟨(Finset.mem_sort _).1 (List.getElem_mem hlen), ?_⟩
    rw [rank_eq_index hlen]
    omega
  · rintro ⟨hx, hlo, hhi⟩
    obtain ⟨i, hi, rfl⟩ := List.mem_iff_getElem.1 ((Finset.mem_sort (· ≤ ·)).2 hx)
    rw [rank_eq_index hi] at hlo hhi
    refine List.mem_iff_getElem.2 ⟨i - offset, ?_, ?_⟩
    · simp only [page, List.length_take, List.length_drop]
      omega
    · simp only [page, List.getElem_take, List.getElem_drop]
      congr 1
      omega

theorem nodup_page (S : Finset α) (offset limit : ℕ) : (page S offset limit).Nodup :=
  ((S.sort_nodup _).sublist (List.drop_sublist _ _)).sublist (List.take_sublist _ _)

theorem length_page (S : Finset α) (offset limit : ℕ) :
    (page S offset limit).length = min limit (S.card - offset) := by
  simp [page]

/-- A short page says that its set ends inside its window. -/
theorem length_page_lt {S : Finset α} {offset limit : ℕ} (hlimit : 0 < limit) :
    (page S offset limit).length < limit ↔ S.card < offset + limit := by
  rw [length_page]
  omega

/-! ## Listings -/

section Listing

variable (limit : ℕ)

/-- The elements on the pages of a listing that reads one page of each set. -/
def listed : ℕ → List (Finset α) → Finset α
  | _, [] => ∅
  | offset, S :: sets => (page S offset limit).toFinset ∪ listed (offset + limit) sets

/-- Between two pages `x` moves from behind the boundary to before it. -/
def Slips (x : α) : ℕ → List (Finset α) → Prop
  | offset, S :: S' :: sets =>
      (offset + limit ≤ rank S x ∧ rank S' x < offset + limit) ∨
        Slips x (offset + limit) (S' :: sets)
  | _, _ => False

variable {limit}

theorem listed_append (offset : ℕ) (sets : List (Finset α)) (S : Finset α) :
    listed limit offset (sets ++ [S]) =
      listed limit offset sets ∪ (page S (offset + limit * sets.length) limit).toFinset := by
  induction sets generalizing offset with
  | nil => simp [listed]
  | cons T sets ih =>
      have hoffset : offset + limit + limit * sets.length =
          offset + limit * (sets.length + 1) := by
        rw [Nat.mul_succ]
        omega
      simp only [List.cons_append, listed, List.length_cons, ih, hoffset]
      exact (Finset.union_assoc _ _ _).symm

/-- What a listing holds was a member when its page was read. -/
theorem mem_of_mem_listed {x : α} {offset : ℕ} {sets : List (Finset α)}
    (hx : x ∈ listed limit offset sets) : ∃ S ∈ sets, x ∈ S := by
  induction sets generalizing offset with
  | nil => simp [listed] at hx
  | cons S sets ih =>
      rcases Finset.mem_union.1 hx with hx | hx
      · exact ⟨S, by simp, (mem_page.1 (List.mem_toFinset.1 hx)).1⟩
      · obtain ⟨T, hT, hxT⟩ := ih hx
        exact ⟨T, by simp [hT], hxT⟩

/-- Nothing joins a later set before `x`. -/
def Falling (x : α) (sets : List (Finset α)) : Prop :=
  sets.IsChain fun S S' => ∀ y ∈ S', y < x → y ∈ S

/-- An element ranked before the offset is never reached again. -/
theorem notMem_listed {x : α} {offset : ℕ} {sets : List (Finset α)}
    (hfall : Falling x sets) (hbefore : ∀ S ∈ sets.head?, rank S x < offset) :
    x ∉ listed limit offset sets := by
  induction sets generalizing offset with
  | nil => simp [listed]
  | cons S sets ih =>
      have hS : rank S x < offset := hbefore S (by simp)
      have hrest : ∀ T ∈ sets.head?, rank T x < offset + limit := by
        intro T hT
        cases sets with
        | nil => simp at hT
        | cons T' sets =>
            have hT' : T' = T := by simpa using hT
            subst hT'
            have hle := rank_anti ((List.isChain_cons_cons.1 hfall).1)
            omega
      have hpage : x ∉ page S offset limit := by
        intro hx
        have := (mem_page.1 hx).2.1
        omega
      have hsets := ih hfall.tail hrest
      simp [listed, hpage, hsets]

/-- An element ranked before the first boundary slips over none. -/
theorem not_slips {x : α} {offset : ℕ} {sets : List (Finset α)} (hfall : Falling x sets)
    (hbefore : ∀ S ∈ sets.head?, rank S x < offset + limit) :
    ¬Slips limit x offset sets := by
  induction sets generalizing offset with
  | nil => exact id
  | cons S sets ih =>
      cases sets with
      | nil => exact id
      | cons S' sets =>
          have hS : rank S x < offset + limit := hbefore S (by simp)
          obtain ⟨hjoin, hfall⟩ := List.isChain_cons_cons.1 hfall
          have hle : rank S' x ≤ rank S x := rank_anti hjoin
          rintro (⟨hbehind, -⟩ | hslips)
          · omega
          · refine ih hfall ?_ hslips
            intro T hT
            have hT' : S' = T := by simpa using hT
            subst hT'
            omega

/-- A listing that ends with a short page misses a member of all its sets
exactly when the member slips over a page boundary. -/
theorem mem_listed_iff {x : α} {offset : ℕ} {S : Finset α} {sets : List (Finset α)}
    (hfall : Falling x (S :: sets)) (hmem : ∀ T ∈ S :: sets, x ∈ T)
    (hstart : offset ≤ rank S x)
    (hshort : ∀ T ∈ (S :: sets).getLast?,
      T.card < offset + limit * (S :: sets).length) :
    x ∈ listed limit offset (S :: sets) ↔ ¬Slips limit x offset (S :: sets) := by
  induction sets generalizing offset S with
  | nil =>
      have hS : x ∈ S := hmem S (by simp)
      have hcard : S.card < offset + limit := by simpa using hshort S (by simp)
      have hlt := rank_lt_card hS
      have hin : x ∈ page S offset limit := mem_page.2 ⟨hS, hstart, by omega⟩
      simp [listed, Slips, hin]
  | cons S' sets ih =>
      have hS : x ∈ S := hmem S (by simp)
      obtain ⟨hjoin, hfall'⟩ := List.isChain_cons_cons.1 hfall
      have hle : rank S' x ≤ rank S x := rank_anti hjoin
      have hhead : x ∈ page S offset limit ↔ rank S x < offset + limit := by
        rw [mem_page]
        exact ⟨fun h => h.2.2, fun h => ⟨hS, hstart, h⟩⟩
      rw [listed, Finset.mem_union, List.mem_toFinset, hhead]
      by_cases hin : rank S x < offset + limit
      · have hslips : ¬Slips limit x offset (S :: S' :: sets) :=
          not_slips hfall (by simpa using hin)
        simp [hin, hslips]
      · by_cases hnext : rank S' x < offset + limit
        · have hmiss : x ∉ listed limit (offset + limit) (S' :: sets) :=
            notMem_listed hfall' (by simpa using hnext)
          simp [hin, hmiss, Slips, hnext, Nat.le_of_not_lt hin]
        · have hslips : Slips limit x offset (S :: S' :: sets) ↔
              Slips limit x (offset + limit) (S' :: sets) := by
            simp [Slips, hnext]
          have hrest : x ∈ listed limit (offset + limit) (S' :: sets) ↔
              ¬Slips limit x (offset + limit) (S' :: sets) := by
            refine ih hfall' (fun T hT => hmem T (by simp [hT])) (by omega) ?_
            intro T hT
            have hT' := hshort T (by simpa using hT)
            simp only [List.length_cons, Nat.mul_succ] at hT' ⊢
            omega
          rw [hslips, hrest]
          simp [hin]

/-- Nothing slips over a boundary while the set stays the same. -/
theorem not_slips_const {S : Finset α} {x : α} {sets : List (Finset α)}
    (hconst : ∀ T ∈ sets, T = S) (offset : ℕ) : ¬Slips limit x offset sets := by
  induction sets generalizing offset with
  | nil => exact id
  | cons A sets ih =>
      cases sets with
      | nil => exact id
      | cons B sets =>
          rintro (⟨hbehind, hbefore⟩ | hslips)
          · rw [hconst A (by simp)] at hbehind
            rw [hconst B (by simp)] at hbefore
            omega
          · exact ih (fun C hC => hconst C (by simp [hC])) _ hslips

/-- A listing of one set that ends with a short page holds the set. -/
theorem listed_const {S : Finset α} {sets : List (Finset α)} (hconst : ∀ T ∈ sets, T = S)
    (hne : sets ≠ []) (hshort : S.card < limit * sets.length) :
    listed limit 0 sets = S := by
  ext x
  constructor
  · intro hx
    obtain ⟨T, hT, hxT⟩ := mem_of_mem_listed hx
    rwa [← hconst T hT]
  · intro hx
    obtain ⟨T, rest, rfl⟩ := List.exists_cons_of_ne_nil hne
    have hfall : Falling x (T :: rest) := by
      refine (List.pairwise_of_forall_mem_list ?_).isChain
      intro A hA B hB y hy _
      rwa [hconst A hA, ← hconst B hB]
    refine (mem_listed_iff hfall ?_ (Nat.zero_le _) ?_).2 (not_slips_const hconst 0)
    · intro A hA
      rwa [hconst A hA]
    · intro A hA
      rw [hconst A (List.mem_of_getLast? hA)]
      simpa using hshort

end Listing

end Vuo.Foundation.Paging
