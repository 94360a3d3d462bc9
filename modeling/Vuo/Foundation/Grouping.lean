import Mathlib.Data.List.Perm.Basic
import Mathlib.Order.Lattice
import Mathlib.Tactic.Common

/-!
# Grouping by a key

Items are grouped in a map that keeps its keys in order; each group keeps its
items in the order they came.
-/

namespace Vuo.Foundation.Grouping

variable {κ α β : Type*} [LinearOrder κ]

/-- `map.entry(k).or_default().push(a)`, on the pairs of the map in order. -/
def push (k : κ) (a : α) : List (κ × List α) → List (κ × List α)
  | [] => [(k, [a])]
  | (k', as) :: groups =>
      if k < k' then (k, [a]) :: (k', as) :: groups
      else if k = k' then (k', as ++ [a]) :: groups
      else (k', as) :: push k a groups

/-- What the map holds under a key. -/
def group (k : κ) (groups : List (κ × List α)) : List α :=
  (groups.lookup k).getD []

def Ordered (groups : List (κ × List α)) : Prop :=
  (groups.map Prod.fst).Pairwise (· < ·)

/-- Items one after the other. -/
def grouped (key : β → κ) (value : β → α) (items : List β) : List (κ × List α) :=
  items.foldl (fun groups item => push (key item) (value item) groups) []

/-! ## One item -/

@[simp]
theorem group_nil (k : κ) : group k ([] : List (κ × List α)) = [] :=
  rfl

theorem group_cons (j k : κ) (as : List α) (groups : List (κ × List α)) :
    group j ((k, as) :: groups) = if j = k then as else group j groups := by
  unfold group
  by_cases h : j = k
  · simp [h]
  · rw [List.lookup_cons, beq_false_of_ne h, if_neg h]

theorem mem_keys_push {j k : κ} {a : α} {groups : List (κ × List α)} :
    j ∈ (push k a groups).map Prod.fst ↔ j = k ∨ j ∈ groups.map Prod.fst := by
  induction groups with
  | nil => simp [push]
  | cons g groups ih =>
      obtain ⟨k', as⟩ := g
      unfold push
      split_ifs with hlt heq
      · simp
      · subst heq
        simp
      · simp only [List.map_cons, List.mem_cons, ih]
        tauto

theorem ordered_push {groups : List (κ × List α)} (h : Ordered groups) (k : κ) (a : α) :
    Ordered (push k a groups) := by
  induction groups with
  | nil => simp [push, Ordered]
  | cons g groups ih =>
      obtain ⟨k', as⟩ := g
      obtain ⟨hhead, htail⟩ := List.pairwise_cons.1 h
      unfold push
      split_ifs with hlt heq
      · refine List.pairwise_cons.2 ⟨?_, h⟩
        intro j hj
        rcases List.mem_cons.1 hj with rfl | hj
        · exact hlt
        · exact lt_trans hlt (hhead j hj)
      · exact h
      · refine List.pairwise_cons.2 ⟨?_, ih htail⟩
        intro j hj
        rcases mem_keys_push.1 hj with rfl | hj
        · exact lt_of_le_of_ne (not_lt.1 hlt) (Ne.symm heq)
        · exact hhead j hj

theorem group_of_notMem {k : κ} {groups : List (κ × List α)}
    (h : k ∉ groups.map Prod.fst) : group k groups = [] := by
  induction groups with
  | nil => rfl
  | cons g groups ih =>
      simp only [List.map_cons, List.mem_cons, not_or] at h
      rw [group_cons, if_neg h.1, ih h.2]

theorem group_push {groups : List (κ × List α)} (h : Ordered groups) (j k : κ) (a : α) :
    group j (push k a groups) = if j = k then group j groups ++ [a] else group j groups := by
  induction groups with
  | nil => simp [push, group_cons]
  | cons g groups ih =>
      obtain ⟨k', as⟩ := g
      obtain ⟨hhead, htail⟩ := List.pairwise_cons.1 h
      unfold push
      by_cases hlt : k < k'
      · -- the key is new, and comes before all others
        have hnew : k ∉ ((k', as) :: groups).map Prod.fst := by
          intro hmem
          rcases List.mem_cons.1 hmem with rfl | hmem
          · exact lt_irrefl _ hlt
          · exact lt_asymm hlt (hhead k hmem)
        rw [if_pos hlt, group_cons]
        split_ifs with hj
        · rw [hj, group_of_notMem hnew, List.nil_append]
        · rfl
      · rw [if_neg hlt]
        by_cases heq : k = k'
        · rw [if_pos heq, group_cons, group_cons, heq]
          split_ifs <;> rfl
        · rw [if_neg heq, group_cons, group_cons, ih htail]
          split_ifs with hk' hj
          · exact absurd (hj.symm.trans hk') heq
          · rfl
          · rfl
          · rfl

/-! ## All items -/

variable {key : β → κ} {value : β → α}

theorem ordered_grouped (items : List β) : Ordered (grouped key value items) := by
  have hfold : ∀ (items : List β) (groups : List (κ × List α)), Ordered groups →
      Ordered (items.foldl (fun groups item => push (key item) (value item) groups) groups) := by
    intro items
    induction items with
    | nil => exact fun _ h => h
    | cons item items ih => exact fun groups h => ih _ (ordered_push h _ _)
  exact hfold items [] List.Pairwise.nil

/-- A group holds the values of the items with its key, in their order. -/
theorem group_grouped (k : κ) (items : List β) :
    group k (grouped key value items) = (items.filter fun item => key item = k).map value := by
  have hfold : ∀ (items : List β) (groups : List (κ × List α)), Ordered groups →
      group k (items.foldl (fun groups item => push (key item) (value item) groups) groups) =
        group k groups ++ (items.filter fun item => key item = k).map value := by
    intro items
    induction items with
    | nil => simp
    | cons item items ih =>
        intro groups h
        rw [List.foldl_cons, ih _ (ordered_push h _ _), group_push h]
        by_cases hk : key item = k
        · simp [hk]
        · rw [if_neg (Ne.symm hk), List.filter_cons_of_neg (by simpa using hk)]
  have h := hfold items [] List.Pairwise.nil
  rwa [group_nil, List.nil_append] at h

/-- What is made of the groups one after the other is made of the keys in order, keys
without a group giving nothing. -/
theorem flatMap_groups {γ : Type*} {f : κ → List α → List γ} (hf : ∀ k, f k [] = [])
    {keys : List κ} {groups : List (κ × List α)} (hkeys : keys.Pairwise (· < ·))
    (h : Ordered groups) (hall : ∀ k ∈ groups.map Prod.fst, k ∈ keys) :
    groups.flatMap (fun g => f g.1 g.2) = keys.flatMap fun k => f k (group k groups) := by
  induction keys generalizing groups with
  | nil =>
      have hnone : groups = [] := by
        simpa using List.eq_nil_iff_forall_not_mem.2 fun k hk => List.not_mem_nil (hall k hk)
      rw [hnone]
      rfl
  | cons k keys ih =>
      obtain ⟨hfirst, hrest⟩ := List.pairwise_cons.1 hkeys
      by_cases hmem : k ∈ groups.map Prod.fst
      · cases groups with
        | nil => simp at hmem
        | cons g groups =>
            obtain ⟨k', as⟩ := g
            obtain ⟨hhead, htail⟩ := List.pairwise_cons.1 h
            obtain rfl : k = k' := by
              rcases List.mem_cons.1 hmem with heq | hlater
              · exact heq
              · rcases List.mem_cons.1 (hall k' (by simp)) with heq | hafter
                · exact heq.symm
                · exact absurd (hhead k hlater) (lt_asymm (hfirst k' hafter))
            have hothers : ∀ j ∈ groups.map Prod.fst, j ∈ keys := by
              intro j hj
              rcases List.mem_cons.1 (hall j (List.mem_cons_of_mem _ hj)) with rfl | hkey
              · exact absurd (hhead j hj) (lt_irrefl j)
              · exact hkey
            rw [List.flatMap_cons, List.flatMap_cons, ih hrest htail hothers, group_cons,
              if_pos rfl]
            congr 1
            refine List.flatMap_congr fun j hj => ?_
            rw [group_cons, if_neg (ne_of_gt (hfirst j hj))]
      · have hothers : ∀ j ∈ groups.map Prod.fst, j ∈ keys := by
          intro j hj
          rcases List.mem_cons.1 (hall j hj) with rfl | hkey
          · exact absurd hj hmem
          · exact hkey
        rw [List.flatMap_cons, group_of_notMem hmem, hf, List.nil_append, ih hrest h hothers]

end Vuo.Foundation.Grouping
