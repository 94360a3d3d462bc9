import Mathlib.Algebra.GroupWithZero.Nat
import Mathlib.Data.List.Pairwise
import Mathlib.Data.List.Sort
import Mathlib.Tactic.Common

/-!
# Selecting rows

What a `SELECT` makes of its rows: conditions over columns that may be NULL,
the order of the result, and the part of it that is asked for. A list read
page by page is the list itself, whatever the sizes of the pages.
-/

namespace Vuo.Foundation.Sql

/-! ## Conditions -/

/-- The value of a condition. A comparison with NULL is unknown. -/
inductive Truth
  | no
  | unknown
  | yes
  deriving DecidableEq

namespace Truth

def ofBool (b : Bool) : Truth :=
  if b then yes else no

def not : Truth → Truth
  | no => yes
  | unknown => unknown
  | yes => no

def and : Truth → Truth → Truth
  | yes, t => t
  | unknown, no => no
  | unknown, _ => unknown
  | no, _ => no

def or : Truth → Truth → Truth
  | no, t => t
  | unknown, yes => yes
  | unknown, _ => unknown
  | yes, _ => yes

/-- `WHERE` keeps a row only if the condition is true. -/
def holds (t : Truth) : Bool :=
  t = yes

@[simp]
theorem holds_ofBool (b : Bool) : (ofBool b).holds = b := by
  cases b <;> rfl

@[simp]
theorem not_ofBool (b : Bool) : (ofBool b).not = ofBool !b := by
  cases b <;> rfl

@[simp]
theorem holds_and (s t : Truth) : (s.and t).holds = (s.holds && t.holds) := by
  cases s <;> cases t <;> rfl

@[simp]
theorem holds_or (s t : Truth) : (s.or t).holds = (s.holds || t.holds) := by
  cases s <;> cases t <;> rfl

@[simp]
theorem ofBool_or (b c : Bool) : (ofBool b).or (ofBool c) = ofBool (b || c) := by
  cases b <;> cases c <;> rfl

end Truth

section Comparisons

variable {α : Type*} [DecidableEq α]

/-- `a = b` -/
def eq (a b : Option α) : Truth :=
  match a, b with
  | some a, some b => .ofBool (a = b)
  | _, _ => .unknown

/-- `a IN (values)` -/
def isIn (a : Option α) (values : List (Option α)) : Truth :=
  values.foldr (fun b t => (eq a b).or t) .no

@[simp]
theorem holds_eq (a b : Option α) : (eq a b).holds = decide (∃ x, a = some x ∧ b = some x) := by
  cases a with
  | none => simp [eq, Truth.holds]
  | some a =>
      cases b with
      | none => simp [eq, Truth.holds]
      | some b => simp [eq, eq_comm]

/-- NULL is in no list. -/
theorem holds_isIn (a : Option α) (values : List (Option α)) :
    (isIn a values).holds = decide (∃ x, a = some x ∧ some x ∈ values) := by
  induction values with
  | nil => simp [isIn, Truth.holds]
  | cons b values ih =>
      have hcons : isIn a (b :: values) = (eq a b).or (isIn a values) := rfl
      rw [hcons, Truth.holds_or, ih, holds_eq, ← Bool.decide_or]
      congr 1
      simp only [List.mem_cons, eq_iff_iff]
      constructor
      · rintro (⟨x, ha, hb⟩ | ⟨x, ha, hx⟩)
        · exact ⟨x, ha, .inl hb.symm⟩
        · exact ⟨x, ha, .inr hx⟩
      · rintro ⟨x, ha, hb | hx⟩
        · exact .inl ⟨x, ha, hb.symm⟩
        · exact .inr ⟨x, ha, hx⟩

/-- Without NULL on either side, a value is in a list or it is not. -/
theorem isIn_some (x : α) (values : List α) :
    isIn (some x) (values.map some) = .ofBool (decide (x ∈ values)) := by
  induction values with
  | nil => rfl
  | cons y values ih =>
      have hcons : isIn (some x) ((y :: values).map some) =
          (Truth.ofBool (decide (x = y))).or (isIn (some x) (values.map some)) := rfl
      rw [hcons, ih, Truth.ofBool_or]
      simp [List.mem_cons]

end Comparisons

/-! ## The part that is asked for -/

variable {α : Type*}

/-- `LIMIT limit OFFSET offset`: a negative limit is none. -/
def limitOffset (limit offset : ℤ) (rows : List α) : List α :=
  if limit < 0 then rows.drop offset.toNat else (rows.drop offset.toNat).take limit.toNat

theorem limitOffset_of_length_le {limit : ℤ} {rows : List α} (h : (rows.length : ℤ) ≤ limit) :
    limitOffset limit 0 rows = rows := by
  have hlimit : ¬limit < 0 := by omega
  have hlength : rows.length ≤ limit.toNat := by omega
  simp [limitOffset, hlimit, List.take_of_length_le hlength]

theorem map_limitOffset {β : Type*} (f : α → β) (limit offset : ℤ) (rows : List α) :
    (limitOffset limit offset rows).map f = limitOffset limit offset (rows.map f) := by
  unfold limitOffset
  split <;> simp only [List.map_take, List.map_drop]

theorem limitOffset_sublist (limit offset : ℤ) (rows : List α) :
    (limitOffset limit offset rows).Sublist rows := by
  unfold limitOffset
  split
  · exact List.drop_sublist _ _
  · exact (List.take_sublist _ _).trans (List.drop_sublist _ _)

theorem limitOffset_unlimited (rows : List α) : limitOffset (-1) 0 rows = rows := by
  simp [limitOffset]

/-- Pages of the given sizes one after the other, each from where the one
before it ended. -/
def concatPages (page : ℤ → ℤ → List α) : List ℤ → ℤ → List α
  | [], _ => []
  | limit :: limits, offset =>
      page limit offset ++ concatPages page limits (offset + (page limit offset).length)

/-- What several pages hold together. -/
theorem concatPages_limitOffset (rows : List α) (limits : List ℤ)
    (hlimits : ∀ limit ∈ limits, 0 ≤ limit) (offset : ℕ) :
    concatPages (fun limit offset => limitOffset limit offset rows) limits offset =
      (rows.drop offset).take (limits.map Int.toNat).sum := by
  induction limits generalizing offset with
  | nil => simp [concatPages]
  | cons limit limits ih =>
      have hlimit : ¬limit < 0 := by
        have := hlimits limit List.mem_cons_self
        omega
      have hpage : limitOffset limit offset rows = (rows.drop offset).take limit.toNat := by
        simp [limitOffset, hlimit]
      have hrest := ih (fun l hl => hlimits l (List.mem_cons_of_mem _ hl))
        (offset + ((rows.drop offset).take limit.toNat).length)
      rw [Int.natCast_add] at hrest
      rw [concatPages, hpage, hrest, List.map_cons, List.sum_cons, List.take_add,
        List.drop_drop]
      congr 1
      -- Past the end there is nothing left to skip.
      rw [List.length_take, List.length_drop]
      by_cases hshort : rows.length - offset ≤ limit.toNat
      · rw [Nat.min_eq_right hshort, List.drop_eq_nil_of_le (by omega),
          List.drop_eq_nil_of_le (by omega)]
      · rw [Nat.min_eq_left (by omega)]

/-! ## The order of the result -/

section Order

variable {r : α → α → Prop} [DecidableRel r] [IsTrans α r] [Std.Total r]

/-- Rows selected from a sorted table are the selected rows sorted, where the
order tells any two rows apart. -/
theorem filter_insertionSort {rows : List α}
    (hr : ∀ a ∈ rows, ∀ b ∈ rows, r a b → r b a → a = b) (p : α → Bool) :
    (rows.insertionSort r).filter p = (rows.filter p).insertionSort r := by
  have hperm : ((rows.insertionSort r).filter p).Perm ((rows.filter p).insertionSort r) :=
    ((List.perm_insertionSort r rows).filter p).trans (List.perm_insertionSort r _).symm
  refine @List.Perm.eq_of_pairwise _ r _ _ ?_ ?_ ?_ hperm
  · intro a b ha hb hab hba
    rw [List.mem_filter, List.mem_insertionSort] at ha
    rw [List.mem_insertionSort, List.mem_filter] at hb
    exact hr a ha.1 b hb.1 hab hba
  · exact (List.pairwise_insertionSort r rows).filter _
  · exact List.pairwise_insertionSort r _

/-- Rows sorted are the rows as listed, where the listing is in order. -/
theorem insertionSort_eq_iff {rows listing : List α} (hperm : rows.Perm listing)
    (hr : ∀ a ∈ listing, ∀ b ∈ listing, r a b → r b a → a = b) :
    rows.insertionSort r = listing ↔ listing.Pairwise r := by
  have hsorted := List.pairwise_insertionSort r rows
  constructor
  · rintro rfl
    exact hsorted
  · intro hlisting
    have hsort := (List.perm_insertionSort r rows).trans hperm
    refine List.Perm.eq_of_pairwise (fun a b ha hb => ?_) hsorted hlisting hsort
    exact hr a (hsort.subset ha) b hb

end Order

/-- A listing in one order is in another where the one implies the other. -/
theorem pairwise_iff_of_pairwise {r s : α → α → Prop} {rows : List α} (hnodup : rows.Nodup)
    (hrows : rows.Pairwise r) (hr : ∀ a ∈ rows, ∀ b ∈ rows, r a b → r b a → a = b) :
    rows.Pairwise s ↔ ∀ a ∈ rows, ∀ b ∈ rows, a ≠ b → r a b → s a b := by
  constructor
  · intro hs a ha b hb hne hab
    have : Std.Symm fun a b => (r a b ∧ s a b) ∨ (r b a ∧ s b a) := ⟨fun a b h => h.symm⟩
    have hboth : rows.Pairwise fun a b => (r a b ∧ s a b) ∨ (r b a ∧ s b a) :=
      (hrows.and hs).imp Or.inl
    rcases hboth.forall ha hb hne with h | h
    · exact h.2
    · exact absurd (hr a ha b hb hab h.1) hne
  · intro h
    exact (hrows.and hnodup).imp_of_mem fun ha hb hab => h _ ha _ hb hab.2 hab.1

end Vuo.Foundation.Sql
