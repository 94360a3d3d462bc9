import Mathlib.Data.List.Sort
import Mathlib.Order.MinMax
import Mathlib.Tactic.Common

/-!
# Half-open intervals

Intervals sorted by their beginnings are merged from left to right, as soon as
they overlap or touch. The merged intervals cover the same points, each is kept
apart from the next, and no new end point appears.
-/

namespace Vuo.Foundation

variable {α : Type*} [LinearOrder α]

/-- The intervals after `last`, merged into it as long as they reach it. -/
def mergeFrom (last : α × α) : List (α × α) → List (α × α)
  | [] => [last]
  | span :: rest =>
      if span.1 ≤ last.2 then mergeFrom (last.1, max last.2 span.2) rest
      else last :: mergeFrom span rest

/-- Overlapping and touching intervals made one. -/
def mergeSpans : List (α × α) → List (α × α)
  | [] => []
  | span :: rest => mergeFrom span rest

/-- The lexicographic order of pairs. -/
def spanLe (a b : α × α) : Prop :=
  a.1 < b.1 ∨ a.1 = b.1 ∧ a.2 ≤ b.2

instance : DecidableRel (@spanLe α _) := fun a b =>
  inferInstanceAs (Decidable (a.1 < b.1 ∨ a.1 = b.1 ∧ a.2 ≤ b.2))

/-- A point is in one of the intervals. -/
def Covers (spans : List (α × α)) (x : α) : Prop :=
  ∃ s ∈ spans, s.1 ≤ x ∧ x < s.2

/-- Sorted by their beginnings. -/
def Ascending (spans : List (α × α)) : Prop :=
  spans.Pairwise fun a b => a.1 ≤ b.1

variable {x : α} {last span : α × α} {spans rest : List (α × α)}

theorem covers_cons : Covers (span :: rest) x ↔ (span.1 ≤ x ∧ x < span.2) ∨ Covers rest x := by
  simp [Covers]

theorem ascending_insertionSort (spans : List (α × α)) :
    Ascending (spans.insertionSort spanLe) := by
  have htotal : Std.Total (@spanLe α _) := ⟨fun a b => by
    rcases lt_trichotomy a.1 b.1 with h | h | h
    · exact .inl (.inl h)
    · rcases le_total a.2 b.2 with h' | h'
      · exact .inl (.inr ⟨h, h'⟩)
      · exact .inr (.inr ⟨h.symm, h'⟩)
    · exact .inr (.inl h)⟩
  have htrans : IsTrans (α × α) spanLe := ⟨fun a b c hab hbc => by
    rcases hab with hab | ⟨hab, hab'⟩
    · rcases hbc with hbc | ⟨hbc, -⟩
      · exact .inl (hab.trans hbc)
      · exact .inl (hbc ▸ hab)
    · rcases hbc with hbc | ⟨hbc, hbc'⟩
      · exact .inl (hab ▸ hbc)
      · exact .inr ⟨hab.trans hbc, hab'.trans hbc'⟩⟩
  refine (List.pairwise_insertionSort spanLe spans).imp ?_
  intro a b hab
  rcases hab with hab | ⟨hab, -⟩
  · exact hab.le
  · exact hab.le

/-! ## Merging -/

theorem covers_mergeFrom (h : Ascending (last :: rest)) :
    Covers (mergeFrom last rest) x ↔ Covers (last :: rest) x := by
  induction rest generalizing last with
  | nil => rfl
  | cons span rest ih =>
      obtain ⟨hlast, hrest⟩ := List.pairwise_cons.1 h
      have hspan : last.1 ≤ span.1 := hlast span List.mem_cons_self
      unfold mergeFrom
      split_ifs with hreach
      · have hmerged : Ascending ((last.1, max last.2 span.2) :: rest) :=
          List.pairwise_cons.2 ⟨fun s hs => hlast s (List.mem_cons_of_mem _ hs), hrest.of_cons⟩
        rw [ih hmerged, covers_cons, covers_cons, covers_cons, lt_max_iff, ← or_assoc]
        refine or_congr_left ⟨?_, ?_⟩
        · rintro ⟨hlo, hhi | hhi⟩
          · exact .inl ⟨hlo, hhi⟩
          · rcases lt_or_ge x last.2 with hx | hx
            · exact .inl ⟨hlo, hx⟩
            · exact .inr ⟨hreach.trans hx, hhi⟩
        · rintro (⟨hlo, hhi⟩ | ⟨hlo, hhi⟩)
          · exact ⟨hlo, .inl hhi⟩
          · exact ⟨hspan.trans hlo, .inr hhi⟩
      · rw [covers_cons, ih hrest, ← covers_cons]

/-- No end point is a new one. -/
theorem ends_mergeFrom {s : α × α} (hs : s ∈ mergeFrom last rest) :
    (∃ a ∈ last :: rest, s.1 = a.1) ∧ ∃ b ∈ last :: rest, s.2 = b.2 := by
  induction rest generalizing last with
  | nil =>
      obtain rfl := List.mem_singleton.1 hs
      exact ⟨⟨s, List.mem_cons_self, rfl⟩, s, List.mem_cons_self, rfl⟩
  | cons span rest ih =>
      unfold mergeFrom at hs
      split_ifs at hs with hreach
      · obtain ⟨⟨a, ha, hsa⟩, b, hb, hsb⟩ := ih hs
        constructor
        · rcases List.mem_cons.1 ha with rfl | ha
          · exact ⟨last, List.mem_cons_self, hsa⟩
          · exact ⟨a, List.mem_cons_of_mem _ (List.mem_cons_of_mem _ ha), hsa⟩
        · rcases List.mem_cons.1 hb with rfl | hb
          · rcases max_choice last.2 span.2 with hmax | hmax
            · exact ⟨last, List.mem_cons_self, hsb.trans hmax⟩
            · exact ⟨span, List.mem_cons_of_mem _ List.mem_cons_self, hsb.trans hmax⟩
          · exact ⟨b, List.mem_cons_of_mem _ (List.mem_cons_of_mem _ hb), hsb⟩
      · rcases List.mem_cons.1 hs with rfl | hs
        · exact ⟨⟨s, List.mem_cons_self, rfl⟩, s, List.mem_cons_self, rfl⟩
        · obtain ⟨⟨a, ha, hsa⟩, b, hb, hsb⟩ := ih hs
          exact ⟨⟨a, List.mem_cons_of_mem _ ha, hsa⟩, b, List.mem_cons_of_mem _ hb, hsb⟩

theorem apart_mergeFrom (h : Ascending (last :: rest)) :
    (mergeFrom last rest).Pairwise fun a b => a.2 < b.1 := by
  induction rest generalizing last with
  | nil => exact List.pairwise_singleton _ _
  | cons span rest ih =>
      obtain ⟨hlast, hrest⟩ := List.pairwise_cons.1 h
      unfold mergeFrom
      split_ifs with hreach
      · exact ih (List.pairwise_cons.2
          ⟨fun s hs => hlast s (List.mem_cons_of_mem _ hs), hrest.of_cons⟩)
      · refine List.pairwise_cons.2 ⟨fun s hs => ?_, ih hrest⟩
        obtain ⟨⟨a, ha, hsa⟩, -⟩ := ends_mergeFrom hs
        have hle : span.1 ≤ a.1 := by
          rcases List.mem_cons.1 ha with rfl | ha
          · exact le_rfl
          · exact (List.pairwise_cons.1 hrest).1 a ha
        rw [hsa]
        exact (lt_of_not_ge hreach).trans_le hle

theorem nonempty_mergeFrom (h : ∀ s ∈ last :: rest, s.1 < s.2) :
    ∀ s ∈ mergeFrom last rest, s.1 < s.2 := by
  induction rest generalizing last with
  | nil => exact h
  | cons span rest ih =>
      have hlast := h last List.mem_cons_self
      have hrest := fun s hs => h s (List.mem_cons_of_mem _ hs)
      unfold mergeFrom
      split_ifs with hreach
      · refine ih fun s hs => ?_
        rcases List.mem_cons.1 hs with rfl | hs
        · exact hlast.trans_le (le_max_left _ _)
        · exact hrest s (List.mem_cons_of_mem _ hs)
      · intro s hs
        rcases List.mem_cons.1 hs with rfl | hs
        · exact hlast
        · exact ih hrest s hs

/-- Merged intervals cover the same points. -/
theorem covers_mergeSpans (h : Ascending spans) : Covers (mergeSpans spans) x ↔ Covers spans x := by
  cases spans with
  | nil => rfl
  | cons span rest => exact covers_mergeFrom h

theorem ends_mergeSpans {s : α × α} (hs : s ∈ mergeSpans spans) :
    (∃ a ∈ spans, s.1 = a.1) ∧ ∃ b ∈ spans, s.2 = b.2 := by
  cases spans with
  | nil => cases hs
  | cons span rest => exact ends_mergeFrom hs

/-- Merged intervals are in order, and do not even touch. -/
theorem apart_mergeSpans (h : Ascending spans) :
    (mergeSpans spans).Pairwise fun a b => a.2 < b.1 := by
  cases spans with
  | nil => exact .nil
  | cons span rest => exact apart_mergeFrom h

theorem nonempty_mergeSpans (h : ∀ s ∈ spans, s.1 < s.2) : ∀ s ∈ mergeSpans spans, s.1 < s.2 := by
  cases spans with
  | nil => exact fun s hs => by cases hs
  | cons span rest => exact nonempty_mergeFrom h

end Vuo.Foundation
