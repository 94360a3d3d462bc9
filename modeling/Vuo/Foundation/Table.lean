import Mathlib.Data.List.Nodup
import Mathlib.Data.List.Pairwise
import Mathlib.Tactic.Common

/-!
# Keyed tables

A table is a list of rows no two of which share a key. The operations are the
statements a relational store is written with; each is described by what a
lookup finds after it.
-/

namespace Vuo.Foundation

/-- Rows with pairwise distinct keys. -/
structure Table {κ ρ : Type*} (key : ρ → κ) where
  rows : List ρ
  nodup : (rows.map key).Nodup

namespace Table

variable {κ ρ : Type*} {key : ρ → κ}

@[ext]
theorem ext {t u : Table key} (h : t.rows = u.rows) : t = u := by
  cases t
  cases u
  simp_all

instance : Membership ρ (Table key) :=
  ⟨fun t r => r ∈ t.rows⟩

theorem mem_def {t : Table key} {r : ρ} : r ∈ t ↔ r ∈ t.rows :=
  Iff.rfl

def empty : Table key :=
  ⟨[], List.nodup_nil⟩

@[simp]
theorem rows_empty : (empty : Table key).rows = [] :=
  rfl

theorem notMem_empty (r : ρ) : r ∉ (empty : Table key) := by
  simp [mem_def]

/-- Two rows of one table with the same key are the same row. -/
theorem eq_of_key_eq {t : Table key} {r s : ρ} (hr : r ∈ t) (hs : s ∈ t)
    (h : key r = key s) : r = s :=
  List.inj_on_of_nodup_map t.nodup hr hs h

/-! ## Deleting and updating -/

/-- `DELETE FROM t WHERE p`. -/
def remove (p : ρ → Bool) (t : Table key) : Table key :=
  ⟨t.rows.filter fun r => !p r, t.nodup.sublist (List.filter_sublist.map key)⟩

@[simp]
theorem mem_remove {p : ρ → Bool} {t : Table key} {r : ρ} :
    r ∈ t.remove p ↔ r ∈ t ∧ p r = false := by
  simp [remove, mem_def]

/-- `UPDATE t SET f WHERE p`, with `f` leaving the key alone. -/
def update (p : ρ → Bool) (f : ρ → ρ) (hf : ∀ r, key (f r) = key r)
    (t : Table key) : Table key where
  rows := t.rows.map fun r => if p r then f r else r
  nodup := by
    have hkey : (key ∘ fun r => if p r then f r else r) = key := by
      funext r
      by_cases h : p r <;> simp [h, hf]
    simpa [hkey] using t.nodup

theorem mem_update {p : ρ → Bool} {f : ρ → ρ} {hf : ∀ r, key (f r) = key r}
    {t : Table key} {r : ρ} :
    r ∈ t.update p f hf ↔ ∃ s ∈ t, (if p s then f s else s) = r := by
  simp [update, mem_def]

theorem update_update {p : ρ → Bool} {f g : ρ → ρ} {hf : ∀ r, key (f r) = key r}
    {hg : ∀ r, key (g r) = key r} (hp : ∀ r, p (f r) = p r) (t : Table key) :
    (t.update p f hf).update p g hg = t.update p (g ∘ f) fun r => (hg _).trans (hf r) := by
  refine ext ?_
  simp only [update, List.map_map]
  refine List.map_congr_left fun r _ => ?_
  by_cases h : p r <;> simp [h, hp]

theorem update_id {p : ρ → Bool} {hf : ∀ r, key (id r) = key r} (t : Table key) :
    t.update p id hf = t := by
  refine ext ?_
  simp [update]

variable [DecidableEq κ]

/-- The row with key `k`, if there is one. -/
def find? (t : Table key) (k : κ) : Option ρ :=
  t.rows.find? fun r => key r = k

theorem find?_eq_some {t : Table key} {k : κ} {r : ρ} :
    t.find? k = some r ↔ r ∈ t ∧ key r = k := by
  constructor
  · intro h
    exact ⟨List.mem_of_find?_eq_some h, by simpa using List.find?_some h⟩
  · rintro ⟨hr, rfl⟩
    cases hfound : t.find? (key r) with
    | none =>
        have hnone := List.find?_eq_none.1 hfound r hr
        simp at hnone
    | some s =>
        have hs : s ∈ t := List.mem_of_find?_eq_some hfound
        have hkey : key s = key r := by simpa using List.find?_some hfound
        rw [eq_of_key_eq hs hr hkey]

theorem find?_eq_none {t : Table key} {k : κ} :
    t.find? k = none ↔ ∀ r ∈ t, key r ≠ k := by
  simp [find?, List.find?_eq_none, mem_def]

theorem mem_of_find? {t : Table key} {k : κ} {r : ρ} (h : t.find? k = some r) :
    r ∈ t :=
  (find?_eq_some.1 h).1

theorem key_of_find? {t : Table key} {k : κ} {r : ρ} (h : t.find? k = some r) :
    key r = k :=
  (find?_eq_some.1 h).2

theorem find?_of_mem {t : Table key} {r : ρ} (h : r ∈ t) :
    t.find? (key r) = some r :=
  find?_eq_some.2 ⟨h, rfl⟩

@[simp]
theorem find?_empty (k : κ) : (empty : Table key).find? k = none :=
  rfl

/-- Whether a row has key `k`. -/
def contains (t : Table key) (k : κ) : Bool :=
  (t.find? k).isSome

theorem contains_iff {t : Table key} {k : κ} :
    t.contains k = true ↔ ∃ r ∈ t, key r = k := by
  simp [contains, Option.isSome_iff_exists, find?_eq_some]

theorem find?_remove (p : ρ → Bool) (t : Table key) (k : κ) :
    (t.remove p).find? k = (t.find? k).filter fun r => !p r := by
  ext r
  simp [find?_eq_some, Option.filter_eq_some_iff]
  tauto

theorem find?_update (p : ρ → Bool) (f : ρ → ρ) (hf : ∀ r, key (f r) = key r)
    (t : Table key) (k : κ) :
    (t.update p f hf).find? k =
      (t.find? k).map fun r => if p r then f r else r := by
  have hkey : ∀ s, key (if p s then f s else s) = key s := by
    intro s
    by_cases h : p s <;> simp [h, hf]
  ext r
  simp only [find?_eq_some, mem_update, Option.map_eq_some_iff]
  constructor
  · rintro ⟨⟨s, hs, rfl⟩, hk⟩
    exact ⟨s, ⟨hs, (hkey s).symm.trans hk⟩, rfl⟩
  · rintro ⟨s, ⟨hs, hk⟩, rfl⟩
    exact ⟨⟨s, hs, rfl⟩, (hkey s).trans hk⟩

@[simp]
theorem contains_update (p : ρ → Bool) (f : ρ → ρ) (hf : ∀ r, key (f r) = key r)
    (t : Table key) (k : κ) : (t.update p f hf).contains k = t.contains k := by
  rw [contains, find?_update, Option.isSome_map, contains]

/-! ## Inserting -/

/-- `INSERT OR REPLACE INTO t`. -/
def put (r : ρ) (t : Table key) : Table key where
  rows := (t.remove fun s => key s = key r).rows ++ [r]
  nodup := by
    rw [List.map_append, List.nodup_append]
    refine ⟨(t.remove _).nodup, by simp, ?_⟩
    rintro k hk l hl rfl
    simp only [List.mem_map, List.map_cons, List.map_nil, List.mem_singleton] at hk hl
    obtain ⟨s, hs, rfl⟩ := hk
    have hne := (mem_remove.1 (mem_def.2 hs)).2
    simp [hl] at hne

@[simp]
theorem mem_put {r s : ρ} {t : Table key} :
    s ∈ t.put r ↔ s = r ∨ s ∈ t ∧ key s ≠ key r := by
  simp only [put, mem_def, List.mem_append, List.mem_singleton]
  rw [← mem_def, mem_remove]
  simp only [decide_eq_false_iff_not]
  tauto

theorem find?_put (r : ρ) (t : Table key) (k : κ) :
    (t.put r).find? k = if key r = k then some r else t.find? k := by
  ext s
  split
  case isTrue h =>
    subst h
    simp only [find?_eq_some, mem_put, Option.some.injEq]
    constructor
    · rintro ⟨rfl | ⟨-, hne⟩, hk⟩
      · rfl
      · exact absurd hk hne
    · rintro rfl
      exact ⟨.inl rfl, rfl⟩
  case isFalse h =>
    simp only [find?_eq_some, mem_put]
    constructor
    · rintro ⟨rfl | ⟨hs, -⟩, hk⟩
      · exact absurd hk h
      · exact ⟨hs, hk⟩
    · rintro ⟨hs, rfl⟩
      exact ⟨.inr ⟨hs, fun hk => h hk.symm⟩, rfl⟩

theorem contains_put (r : ρ) (t : Table key) (k : κ) :
    (t.put r).contains k = (decide (key r = k) || t.contains k) := by
  rw [contains, find?_put]
  by_cases h : key r = k <;> simp [h, contains]

/-- `INSERT INTO t ... ON CONFLICT DO UPDATE`: `r` where its key is free, and
otherwise the row already there changed by `f`. -/
def upsert (r : ρ) (f : ρ → ρ) (hf : ∀ s, key (f s) = key s) (t : Table key) :
    Table key :=
  if t.contains (key r) then t.update (fun s => key s = key r) f hf else t.put r

theorem find?_upsert (r : ρ) (f : ρ → ρ) (hf : ∀ s, key (f s) = key s)
    (t : Table key) (k : κ) :
    (t.upsert r f hf).find? k =
      if key r = k then some ((t.find? k).elim r f) else t.find? k := by
  unfold upsert
  split
  case isTrue hc =>
    rw [find?_update]
    split
    case isTrue h =>
      subst h
      obtain ⟨s, hs⟩ := Option.isSome_iff_exists.1 hc
      simp [hs, key_of_find? hs]
    case isFalse h =>
      cases hs : t.find? k with
      | none => rfl
      | some s =>
          have hne : key s ≠ key r := by
            rw [key_of_find? hs]
            exact fun e => h e.symm
          simp [hne]
  case isFalse hc =>
    rw [find?_put]
    split
    case isTrue h =>
      subst h
      have hnone : t.find? (key r) = none := by simpa [contains] using hc
      simp [hnone]
    case isFalse h => rfl

/-- Upserting the same row twice, when what it changes stays as it changed it. -/
theorem upsert_upsert {r : ρ} {f : ρ → ρ} {hf : ∀ s, key (f s) = key s}
    (hff : ∀ s, f (f s) = f s) (hfr : f r = r) (t : Table key) :
    (t.upsert r f hf).upsert r f hf = t.upsert r f hf := by
  have hc : (t.upsert r f hf).contains (key r) = true := by
    simp [contains, find?_upsert]
  rw [upsert, if_pos hc]
  ext1
  unfold upsert
  split
  case isTrue h =>
    simp only [update, List.map_map]
    refine List.map_congr_left fun s _ => ?_
    by_cases hs : key s = key r <;> simp [hs, hf, hff]
  case isFalse h =>
    simp only [update, put, remove, List.map_append, List.map_cons, List.map_nil, decide_true,
      if_true, hfr]
    congr 1
    refine (List.map_congr_left fun s hs => ?_).trans (List.map_id _)
    simp only [List.mem_filter, Bool.not_eq_true', decide_eq_false_iff_not] at hs
    simp [hs.2]

/-! ## Inserting several rows -/

/-- `INSERT OR REPLACE` of one row after the other. -/
def putAll (rows : List ρ) (t : Table key) : Table key :=
  rows.foldl (fun t r => t.put r) t

/-- The last of the rows with key `k`. -/
def lastOf (key : ρ → κ) (k : κ) (rows : List ρ) : Option ρ :=
  rows.reverse.find? fun r => key r = k

theorem lastOf_concat (k : κ) (rows : List ρ) (r : ρ) :
    lastOf key k (rows ++ [r]) = if key r = k then some r else lastOf key k rows := by
  rw [lastOf, List.reverse_append]
  by_cases h : key r = k <;> simp [lastOf, h]

theorem key_of_lastOf {k : κ} {rows : List ρ} {r : ρ} (h : lastOf key k rows = some r) :
    key r = k := by
  simpa using List.find?_some h

theorem mem_of_lastOf {k : κ} {rows : List ρ} {r : ρ} (h : lastOf key k rows = some r) :
    r ∈ rows :=
  List.mem_reverse.1 (List.mem_of_find?_eq_some h)

theorem isSome_lastOf {k : κ} {rows : List ρ} :
    (lastOf key k rows).isSome = true ↔ k ∈ rows.map key := by
  simp [lastOf, List.find?_isSome]

theorem lastOf_eq_none {k : κ} {rows : List ρ} :
    lastOf key k rows = none ↔ k ∉ rows.map key := by
  rw [← isSome_lastOf, Bool.not_eq_true, Option.isSome_eq_false_iff, Option.isNone_iff_eq_none]

/-- The last row of each key. -/
def lastOfEach (key : ρ → κ) (rows : List ρ) : List ρ :=
  rows.pwFilter fun r s => key r ≠ key s

theorem mem_map_lastOfEach {rows : List ρ} {k : κ} :
    k ∈ (lastOfEach key rows).map key ↔ k ∈ rows.map key := by
  induction rows with
  | nil => simp [lastOfEach]
  | cons r rows ih =>
      by_cases h : ∀ s ∈ lastOfEach key rows, key r ≠ key s
      · have hcons : lastOfEach key (r :: rows) = r :: lastOfEach key rows :=
          List.pwFilter_cons_of_pos h
        rw [hcons, List.map_cons, List.map_cons, List.mem_cons, List.mem_cons, ih]
      · have hcons : lastOfEach key (r :: rows) = lastOfEach key rows :=
          List.pwFilter_cons_of_neg h
        rw [hcons, ih, List.map_cons, List.mem_cons, or_iff_right_of_imp]
        rintro rfl
        push Not at h
        obtain ⟨s, hs, hkey⟩ := h
        exact ih.1 (hkey ▸ List.mem_map_of_mem hs)

theorem lastOfEach_subset (rows : List ρ) : lastOfEach key rows ⊆ rows :=
  List.pwFilter_subset rows

theorem lastOfEach_eq_self {rows : List ρ} :
    lastOfEach key rows = rows ↔ (rows.map key).Nodup := by
  rw [lastOfEach, List.pwFilter_eq_self, List.Nodup, List.pairwise_map]

/-- What is held stays, save where a row put has its key. -/
theorem rows_putAll (rows : List ρ) (t : Table key) :
    (t.putAll rows).rows =
      (t.rows.filter fun s => key s ∉ rows.map key) ++ lastOfEach key rows := by
  induction rows generalizing t with
  | nil => simp [putAll, lastOfEach]
  | cons r rows ih =>
      have hput : (t.put r).rows = (t.rows.filter fun s => !decide (key s = key r)) ++ [r] := rfl
      have hcons : t.putAll (r :: rows) = (t.put r).putAll rows := rfl
      have hheld : (t.rows.filter fun s => !decide (key s = key r)).filter
          (fun s => key s ∉ rows.map key) =
          t.rows.filter fun s => key s ∉ (r :: rows).map key := by
        rw [List.filter_filter]
        congr 1
        funext s
        by_cases h : key s = key r <;> simp [h]
      rw [hcons, ih, hput, List.filter_append, hheld, List.append_assoc]
      congr 1
      by_cases h : key r ∈ rows.map key
      · have hlast : lastOfEach key (r :: rows) = lastOfEach key rows := by
          refine List.pwFilter_cons_of_neg fun hne => ?_
          obtain ⟨s, hs, hkey⟩ := List.mem_map.1 (mem_map_lastOfEach.2 h)
          exact hne s hs hkey.symm
        rw [hlast, List.filter_cons_of_neg (by simpa using h)]
        rfl
      · have hlast : lastOfEach key (r :: rows) = r :: lastOfEach key rows := by
          refine List.pwFilter_cons_of_pos fun s hs hkey => h ?_
          exact hkey ▸ List.mem_map_of_mem (lastOfEach_subset rows hs)
        rw [hlast, List.filter_cons_of_pos (by simpa using h)]
        rfl

theorem mem_putAll {rows : List ρ} {t : Table key} {r : ρ} :
    r ∈ t.putAll rows ↔ r ∈ lastOfEach key rows ∨ r ∈ t ∧ key r ∉ rows.map key := by
  simp only [mem_def, rows_putAll, List.mem_append, List.mem_filter, decide_eq_true_eq]
  tauto

/-- Rows that are taken out before they are put: doing it again changes
nothing. -/
theorem remove_putAll {p : ρ → Bool} {rows : List ρ} (hrows : ∀ r ∈ rows, p r = true)
    (t : Table key) :
    (((t.remove p).putAll rows).remove p).putAll rows = (t.remove p).putAll rows := by
  have hnone : (lastOfEach key rows).filter (fun r => !p r) = [] := by
    rw [List.filter_eq_nil_iff]
    intro r hr
    simp [hrows r (lastOfEach_subset rows hr)]
  ext1
  simp only [rows_putAll, remove, List.filter_append, List.filter_filter, hnone, List.append_nil]
  congr 2
  funext r
  cases p r <;> cases decide (key r ∉ rows.map key) <;> rfl

end Table

end Vuo.Foundation
