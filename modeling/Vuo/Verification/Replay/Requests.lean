import Mathlib.Data.List.Count
import Vuo.Model.Batching
import Vuo.Verification.Replay.Batches

/-!
# The requests are a partition of the intents

Grouping and cutting loses no intent, doubles none and mixes none.
-/

namespace Vuo

open Foundation

/-! ## Chunks -/

section Chunks

variable {α : Type*} {size : ℕ}

theorem length_le_of_mem_chunksFrom {cur xs chunk : List α} (hcur : cur.length < size)
    (h : chunk ∈ chunksFrom size cur xs) : chunk.length ≤ size := by
  induction xs generalizing cur with
  | nil =>
      unfold chunksFrom at h
      split_ifs at h
      · simp at h
      · rw [List.mem_singleton.1 h, List.length_reverse]
        omega
  | cons x xs ih =>
      unfold chunksFrom at h
      split_ifs at h with hroom
      · exact ih (by simpa using hroom) h
      · rcases List.mem_cons.1 h with rfl | h
        · simp only [List.length_reverse, List.length_cons]
          omega
        · exact ih (by simp; omega) h

theorem length_of_mem_dropLast_chunksFrom {cur xs chunk : List α} (hcur : cur.length < size)
    (h : chunk ∈ (chunksFrom size cur xs).dropLast) : chunk.length = size := by
  induction xs generalizing cur with
  | nil =>
      unfold chunksFrom at h
      split_ifs at h <;> simp at h
  | cons x xs ih =>
      unfold chunksFrom at h
      split_ifs at h with hroom
      · exact ih (by simpa using hroom) h
      · cases hlater : chunksFrom size [] xs with
        | nil => simp [hlater] at h
        | cons later rest =>
            rw [hlater, List.dropLast_cons_of_ne_nil (by simp), ← hlater] at h
            rcases List.mem_cons.1 h with rfl | h
            · simp only [List.length_reverse, List.length_cons]
              omega
            · exact ih (by simp; omega) h

theorem length_le_of_mem_chunks {xs chunk : List α} (hsize : 0 < size)
    (h : chunk ∈ chunks size xs) : chunk.length ≤ size :=
  length_le_of_mem_chunksFrom (by simpa using hsize) h

/-- All chunks but the last are full. -/
theorem length_of_mem_dropLast_chunks {xs chunk : List α} (hsize : 0 < size)
    (h : chunk ∈ (chunks size xs).dropLast) : chunk.length = size :=
  length_of_mem_dropLast_chunksFrom (by simpa using hsize) h

end Chunks

/-- What the requests carry of an intent. -/
def PendingMutation.wanted (p : PendingMutation) : EntryId × DesiredValue :=
  (p.entryId, p.value)

namespace Outbox

/-! ## Groups -/

/-- The entries a value is wanted for, in queueing order. -/
def idsOf (v : DesiredValue) (l : List PendingMutation) : List EntryId :=
  (l.filter fun item => item.value = v).map PendingMutation.entryId

theorem requestsOf_eq (v : DesiredValue) (ids : List EntryId) :
    requestsOf v ids =
      (chunks maxIdsPerRequest ids).map fun chunk => { value := v, entryIds := chunk } := by
  rw [requestsOf, ← List.filterMap_eq_map]
  refine List.filterMap_congr fun chunk hchunk => ?_
  simp [ne_nil_of_mem_chunks hchunk]

/-- The map of groups, visited in its order, gives what one pass for each value gives. -/
theorem groupedBatches_eq (l : List PendingMutation) : groupedBatches l = batches l := by
  have hempty : ∀ v, requestsOf v [] = [] := fun _ => rfl
  have hall : DesiredValue.all.Pairwise (· < ·) := by
    decide
  rw [groupedBatches, groups, Grouping.flatMap_groups hempty hall (Grouping.ordered_grouped l)
    fun v _ => DesiredValue.mem_all v, batches]
  refine List.flatMap_congr fun v _ => ?_
  rw [Grouping.group_grouped, requestsOf_eq]
  congr!

/-- The requests with one value are the chunks of its entries. -/
theorem filter_batches (v : DesiredValue) (l : List PendingMutation) :
    (batches l).filter (fun b => b.value = v) =
      (chunks maxIdsPerRequest (idsOf v l)).map fun ids => { value := v, entryIds := ids } := by
  have hone : ∀ v', ((chunks maxIdsPerRequest (idsOf v' l)).map fun ids =>
      ({ value := v', entryIds := ids } : Batch)).filter (fun b => b.value = v) =
        if v' = v then (chunks maxIdsPerRequest (idsOf v l)).map fun ids =>
          { value := v, entryIds := ids } else [] := by
    intro v'
    split
    · next h =>
        subst h
        refine List.filter_eq_self.2 fun b hb => ?_
        obtain ⟨ids, -, rfl⟩ := List.mem_map.1 hb
        simp
    · next h =>
        refine List.filter_eq_nil_iff.2 fun b hb => ?_
        obtain ⟨ids, -, rfl⟩ := List.mem_map.1 hb
        simpa using h
  rw [batches, List.filter_flatMap]
  simp only [idsOf] at hone ⊢
  simp only [hone]
  rcases v with (_ | _) | (_ | _) <;> simp [DesiredValue.all]

theorem flatMap_filter_batches (v : DesiredValue) (l : List PendingMutation) :
    ((batches l).filter fun b => b.value = v).flatMap Batch.entryIds = idsOf v l := by
  rw [filter_batches, List.flatMap_map, List.flatMap_id', chunks_flatten]

/-- What the requests carry. -/
def carried (batches : List Batch) : List (EntryId × DesiredValue) :=
  batches.flatMap fun b => b.entryIds.map fun id => (id, b.value)

theorem carried_batches (l : List PendingMutation) :
    carried (batches l) =
      DesiredValue.all.flatMap fun v => (idsOf v l).map fun id => (id, v) := by
  rw [carried, batches, List.flatMap_assoc]
  refine List.flatMap_congr fun v _ => ?_
  rw [List.flatMap_map, List.flatMap_def]
  dsimp only
  rw [← List.map_flatten, chunks_flatten, idsOf]

theorem carried_perm (l : List PendingMutation) :
    (carried (batches l)).Perm (l.map PendingMutation.wanted) := by
  rw [carried_batches, List.perm_iff_count]
  rintro ⟨id, v⟩
  have hone : ∀ v', ((idsOf v' l).map fun id => (id, v')).count (id, v) =
      if v' = v then (idsOf v l).count id else 0 := by
    intro v'
    split
    · next h =>
        subst h
        exact List.count_map_of_injective _ _ (fun _ _ h => (Prod.mk.inj h).1) id
    · next h =>
        refine List.count_eq_zero.2 fun hmem => ?_
        obtain ⟨_, -, heq⟩ := List.mem_map.1 hmem
        exact h (Prod.mk.inj heq).2
  have hwanted : (l.map PendingMutation.wanted).count (id, v) = (idsOf v l).count id := by
    rw [idsOf, List.count, List.count, List.countP_map, List.countP_map, List.countP_filter]
    refine List.countP_congr fun p _ => ?_
    simp [PendingMutation.wanted]
  rw [List.count_flatMap, hwanted]
  simp only [Function.comp_def, hone]
  rcases v with (_ | _) | (_ | _) <;> simp [DesiredValue.all]

/-! ## The partition -/

/-- The requests carry the intents, each exactly as often as it is there; each holds
some entries and no more than the limit; the entries of a value are in queueing order and
fill all requests with it but the last. -/
structure Partition (l : List PendingMutation) (sent : List Batch) : Prop where
  carried : (carried sent).Perm (l.map PendingMutation.wanted)
  nonempty : ∀ b ∈ sent, b.entryIds ≠ []
  bounded : ∀ b ∈ sent, b.entryIds.length ≤ maxIdsPerRequest
  ordered : ∀ v, (sent.filter fun b => b.value = v).flatMap Batch.entryIds = idsOf v l
  full : ∀ v, ∀ b ∈ (sent.filter fun b => b.value = v).dropLast,
    b.entryIds.length = maxIdsPerRequest

theorem partition_batches (l : List PendingMutation) : Partition l (batches l) := by
  have hlimit : 0 < maxIdsPerRequest := by
    decide
  have hchunk : ∀ b ∈ batches l, ∃ ids : List EntryId,
      b.entryIds ∈ chunks maxIdsPerRequest ids := by
    intro b hb
    obtain ⟨v, -, hv⟩ := List.mem_flatMap.1 hb
    obtain ⟨ids, hids, rfl⟩ := List.mem_map.1 hv
    exact ⟨_, hids⟩
  refine ⟨carried_perm l, ?_, ?_, fun v => flatMap_filter_batches v l, ?_⟩
  · intro b hb
    obtain ⟨ids, hids⟩ := hchunk b hb
    exact ne_nil_of_mem_chunks hids
  · intro b hb
    obtain ⟨ids, hids⟩ := hchunk b hb
    exact length_le_of_mem_chunks hlimit hids
  · intro v b hb
    rw [filter_batches, ← List.map_dropLast] at hb
    obtain ⟨ids, hids, rfl⟩ := List.mem_map.1 hb
    exact length_of_mem_dropLast_chunks hlimit hids

/-- The requests partition the intents; those of an outbox share no entry for a field. -/
theorem groupedBatches_partition :
    (∀ l, Partition l (groupedBatches l)) ∧
      ∀ db, (groupedBatches (pending db)).Pairwise Apart := by
  constructor
  · intro l
    rw [groupedBatches_eq]
    exact partition_batches l
  · intro db
    rw [groupedBatches_eq]
    exact pairwise_batches (nodup_pending db)

end Outbox

end Vuo
