import Mathlib.Data.List.Flatten
import Vuo.Verification.Mirror.View

/-!
# The batches of an outbox

Every intent of the outbox is sent in one batch, under the value the outbox
holds, and no entry is in two batches for one field.
-/

namespace Vuo

open Foundation

/-- What an intent is for. -/
def PendingMutation.target (p : PendingMutation) : EntryId × OutboxField :=
  (p.entryId, p.value.field)

namespace Outbox

theorem pendingFor_of_mem_pending {db : Db} {p : PendingMutation} (h : p ∈ pending db) :
    pendingFor p.entryId p.value.field db = some p.value := by
  simp only [pending, List.mem_filterMap, List.mem_insertionSort, Option.map_eq_some_iff] at h
  obtain ⟨r, hr, v, hparse, rfl⟩ := h
  obtain ⟨hfield, -⟩ := DesiredValue.parse_eq_some.1 hparse
  have hkey : r.key = (r.entryId, v.field.asStr) := by rw [OutboxRow.key, hfield]
  rw [pendingFor, ← hkey, Table.find?_of_mem hr]
  exact hparse

/-- One intent for each entry and field. -/
theorem nodup_pending (db : Db) : ((pending db).map PendingMutation.target).Nodup := by
  have hrows : (db.outbox.rows.insertionSort queuedBefore).Pairwise fun r s => r.key ≠ s.key := by
    have hperm := List.perm_insertionSort queuedBefore db.outbox.rows
    exact (List.pairwise_map.1 db.outbox.nodup).perm hperm.symm fun h => h.symm
  refine List.pairwise_map.2 (List.pairwise_filterMap.2 (hrows.imp ?_))
  intro r s hkeys p hp q hq htarget
  obtain ⟨hid, hfield⟩ := Prod.mk.inj htarget
  simp only [Option.map_eq_some_iff] at hp hq
  obtain ⟨v, hv, rfl⟩ := hp
  obtain ⟨v', hv', rfl⟩ := hq
  refine hkeys ?_
  rw [OutboxRow.key, OutboxRow.key, (DesiredValue.parse_eq_some.1 hv).1,
    (DesiredValue.parse_eq_some.1 hv').1]
  exact Prod.ext hid (congrArg OutboxField.asStr hfield)

/-- The batches share no entry for a field. -/
def Apart (b b' : Batch) : Prop :=
  b.value.field = b'.value.field → ∀ id ∈ b.entryIds, id ∉ b'.entryIds

theorem value_of_mem_batches {l : List PendingMutation} {v : DesiredValue} {b : Batch}
    (hb : b ∈ (chunks maxIdsPerRequest ((l.filter fun item => item.value = v).map
      PendingMutation.entryId)).map fun ids => ({ value := v, entryIds := ids } : Batch)) :
    b.value = v ∧ ∀ id ∈ b.entryIds, ∃ p ∈ l, p.entryId = id ∧ p.value = v := by
  obtain ⟨ids, hids, rfl⟩ := List.mem_map.1 hb
  refine ⟨rfl, fun id hid => ?_⟩
  obtain ⟨p, hp, rfl⟩ := List.mem_map.1 (mem_of_mem_chunks hids hid)
  obtain ⟨hpl, hvalue⟩ := List.mem_filter.1 hp
  exact ⟨p, hpl, rfl, by simpa using hvalue⟩

theorem mem_batches {l : List PendingMutation} {b : Batch} {id : EntryId}
    (hb : b ∈ batches l) (hid : id ∈ b.entryIds) :
    ∃ p ∈ l, p.entryId = id ∧ p.value = b.value := by
  obtain ⟨v, -, hv⟩ := List.mem_flatMap.1 hb
  obtain ⟨rfl, hids⟩ := value_of_mem_batches hv
  exact hids id hid

theorem pairwise_batches {l : List PendingMutation}
    (hl : (l.map PendingMutation.target).Nodup) : (batches l).Pairwise Apart := by
  refine List.pairwise_flatMap.2 ⟨?_, ?_⟩
  · intro v _
    have hnodup : ((l.filter fun item => item.value = v).map PendingMutation.entryId).Nodup := by
      refine List.pairwise_map.2 (((List.pairwise_map.1 hl).filter _).imp_of_mem ?_)
      intro p q hp hq hpq hid
      have hpv : p.value = v := by simpa using (List.mem_filter.1 hp).2
      have hqv : q.value = v := by simpa using (List.mem_filter.1 hq).2
      exact hpq (by rw [PendingMutation.target, PendingMutation.target, hid, hpv, hqv])
    rw [← chunks_flatten maxIdsPerRequest
      ((l.filter fun item => item.value = v).map PendingMutation.entryId)] at hnodup
    refine List.pairwise_map.2 ((List.nodup_flatten.1 hnodup).2.imp ?_)
    intro ids ids' hdisjoint _ id hid hid'
    exact hdisjoint hid hid'
  · -- the intent an entry in both batches is in them for is one and the same
    have hall : DesiredValue.all.Pairwise (· ≠ ·) := by decide
    refine hall.imp ?_
    intro v v' hne b hb b' hb' hfield id hid hid'
    obtain ⟨rfl, hids⟩ := value_of_mem_batches hb
    obtain ⟨rfl, hids'⟩ := value_of_mem_batches hb'
    obtain ⟨p, hp, hpid, hpv⟩ := hids id hid
    obtain ⟨q, hq, hqid, hqv⟩ := hids' id hid'
    have hsame : p = q := by
      refine List.inj_on_of_nodup_map hl hp hq (Prod.ext (hpid.trans hqid.symm) ?_)
      rw [PendingMutation.target, PendingMutation.target, hpv, hqv]
      exact hfield
    exact hne (by rw [← hpv, ← hqv, hsame])

end Outbox

end Vuo
