import Vuo.Foundation.Grouping
import Vuo.Model.Outbox

/-!
# Grouping intents into requests

The intents are grouped in a map with the values in order, and every group is
cut into requests.
-/

namespace Vuo

open Foundation

namespace DesiredValue

/-- The place of a value in the source's derived order. -/
def rank (v : DesiredValue) : ℕ :=
  all.idxOf v

theorem rank_injective : Function.Injective rank :=
  fun v _ h => (List.idxOf_inj (mem_all v)).1 h

instance : LinearOrder DesiredValue :=
  LinearOrder.lift' rank rank_injective

end DesiredValue

namespace Outbox

/-- `groups.entry(item.value).or_default().push(item.entry_id)` for each intent. -/
def groups (pending : List PendingMutation) : List (DesiredValue × List EntryId) :=
  Grouping.grouped PendingMutation.value PendingMutation.entryId pending

/-- The requests of one group. An empty one is never made: the server would refuse
it for good. -/
def requestsOf (value : DesiredValue) (ids : List EntryId) : List Batch :=
  (chunks maxIdsPerRequest ids).filterMap fun chunk =>
    if chunk = [] then none else some { value := value, entryIds := chunk }

/-- One group after the other. -/
def groupedBatches (pending : List PendingMutation) : List Batch :=
  (groups pending).flatMap fun group => requestsOf group.1 group.2

end Outbox

end Vuo
