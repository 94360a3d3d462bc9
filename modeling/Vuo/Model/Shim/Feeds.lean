import Vuo.Foundation.Serde
import Vuo.Model.Shim.Pages
import Vuo.Model.Shim.Worker

/-!
# Editing a feed

The edit page passes every field as it stands there; only what differs from the
row is sent.
-/

namespace Vuo

open Foundation

namespace FeedPatch

def default : FeedPatch where
  title := none
  categoryId := none
  crawler := none
  disabled := none
  hideGlobally := none

/-- Nothing to send. -/
def isEmpty (update : FeedPatch) : Bool :=
  update = default

/-- The members of the request's body; what is left alone is left out. -/
def members (update : FeedPatch) : List (Option String × Json) :=
  (update.title.map fun title => (some "title", Json.str (some title))).toList ++
    (update.categoryId.map fun id => (some "category_id", Json.num (some id))).toList ++
    (update.crawler.map fun b => (some "crawler", Json.bool b)).toList ++
    (update.disabled.map fun b => (some "disabled", Json.bool b)).toList ++
    (update.hideGlobally.map fun b => (some "hide_globally", Json.bool b)).toList

end FeedPatch

namespace Shim

/-- What the edit page passes. -/
structure FeedEdit where
  title : String
  categoryId : ℤ
  crawler : Bool
  disabled : Bool
  hideGlobally : Bool
  deriving DecidableEq

/-- What an edit changes of the row it was made on. -/
def FeedEdit.patch (current : FeedRow) (edit : FeedEdit) : FeedPatch where
  title :=
    -- an empty title is a refusal, not an instruction
    let trimmed := trim edit.title.toList
    if trimmed ≠ [] ∧ String.ofList trimmed ≠ current.title then some (String.ofList trimmed)
    else none
  categoryId :=
    if 0 < edit.categoryId ∧ edit.categoryId ≠ current.categoryId then some edit.categoryId
    else none
  crawler := if edit.crawler ≠ current.crawler then some edit.crawler else none
  disabled := if edit.disabled ≠ current.disabled then some edit.disabled else none
  hideGlobally :=
    if edit.hideGlobally ≠ current.hideGlobally then some edit.hideGlobally else none

/-- The command an edit of the row at `row` sends, if it sends one. -/
def FeedModel.updateFeed (row : ℤ) (edit : FeedEdit) (m : FeedModel) : Option Command :=
  if row < 0 then none
  else
    match m.rows[row.toNat]? with
    | none => none
    | some current =>
        let update := edit.patch current
        if update.isEmpty then none else some (.updateFeed current.id update)

end Shim

end Vuo
