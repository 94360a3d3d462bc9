import Vuo.Model.Effects
import Vuo.Model.Listing

/-!
# Announcing new articles

What the notification says, and what a look at the mirror does to it.
-/

namespace Vuo.Notify

open Foundation

/-- What the home screen is told after a look at the mirror. -/
inductive Announcement
  | unchanged
  | show (banner : Bool)
  | withdraw
  deriving DecidableEq

/-- What the notification that is up says: the articles it covers and the
unread total it states. -/
structure Announcer where
  showing : List EntryId
  unread : ℕ
  deriving DecidableEq

namespace Announcer

def default : Announcer where
  showing := []
  unread := 0

def withdraw (a : Announcer) : Announcement × Announcer :=
  if a.showing.isEmpty then (.unchanged, a)
  else (.withdraw, { showing := [], unread := 0 })

/-- Decide about the arrivals, with so many articles unread in all. -/
def review (arrivals : List EntryId) (unread : ℕ) (a : Announcer) : Announcement × Announcer :=
  if arrivals.isEmpty then a.withdraw
  else
    let news := arrivals.any fun id => !a.showing.contains id
    let moved := news || arrivals.length ≠ a.showing.length || unread ≠ a.unread
    let announcement :=
      if news then .show true else if moved then .show false else .unchanged
    (announcement, { showing := arrivals, unread := unread })

/-- The notification was closed: the articles it covered are handed on to be
acknowledged. -/
def dismissed (a : Announcer) : List EntryId × Announcer :=
  (a.showing, { showing := [], unread := 0 })

end Announcer

/-! ## The notification and the mirror -/

/-- The mirror and what was last said about it. -/
structure Arrivals where
  db : Db
  announcer : Announcer

namespace Arrivals

/-- The reader is looking: nothing that arrived is news. A read or a write that
fails leaves the marks. -/
def acknowledgeEverything (readable written : Bool) (db : Db) : Db :=
  let pending := readable && Store.anyArrivals db
  if pending && written then Store.acknowledgeAllArrivals db else db

/-- What a look at the mirror does. `active` is whether the reader has the
application in front, `enabled` the switch for notifications. -/
def decide (active enabled readable written : Bool) (a : Arrivals) :
    Announcement × Arrivals :=
  if active then
    let (said, announcer) := a.announcer.withdraw
    (said, { db := acknowledgeEverything readable written a.db, announcer := announcer })
  else if !enabled then
    let (said, announcer) := a.announcer.withdraw
    (said, { a with announcer := announcer })
  else if !readable then (.unchanged, a)
  else
    let (said, announcer) := a.announcer.review (Store.arrivals a.db) (Store.unreadCount a.db)
    (said, { a with announcer := announcer })

/-- The home screen closed the notification. `written` is whether the
acknowledgement reached the mirror. -/
def dismissed (written : Bool) (a : Arrivals) : Arrivals :=
  let (covered, announcer) := a.announcer.dismissed
  let db :=
    if covered.isEmpty then a.db
    else if written then Store.acknowledgeArrivals covered a.db
    else a.db
  { db := db, announcer := announcer }

/-! ### What happens -/

inductive Event
  | write (s : Statement)
  | review (active enabled readable written : Bool)
  | withdraw
  | dismissed (written : Bool)
  | restart

/-- One event: a statement of a pass or of the reader's, a look at the mirror,
the account gone, a dismissal, a new session. -/
def step (e : Event) (a : Arrivals) : Option Arrivals :=
  match e with
  | .write s => some { a with db := s.exec a.db }
  | .review active enabled readable written => some (a.decide active enabled readable written).2
  | .withdraw => some { a with announcer := a.announcer.withdraw.2 }
  | .dismissed written => some (a.dismissed written)
  | .restart => some { a with announcer := .default }

/-- A fresh mirror and nothing up. -/
def start : Arrivals where
  db := Db.empty
  announcer := .default

end Arrivals

end Vuo.Notify
