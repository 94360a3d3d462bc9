import Mathlib.Algebra.Order.Ring.Int
import Mathlib.Data.List.Infix
import Mathlib.Tactic.Common

/-!
# Lists and what their views are told

A list model holds rows that were read from the mirror. When they are read again
the fresh rows are swapped in, and the view is told as little as will do.
-/

namespace Vuo.Shim.Lists

/-- What a model tells its view: rows inserted, removed or to be drawn again, by
their first and last position, everything new, or a property changed. -/
inductive Change
  | inserted (first last : ℕ)
  | removed (first last : ℕ)
  | changed (first last : ℕ)
  | reset
  | countChanged
  | hasMoreChanged
  | matchesChanged
  deriving DecidableEq

/-- How different rows reach the view: by a reset, or, in a search, never by
one. -/
inductive Publish
  | reset
  | search
  deriving DecidableEq

/-- `i32::try_from`: the positions a view can be told. -/
def toI32 (n : ℕ) : Option ℕ :=
  if n ≤ 2147483647 then some n else none

/-- The rows of a model, and what it has told its view, each time with the rows
the view then finds. -/
structure ListModel (R : Type*) where
  rows : List R
  told : List (Change × List R)

namespace ListModel

variable {R : Type*}

def tell (m : ListModel R) (change : Change) : ListModel R :=
  { m with told := m.told ++ [(change, m.rows)] }

/-- Other rows, and the view told so. -/
def swap (m : ListModel R) (rows : List R) (change : Change) : ListModel R :=
  tell { m with rows := rows } change

end ListModel

/-- The position of the last row, if there is one and the view can be told. -/
def lastRow {R : Type*} (rows : List R) : Option ℕ :=
  if rows = [] then none else toI32 (rows.length - 1)

/-- Where `fresh` is `held` plus one run: the position of the run in `fresh`, and
its length. -/
def insertedRun (held fresh : List ℤ) : Option (ℕ × ℕ) :=
  if fresh.length ≤ held.length then none
  else
    let added := fresh.length - held.length
    let before := ((held.zip fresh).takeWhile fun p => p.1 = p.2).length
    let after := (((held.reverse.zip fresh.reverse).take (held.length - before)).takeWhile
      fun p => p.1 = p.2).length
    if before + after = held.length then some (before, added) else none

section Publishing

variable {R : Type*} [DecidableEq R] (rowId : R → ℤ)

/-- Every row is drawn again. -/
def redrawAllRows (m : ListModel R) : ListModel R :=
  match lastRow m.rows with
  | none => m
  | some last => m.tell (.changed 0 last)

/-- The run to insert, when the view can be told where. -/
def runToInsert (held fresh : List R) (how : Publish) : Option (ℕ × ℕ) :=
  if how = .search then
    (insertedRun (held.map rowId) (fresh.map rowId)).bind fun run =>
      (toI32 run.1).bind fun _ => (toI32 (run.1 + run.2 - 1)).map fun _ => run
  else none

/-- The fresh rows swapped in, as held rows with one run among them. -/
def publishRun (m : ListModel R) (fresh : List R) (first added : ℕ) : ListModel R :=
  let heldAfter := fresh.take first ++ fresh.drop (first + added)
  let redraw := m.rows ≠ heldAfter
  let m := m.swap fresh (.inserted first (first + added - 1))
  let m := if redraw then redrawAllRows m else m
  m.tell .countChanged

/-- As the same rows in the same places. -/
def publishSame (m : ListModel R) (fresh : List R) : ListModel R :=
  let redraw := m.rows ≠ fresh
  let m := { m with rows := fresh }
  let m := if redraw then redrawAllRows m else m
  m.tell .countChanged

def removeAll (m : ListModel R) : ListModel R :=
  match lastRow m.rows with
  | none => m
  | some last => m.swap [] (.removed 0 last)

def insertAll (m : ListModel R) (fresh : List R) : ListModel R :=
  match lastRow fresh with
  | none => m
  | some last => m.swap fresh (.inserted 0 last)

/-- All held rows out, then all fresh ones in. -/
def publishAll (m : ListModel R) (fresh : List R) : ListModel R :=
  (insertAll (removeAll m) fresh).tell .countChanged

/-- Swap fresh rows in and tell the view; whether the model was reset. -/
def publishRowsAs (m : ListModel R) (fresh : List R) (how : Publish) : ListModel R × Bool :=
  match runToInsert rowId m.rows fresh how with
  | some run => (publishRun m fresh run.1 run.2, false)
  | none =>
      if m.rows.map rowId = fresh.map rowId then (publishSame m fresh, false)
      else if how = .search then (publishAll m fresh, false)
      else ((m.swap fresh .reset).tell .countChanged, true)

end Publishing

end Vuo.Shim.Lists
