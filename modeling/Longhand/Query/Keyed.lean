import Longhand.Query.Outputs

/-!
# Items under keys

Items are sorted, grouped and compared by keys.  The key of an item is the list
of all outputs of an expression on it.  Sorting keeps the items with equal keys
in their order.
-/

namespace Longhand.Query

/-- Items, each behind its key. -/
abbrev Keyed := List (List Datum × Datum)

namespace Keyed

/-- Put items behind the outputs of an expression on them. -/
def ofItems (key : Datum → Outputs Datum) : List Datum → Outputs Keyed
  | [] => pure []
  | item :: rest => do
      let found ← (key item).collect
      let rest ← ofItems key rest
      pure ((found, item) :: rest)

/-- The pairs in the order of their keys. -/
def sorted (pairs : Keyed) : Keyed :=
  pairs.mergeSort fun a b => Datum.orderLists b.1 a.1 != .lt

/-- Go through sorted pairs with a group at hand, which is in reverse and was
begun under a key. -/
def groupsBehind (key : List Datum) (group : List Datum) :
    Keyed → List (List Datum)
  | [] => [group.reverse]
  | (other, item) :: rest =>
      if Datum.sameItems key other then groupsBehind key (item :: group) rest
      else group.reverse :: groupsBehind other [item] rest

/-- The items with the same key, in the order of the keys. -/
def groups (pairs : Keyed) : List (List Datum) :=
  match pairs.sorted with
  | [] => []
  | (key, item) :: rest => groupsBehind key [item] rest

/-- The first item, unless one behind it has a key that replaces the best one so
far. -/
def best? (replaces : List Datum → List Datum → Bool) : Keyed → Option Datum
  | [] => none
  | first :: rest =>
      some
        (rest.foldl
          (fun best pair => if replaces pair.1 best.1 then pair else best)
          first).2

/-- The first item with the least key. -/
def least? (pairs : Keyed) : Option Datum :=
  pairs.best? fun key best => Datum.orderLists key best == .lt

/-- The last item with the greatest key. -/
def greatest? (pairs : Keyed) : Option Datum :=
  pairs.best? fun key best => Datum.orderLists key best != .lt

end Keyed

end Longhand.Query
