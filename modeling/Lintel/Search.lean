/-!
# Binary search by comparison

A search over an array that is already in order. The answer says either where an
equal entry sits, or the gap in which the wanted entry would keep the order.
-/

namespace Lintel

universe u

/-- Where a wanted entry is, or where it belongs. -/
inductive Slot where
  | found (index : Nat)
  | gap (index : Nat)
  deriving DecidableEq, Repr

variable {α : Type u}

/-- Searches the entries from `lo` up to `hi`; `order` compares an entry with the wanted one. -/
def searchBetween (entries : Array α) (order : α → Ordering) (lo hi : Nat)
    (bound : hi ≤ entries.size) : Slot :=
  if h : lo < hi then
    let mid := lo + (hi - lo) / 2
    match order (entries[mid]) with
    | .lt => searchBetween entries order (mid + 1) hi bound
    | .gt => searchBetween entries order lo mid (by omega)
    | .eq => .found mid
  else
    .gap lo
termination_by hi - lo

def search (entries : Array α) (order : α → Ordering) : Slot :=
  searchBetween entries order 0 entries.size (Nat.le_refl _)

end Lintel
