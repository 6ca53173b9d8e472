import Lintel.Path

/-!
# The order of paths

Paths are ordered by their parts, one after another, however they are spelled. The order is
total.
-/

namespace Lintel.Path

variable {a b c : String}

instance : Std.TransOrd Part :=
  inferInstanceAs (Std.TransCmp (compareLex (compareOn Part.rank) (compareOn Part.text)))

@[simp] theorem same_iff : same a b = true ↔ parts a = parts b := by
  rw [same, beq_iff_eq]

theorem precedes_total (a b : String) : (precedes a b || precedes b a) = true := by
  have hswap : List.compareLex compare (parts b) (parts a) =
      (List.compareLex compare (parts a) (parts b)).swap := Std.OrientedCmp.eq_swap
  rw [precedes, precedes, hswap]
  cases List.compareLex compare (parts a) (parts b) <;> rfl

theorem precedes_trans (a b c : String) (hab : precedes a b = true) (hbc : precedes b c = true) :
    precedes a c = true :=
  Std.TransCmp.isLE_trans hab hbc

end Lintel.Path
