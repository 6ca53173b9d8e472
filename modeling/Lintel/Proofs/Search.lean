import Lintel.Search
import Mathlib.Data.List.Basic

/-!
# Binary search by comparison

What a search finds compares as equal. If it finds nothing, and the comparison fits the
order of the entries, then the gap has the smaller entries before it and the greater ones
behind it. The search keeps to a window with only smaller entries before and only greater
ones behind it.
-/

namespace Lintel

universe u

variable {α : Type u} {entries : Array α} {order : α → Ordering} {lo hi i : Nat}

/-- A comparison fits the order of some entries: the smaller ones come first, the greater ones
last. -/
def Fits (order : α → Ordering) (entries : List α) : Prop :=
  entries.Pairwise fun a b => (order b = .lt → order a = .lt) ∧ (order a = .gt → order b = .gt)

theorem Fits.lt_of_lt (h : Fits order entries.toList) {j k : Nat} (hk : k < entries.size)
    (hjk : j ≤ k) (hlt : order entries[k] = .lt) : order entries[j] = .lt := by
  rcases Nat.eq_or_lt_of_le hjk with rfl | hjk
  · exact hlt
  · have hpair := List.pairwise_iff_getElem.mp h j k (by simp; omega) (by simpa using hk) hjk
    simp only [Array.getElem_toList] at hpair
    exact hpair.1 hlt

theorem Fits.gt_of_gt (h : Fits order entries.toList) {j k : Nat} (hk : k < entries.size)
    (hjk : j ≤ k) (hgt : order entries[j] = .gt) : order entries[k] = .gt := by
  rcases Nat.eq_or_lt_of_le hjk with rfl | hjk
  · exact hgt
  · have hpair := List.pairwise_iff_getElem.mp h j k (by simp; omega) (by simpa using hk) hjk
    simp only [Array.getElem_toList] at hpair
    exact hpair.2 hgt

private theorem searchBetween_found (bound : hi ≤ entries.size)
    (h : searchBetween entries order lo hi bound = .found i) :
    ∃ hi : i < entries.size, order entries[i] = .eq := by
  fun_induction searchBetween entries order lo hi bound with
  | case1 lo hi bound hlt mid horder ih => exact ih h
  | case2 lo hi bound hlt mid horder ih => exact ih h
  | case3 lo hi bound hlt mid horder =>
    obtain rfl := Slot.found.inj h
    exact ⟨by omega, horder⟩
  | case4 => cases h

private theorem searchBetween_gap (hfits : Fits order entries.toList) (bound : hi ≤ entries.size)
    (hlo : ∀ j (hj : j < entries.size), j < lo → order entries[j] = .lt)
    (hhi : ∀ j (hj : j < entries.size), hi ≤ j → order entries[j] = .gt)
    (hle : lo ≤ hi) (h : searchBetween entries order lo hi bound = .gap i) :
    (∀ j (hj : j < entries.size), j < i → order entries[j] = .lt) ∧
      (∀ j (hj : j < entries.size), i ≤ j → order entries[j] = .gt) ∧ i ≤ entries.size := by
  fun_induction searchBetween entries order lo hi bound with
  | case1 lo hi bound hlt mid horder ih =>
    refine ih (fun j hj hbefore => ?_) hhi (by omega) h
    exact hfits.lt_of_lt _ (by omega) horder
  | case2 lo hi bound hlt mid horder ih =>
    refine ih hlo (fun j hj hbehind => ?_) (by omega) h
    exact hfits.gt_of_gt hj hbehind horder
  | case3 => cases h
  | case4 lo hi bound hempty =>
    obtain rfl := Slot.gap.inj h
    exact ⟨hlo, fun j hj hbehind => hhi j hj (by omega), by omega⟩

theorem search_found (h : search entries order = .found i) :
    ∃ a, entries.toList[i]? = some a ∧ order a = .eq := by
  obtain ⟨hi, horder⟩ := searchBetween_found _ h
  exact ⟨entries[i], by simp [hi], horder⟩

theorem search_gap (hfits : Fits order entries.toList) (h : search entries order = .gap i) :
    (∀ a ∈ entries.toList.take i, order a = .lt) ∧ (∀ a ∈ entries.toList.drop i, order a = .gt) ∧
      i ≤ entries.toList.length := by
  obtain ⟨hbefore, hbehind, hle⟩ := searchBetween_gap hfits _
    (fun j _ hj => absurd hj (Nat.not_lt_zero j)) (fun j hj hbehind => absurd hj (by omega))
    (Nat.zero_le _) h
  refine ⟨fun a ha => ?_, fun a ha => ?_, by simpa using hle⟩
  · obtain ⟨j, hj, rfl⟩ := List.mem_iff_getElem.mp ha
    simp only [List.length_take, Array.length_toList] at hj
    simpa using hbefore j (by omega) (by omega)
  · obtain ⟨j, hj, rfl⟩ := List.mem_iff_getElem.mp ha
    simp only [List.length_drop, Array.length_toList] at hj
    simpa using hbehind (i + j) (by omega) (by omega)

end Lintel
