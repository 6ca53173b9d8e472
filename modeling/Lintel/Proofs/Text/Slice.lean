import Lintel.Text.Slice
import Mathlib.Data.List.Basic

/-!
# Cutting texts at byte offsets

A boundary splits a text in two, and a slice is the middle of a split in three. All
that is said about offsets elsewhere is derived from these two facts, so that no proof
has to look at single bytes.
-/

namespace Lintel.Text

theorem byteLength_ofList_append (a b : List Char) : byteLength (String.ofList (a ++ b)) =
    byteLength (String.ofList a) + byteLength (String.ofList b) := by
  rw [String.ofList_append, byteLength, String.utf8ByteSize_append]

/-- Of two splits of one text the later one cuts the rest of the earlier one. -/
theorem append_eq_append_of_le {a b c d : String} (h : a ++ b = c ++ d)
    (hle : byteLength a ≤ byteLength c) : ∃ m, c = a ++ m ∧ b = m ++ d := by
  have hl : a.toList ++ b.toList = c.toList ++ d.toList := by
    simpa using congrArg String.toList h
  rcases List.append_eq_append_iff.mp hl with ⟨m, hc, hb⟩ | ⟨m, ha, hd⟩
  · exact ⟨String.ofList m, String.toList_inj.mp (by simpa using hc),
      String.toList_inj.mp (by simpa using hb)⟩
  · have hac : a = c ++ String.ofList m := String.toList_inj.mp (by simpa using ha)
    have hm : String.ofList m = "" := by
      have hlen := congrArg byteLength hac
      rw [← String.utf8ByteSize_eq_zero_iff]
      simp only [byteLength, String.utf8ByteSize_append] at hlen hle
      omega
    refine ⟨"", by simpa [hm] using hac.symm, ?_⟩
    rw [hac, hm, String.append_empty] at h
    simpa using (String.append_right_inj c).mp h

theorem toList_append_eq_append_of_le {a b c d : List Char} (h : a ++ b = c ++ d)
    (hle : byteLength (String.ofList a) ≤ byteLength (String.ofList c)) :
    ∃ m, c = a ++ m ∧ b = m ++ d := by
  obtain ⟨m, hc, hb⟩ := append_eq_append_of_le (b := String.ofList b) (d := String.ofList d)
    (by rw [← String.ofList_append, h, String.ofList_append]) hle
  exact ⟨m.toList, by simpa using congrArg String.toList hc, by simpa using congrArg String.toList hb⟩

theorem isBoundary_iff {text : String} {offset : Nat} :
    isBoundary text offset = true ↔ ∃ a b, text = a ++ b ∧ byteLength a = offset := by
  simp only [isBoundary, decide_eq_true_eq, String.Pos.Raw.isValid_iff_exists_append]
  constructor
  · rintro ⟨a, b, rfl, h⟩
    exact ⟨a, b, rfl, by simpa [eq_comm] using congrArg String.Pos.Raw.byteIdx h⟩
  · rintro ⟨a, b, rfl, rfl⟩
    exact ⟨a, b, rfl, rfl⟩

@[simp] theorem slice?_append (a m c : String) :
    slice? (a ++ m ++ c) (byteLength a) (byteLength a + byteLength m) = some m := by
  have hs : isBoundary (a ++ m ++ c) (byteLength a) = true :=
    isBoundary_iff.mpr ⟨a, m ++ c, by simp [String.append_assoc], rfl⟩
  have he : isBoundary (a ++ m ++ c) (byteLength a + byteLength m) = true :=
    isBoundary_iff.mpr ⟨a ++ m, c, rfl, by simp⟩
  simp only [isBoundary, decide_eq_true_eq] at hs he
  rw [slice?, dif_pos ⟨by omega, hs, he⟩, Option.some.injEq, ← String.toByteArray_inj]
  have ha : a.toByteArray.extract (byteLength a) (byteLength a + byteLength m) = .empty := by
    simp [ByteArray.extract_eq_empty_iff]
  have hm : m.toByteArray.extract 0 (byteLength m) = m.toByteArray := by
    simp [byteLength, ← String.size_toByteArray]
  simp [ByteArray.extract_append, ha, hm]

/-- A slice is the middle of a split in three. -/
theorem slice?_eq_some_iff {text m : String} {start stop : Nat} :
    slice? text start stop = some m ↔
      ∃ a c, text = a ++ m ++ c ∧ byteLength a = start ∧ byteLength a + byteLength m = stop := by
  constructor
  · intro h
    have hv : start ≤ stop ∧ isBoundary text start = true ∧ isBoundary text stop = true := by
      simp only [isBoundary, decide_eq_true_eq]
      by_contra hn
      rw [slice?, dif_neg hn] at h
      cases h
    obtain ⟨hle, hs, he⟩ := hv
    obtain ⟨a, b, rfl, rfl⟩ := isBoundary_iff.mp hs
    obtain ⟨u, c, hu, rfl⟩ := isBoundary_iff.mp he
    obtain ⟨v, rfl, rfl⟩ := append_eq_append_of_le hu hle
    rw [← String.append_assoc] at h ⊢
    have hv := slice?_append a v c
    simp only [byteLength, String.utf8ByteSize_append] at h hv ⊢
    obtain rfl : v = m := Option.some.inj (hv.symm.trans h)
    exact ⟨a, c, rfl, rfl, rfl⟩
  · rintro ⟨a, c, rfl, rfl, rfl⟩
    exact slice?_append a m c

theorem slice?_of_toList {text marker : String} {front back : List Char}
    (h : text.toList = front ++ (marker.toList ++ back)) :
    slice? text (byteLength (String.ofList front))
      (byteLength (String.ofList front) + byteLength marker) = some marker :=
  slice?_eq_some_iff.mpr ⟨String.ofList front, String.ofList back,
    String.toList_inj.mp (by simpa using h), rfl, rfl⟩

theorem isBoundary_of_slice? {text m : String} {start stop : Nat}
    (h : slice? text start stop = some m) :
    isBoundary text start = true ∧ isBoundary text stop = true := by
  obtain ⟨a, c, rfl, rfl, rfl⟩ := slice?_eq_some_iff.mp h
  refine ⟨isBoundary_iff.mpr ⟨a, m ++ c, by simp [String.append_assoc], rfl⟩,
    isBoundary_iff.mpr ⟨a ++ m, c, rfl, by simp⟩⟩

theorem upTo?_eq_some_iff {text m : String} {stop : Nat} :
    upTo? text stop = some m ↔ ∃ c, text = m ++ c ∧ byteLength m = stop := by
  rw [upTo?, slice?_eq_some_iff]
  constructor
  · rintro ⟨a, c, rfl, ha, hm⟩
    obtain rfl := String.utf8ByteSize_eq_zero_iff.mp ha
    exact ⟨c, by simp, by simpa using hm⟩
  · rintro ⟨c, rfl, rfl⟩
    exact ⟨"", c, by simp, rfl, by simp⟩

theorem from?_eq_some_iff {text m : String} {start : Nat} :
    from? text start = some m ↔ ∃ a, text = a ++ m ∧ byteLength a = start := by
  rw [from?, slice?_eq_some_iff]
  constructor
  · rintro ⟨a, c, rfl, ha, hm⟩
    have hc : byteLength c = 0 := by
      simp only [byteLength, String.utf8ByteSize_append] at hm ⊢
      omega
    obtain rfl := String.utf8ByteSize_eq_zero_iff.mp hc
    exact ⟨a, by simp, ha⟩
  · rintro ⟨a, rfl, rfl⟩
    exact ⟨a, "", by simp, rfl, by simp⟩

theorem exists_slice? {text : String} {start stop : Nat} (hle : start ≤ stop)
    (hs : isBoundary text start = true) (he : isBoundary text stop = true) :
    ∃ m, slice? text start stop = some m := by
  simp only [isBoundary, decide_eq_true_eq] at hs he
  exact ⟨_, by rw [slice?, dif_pos ⟨hle, hs, he⟩]⟩

theorem le_byteLength_of_isBoundary {text : String} {offset : Nat}
    (h : isBoundary text offset = true) : offset ≤ byteLength text := by
  obtain ⟨a, b, rfl, rfl⟩ := isBoundary_iff.mp h
  simp

end Lintel.Text
