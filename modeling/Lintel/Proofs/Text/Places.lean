import Lintel.Proofs.Text.Lines
import Mathlib.Data.Prod.Lex
import Mathlib.Data.Set.Function
import Mathlib.Order.Monotone.Defs

/-!
# Places in a text

The place of an offset is its line and its column. Offsets count bytes, so that an offset may lie
within a character or past the end of the text. What a line index says of it is told here by the
bytes alone: the line by the newlines before the offset, and the column by the last of them. No
byte of another character is that of a newline, so the bytes say the same as the characters.
-/

namespace Lintel.Text

def bytes (text : String) : List UInt8 :=
  text.toByteArray.data.toList

def newline : UInt8 := 10

/-- How many newlines stand before an offset. Before an offset past the end there are all. -/
def newlinesBefore (text : String) (offset : Nat) : Nat :=
  ((bytes text).take offset).count newline

/-- The offset behind the last newline before an offset. Without such a newline it is zero. -/
inductive LineStart (text : String) (offset : Nat) : Nat → Prop
  | first (clean : ∀ i < offset, (bytes text)[i]? ≠ some newline) : LineStart text offset 0
  | behind (i : Nat) (before : i < offset) (found : (bytes text)[i]? = some newline)
    (last : ∀ j, i < j → j < offset → (bytes text)[j]? ≠ some newline) :
    LineStart text offset (i + 1)

/-! ### Newlines among bytes -/

def newlineStops (offset : Nat) : List UInt8 → List Nat
  | [] => []
  | b :: rest =>
    if b = newline then
      (offset + 1) :: newlineStops (offset + 1) rest
    else
      newlineStops (offset + 1) rest

section Stops

variable {offset n start : Nat} {bs : List UInt8}

private theorem mem_newlineStops_iff :
    start ∈ newlineStops offset bs ↔ ∃ i, bs[i]? = some newline ∧ start = offset + i + 1 := by
  induction bs generalizing offset with
  | nil => simp [newlineStops]
  | cons b rest ih =>
    have hrest : start ∈ newlineStops (offset + 1) rest ↔
        ∃ i, (b :: rest)[i + 1]? = some newline ∧ start = offset + (i + 1) + 1 := by
      rw [ih]
      simp only [List.getElem?_cons_succ, Nat.add_assoc, Nat.add_comm 1]
    rw [newlineStops]
    constructor
    · intro h
      split at h
      · rename_i hb
        rcases List.mem_cons.mp h with rfl | h
        · exact ⟨0, by simp [hb], rfl⟩
        · obtain ⟨i, hi, heq⟩ := hrest.mp h
          exact ⟨i + 1, hi, heq⟩
      · obtain ⟨i, hi, heq⟩ := hrest.mp h
        exact ⟨i + 1, hi, heq⟩
    · rintro ⟨i, hi, heq⟩
      cases i with
      | zero =>
        have hb : b = newline := by simpa using hi
        rw [if_pos hb, heq]
        exact List.mem_cons_self
      | succ i =>
        have hmem := hrest.mpr ⟨i, hi, heq⟩
        split
        · exact List.mem_cons_of_mem _ hmem
        · exact hmem

/-- As many newlines end up to an offset as there are before it. -/
theorem countP_newlineStops (offset n : Nat) (bs : List UInt8) :
    (newlineStops offset bs).countP (· ≤ offset + n) = (bs.take n).count newline := by
  induction bs generalizing offset n with
  | nil => simp [newlineStops]
  | cons b rest ih =>
    cases n with
    | zero =>
      rw [List.take_zero, List.count_nil, List.countP_eq_zero]
      intro start hstart
      obtain ⟨i, -, rfl⟩ := mem_newlineStops_iff.mp hstart
      rw [decide_eq_true_eq]
      omega
    | succ n =>
      have hrest : (newlineStops (offset + 1) rest).countP (· ≤ offset + (n + 1)) =
          (rest.take n).count newline := by
        rw [← ih (offset + 1), Nat.add_assoc, Nat.add_comm 1 n]
      rw [newlineStops, List.take_succ_cons]
      split
      · rename_i hb
        rw [List.countP_cons_of_pos (by simp), hrest, hb, List.count_cons_self]
      · rename_i hb
        rw [hrest, List.count_cons_of_ne hb]

private theorem newlineStops_append_of_notMem {front : List UInt8} (h : newline ∉ front) :
    newlineStops offset (front ++ bs) = newlineStops (offset + front.length) bs := by
  induction front generalizing offset with
  | nil => rfl
  | cons b front ih =>
    rw [List.mem_cons, not_or] at h
    rw [List.cons_append, newlineStops, if_neg (Ne.symm h.1), ih h.2, List.length_cons,
      Nat.add_assoc, Nat.add_comm 1]

end Stops

/-! ### Bytes of characters -/

/-- The bytes of a character other than a newline are none either: those of a character beyond
the first 128 have their highest bit set. -/
theorem newline_notMem_utf8EncodeChar {c : Char} (h : c ≠ '\n') :
    newline ∉ String.utf8EncodeChar c := by
  have hne : c.val.toNat ≠ 10 := fun heq => h (Char.ext (UInt32.toNat_inj.mp heq))
  have hbyte : ∀ b < 256, b ≠ 10 → newline ≠ UInt8.ofNat b := by
    intro b hb hb10 heq
    have hnat := congrArg UInt8.toNat heq
    rw [UInt8.toNat_ofNat', Nat.mod_eq_of_lt hb] at hnat
    exact hb10 hnat.symm
  rw [String.utf8EncodeChar]
  split_ifs with hone htwo hthree
  · rw [List.mem_singleton]
    exact hbyte _ (by omega) hne
  all_goals
    simp only [List.mem_cons, List.not_mem_nil, or_false, not_or]
    and_intros <;> exact hbyte _ (by omega) (by omega)

@[simp] theorem bytes_ofList (cs : List Char) :
    bytes (String.ofList cs) = cs.flatMap String.utf8EncodeChar := by
  simp [bytes, List.utf8Encode, List.data_toByteArray]

/-- The lines of a text start behind the newlines among its bytes. -/
theorem newlineEnds_eq_newlineStops (offset : Nat) (cs : List Char) :
    newlineEnds offset cs = newlineStops offset (cs.flatMap String.utf8EncodeChar) := by
  induction cs generalizing offset with
  | nil => rfl
  | cons c cs ih =>
    rw [newlineEnds, List.flatMap_cons]
    split
    · rename_i hc
      subst hc
      rw [ih]
      rfl
    · rename_i hc
      rw [newlineStops_append_of_notMem (newline_notMem_utf8EncodeChar hc),
        String.length_utf8EncodeChar, ih]

theorem starts_ofText (text : String) :
    (LineIndex.ofText text).starts.toList = 0 :: newlineStops 0 (bytes text) := by
  rw [← String.ofList_toList (s := text), bytes_ofList, ← newlineEnds_eq_newlineStops]
  simp [LineIndex.ofText]

/-! ### Places of offsets -/

section Places

variable {text : String} {offset start : Nat}

/-- In an ascending list that begins up to a bound, the number of the later entries up to the
bound is the place of the last one. -/
theorem exists_last_le {first bound : Nat} {rest : List Nat}
    (hordered : (first :: rest).Pairwise (· < ·)) (hfirst : first ≤ bound) :
    ∃ last, (first :: rest)[rest.countP (· ≤ bound)]? = some last ∧ last ≤ bound ∧
      ∀ entry ∈ first :: rest, entry ≤ bound → entry ≤ last := by
  induction rest generalizing first with
  | nil => exact ⟨first, rfl, hfirst, by simp⟩
  | cons second rest ih =>
    obtain ⟨hsmallest, hrest⟩ := List.pairwise_cons.mp hordered
    by_cases hsecond : second ≤ bound
    · obtain ⟨last, hlast, hle, hgreatest⟩ := ih hrest hsecond
      refine ⟨last, ?_, hle, fun entry hentry hbound => ?_⟩
      · rw [List.countP_cons_of_pos (by simpa using hsecond)]
        exact hlast
      · rcases List.mem_cons.mp hentry with rfl | hentry
        · exact Nat.le_trans (Nat.le_of_lt (hsmallest second List.mem_cons_self))
            (hgreatest second List.mem_cons_self hsecond)
        · exact hgreatest entry hentry hbound
    · have hbehind : ∀ entry ∈ second :: rest, bound < entry := by
        intro entry hentry
        rcases List.mem_cons.mp hentry with rfl | hentry
        · exact Nat.lt_of_not_le hsecond
        · exact Nat.lt_trans (Nat.lt_of_not_le hsecond) (List.rel_of_pairwise_cons hrest hentry)
      have hnone : (second :: rest).countP (· ≤ bound) = 0 :=
        List.countP_eq_zero.mpr fun entry hentry => by simpa using hbehind entry hentry
      refine ⟨first, by rw [hnone]; rfl, hfirst, fun entry hentry hbound => ?_⟩
      rcases List.mem_cons.mp hentry with rfl | hentry
      · exact Nat.le_refl _
      · exact absurd hbound (Nat.not_le_of_lt (hbehind entry hentry))

private theorem ordered_starts (text : String) :
    (0 :: newlineStops 0 (bytes text)).Pairwise (· < ·) := by
  rw [← starts_ofText]
  exact List.pairwise_cons.mpr ⟨fun _ h => lt_of_mem_newlineEnds h, pairwise_newlineEnds _ _⟩

/-- A line starts where the last line start up to an offset is. -/
theorem lineStart_of_greatest (hstart : start ∈ 0 :: newlineStops 0 (bytes text))
    (hle : start ≤ offset)
    (hgreatest : ∀ entry ∈ 0 :: newlineStops 0 (bytes text), entry ≤ offset → entry ≤ start) :
    LineStart text offset start := by
  have hstop : ∀ i, (bytes text)[i]? = some newline → i < offset → i + 1 ≤ start := by
    intro i hi hlt
    have hmem : i + 1 ∈ newlineStops 0 (bytes text) :=
      mem_newlineStops_iff.mpr ⟨i, hi, by omega⟩
    exact hgreatest (i + 1) (List.mem_cons_of_mem _ hmem) hlt
  rcases List.mem_cons.mp hstart with rfl | hstart
  · exact .first fun i hi hfound => absurd (hstop i hfound hi) (by omega)
  · obtain ⟨i, hfound, rfl⟩ := mem_newlineStops_iff.mp hstart
    rw [Nat.zero_add] at hle hstop ⊢
    exact .behind i hle hfound fun j hij hj hagain => absurd (hstop j hagain hj) (by omega)

theorem LineStart.le (h : LineStart text offset start) : start ≤ offset := by
  cases h with
  | first => exact Nat.zero_le _
  | behind i before => exact before

/-- The line of an offset starts up to the offset, and the column is told by where. -/
theorem exists_lineCol (text : String) (offset : Nat) : ∃ start,
    (LineIndex.ofText text).lineCol offset =
        (newlinesBefore text offset + 1, offset - start + 1) ∧
      (LineIndex.ofText text).lineStart (newlinesBefore text offset + 1) = some start ∧
      LineStart text offset start := by
  have hcount : (newlineStops 0 (bytes text)).countP (· ≤ offset) = newlinesBefore text offset := by
    have hstops := countP_newlineStops 0 offset (bytes text)
    rwa [Nat.zero_add] at hstops
  obtain ⟨start, hstart, hle, hgreatest⟩ :=
    exists_last_le (ordered_starts text) (Nat.zero_le offset)
  rw [hcount, ← starts_ofText, Array.getElem?_toList] at hstart
  have hline : ((LineIndex.ofText text).lineCol offset).1 = newlinesBefore text offset + 1 := by
    rw [lineCol_fst_eq_countP, newlineEnds_eq_newlineStops, ← bytes_ofList, String.ofList_toList,
      hcount]
  have hcolumn : ((LineIndex.ofText text).lineCol offset).2 = offset - start + 1 := by
    have htold : ((LineIndex.ofText text).lineCol offset).2 = offset -
        (LineIndex.ofText text).starts.getD (((LineIndex.ofText text).lineCol offset).1 - 1) 0 + 1 :=
      rfl
    rw [htold, hline, Nat.add_sub_cancel, Array.getD_eq_getD_getElem?, hstart, Option.getD_some]
  refine ⟨start, Prod.ext hline hcolumn, hstart, lineStart_of_greatest ?_ hle hgreatest⟩
  rw [← starts_ofText]
  exact Array.mem_toList_iff.mpr (Array.mem_of_getElem? hstart)

end Places

end Lintel.Text
