import Lintel.Proofs.Text.Places
import Mathlib.Data.String.Basic

/-!
# Texts in the order of their bytes

Texts are ordered by their characters. The bytes of their UTF-8 forms give the same order. The
first byte of a character tells how many bytes follow, and each of these holds six bits of the
character, the higher bits first. So the bytes of two characters differ at some place that both
have, and the smaller byte is that of the smaller character, whatever text comes behind.
-/

namespace Lintel.Text

/-! ### Bytes of one character -/

/-- The last `count` bytes of a character: six bits of its number each, the higher bits first. -/
def trail : Nat → Nat → List UInt8
  | 0, _ => []
  | count + 1, v => UInt8.ofNat (v / 64 ^ count % 64 + 0x80) :: trail count v

/-- How many bytes follow the first byte of a character. -/
def trailSize (v : Nat) : Nat :=
  if v ≤ 0x7f then 0 else if v ≤ 0x7ff then 1 else if v ≤ 0xffff then 2 else 3

/-- The smallest first byte of the characters that have so many bytes behind it. -/
def leadMark : Nat → Nat
  | 0 => 0
  | 1 => 0xc0
  | 2 => 0xe0
  | _ => 0xf0

/-- The first byte of a character. -/
def lead (v : Nat) : Nat :=
  v / 64 ^ trailSize v + leadMark (trailSize v)

/-- Bytes are the same up to a place where those on the left have the smaller one. -/
inductive PartsBelow : List UInt8 → List UInt8 → Prop
  | here {a b : UInt8} {as bs : List UInt8} (below : a < b) : PartsBelow (a :: as) (b :: bs)
  | behind (a : UInt8) {as bs : List UInt8} (rest : PartsBelow as bs) :
    PartsBelow (a :: as) (a :: bs)

theorem PartsBelow.append_lt {as bs : List UInt8} (h : PartsBelow as bs) (more others : List UInt8) :
    as ++ more < bs ++ others := by
  induction h with
  | here below => exact List.cons_lt_cons_iff.mpr (.inl below)
  | behind a rest ih => exact List.cons_lt_cons_iff.mpr (.inr ⟨rfl, ih⟩)

private theorem ofNat_lt_ofNat {m n : Nat} (h : m < n) (hn : n < 256) :
    UInt8.ofNat m < UInt8.ofNat n := by
  rw [UInt8.lt_iff_toNat_lt, UInt8.toNat_ofNat', UInt8.toNat_ofNat', Nat.mod_eq_of_lt hn,
    Nat.mod_eq_of_lt (Nat.lt_trans h hn)]
  exact h

variable {c d : Char} {v w : Nat}

/-- Numbers are compared by their digits to the base 64, as they are in the bytes. -/
theorem partsBelow_trail {count : Nat} (h : v % 64 ^ count < w % 64 ^ count) :
    PartsBelow (trail count v) (trail count w) := by
  induction count with
  | zero => simp [Nat.mod_one] at h
  | succ count ih =>
    rw [Nat.mod_pow_succ, Nat.mod_pow_succ] at h
    have hv : v % 64 ^ count < 64 ^ count := Nat.mod_lt _ (Nat.pow_pos (by decide))
    have hw : w % 64 ^ count < 64 ^ count := Nat.mod_lt _ (Nat.pow_pos (by decide))
    rcases Nat.lt_trichotomy (v / 64 ^ count % 64) (w / 64 ^ count % 64) with hlt | heq | hgt
    · exact .here (ofNat_lt_ofNat (by omega) (by omega))
    · rw [heq] at h
      rw [trail, trail, heq]
      exact .behind _ (ih (by omega))
    · have hle := Nat.mul_le_mul_left (64 ^ count) (Nat.succ_le_of_lt hgt)
      rw [Nat.mul_succ] at hle
      omega

private theorem lead_lt (h : v ≤ 0x10ffff) : lead v < 256 := by
  unfold lead trailSize
  split_ifs <;> simp only [leadMark] <;> omega

/-- A greater character has a greater first byte, or the same one. Then as many bytes are behind
it, and hold more. -/
theorem lead_lt_or_eq (h : v < w) : lead v < lead w ∨
    lead v = lead w ∧ trailSize v = trailSize w ∧
      v % 64 ^ trailSize w < w % 64 ^ trailSize w := by
  -- For different sizes the marks keep the first bytes apart, for one size it is division.
  unfold lead trailSize
  split_ifs <;> simp only [leadMark, true_and] <;> omega

private theorem toNat_le_max (c : Char) : c.val.toNat ≤ 0x10ffff := by
  have hvalid := c.valid
  simp only [UInt32.isValidChar, Nat.isValidChar] at hvalid
  omega

private theorem utf8EncodeChar_eq (c : Char) : String.utf8EncodeChar c =
    UInt8.ofNat (lead c.val.toNat) :: trail (trailSize c.val.toNat) c.val.toNat := by
  have hmax := toNat_le_max c
  rw [String.utf8EncodeChar, lead, trailSize]
  split_ifs with hone htwo hthree
  · simp [trail, leadMark]
  · rw [Nat.mod_eq_of_lt (by omega : c.val.toNat / 64 < 0x20)]
    simp [trail, leadMark]
  · rw [Nat.mod_eq_of_lt (by omega : c.val.toNat / 4096 < 0x10)]
    simp [trail, leadMark]
  · rw [Nat.mod_eq_of_lt (by omega : c.val.toNat / 262144 < 0x08)]
    simp [trail, leadMark]

private theorem partsBelow_utf8EncodeChar (h : c < d) :
    PartsBelow (String.utf8EncodeChar c) (String.utf8EncodeChar d) := by
  have hlt : c.val.toNat < d.val.toNat := h
  rw [utf8EncodeChar_eq, utf8EncodeChar_eq]
  rcases lead_lt_or_eq hlt with hlead | ⟨hlead, hsize, hrest⟩
  · exact .here (ofNat_lt_ofNat hlead (lead_lt (toNat_le_max d)))
  · rw [hlead, hsize]
    exact .behind _ (partsBelow_trail hrest)

/-! ### Bytes of a text -/

private theorem flatMap_utf8EncodeChar_lt {cs ds : List Char} (h : cs < ds) :
    cs.flatMap String.utf8EncodeChar < ds.flatMap String.utf8EncodeChar := by
  induction cs generalizing ds with
  | nil =>
    cases ds with
    | nil => cases h
    | cons d ds =>
      rw [List.flatMap_cons, utf8EncodeChar_eq]
      exact List.nil_lt_cons _ _
  | cons c cs ih =>
    cases ds with
    | nil => cases h
    | cons d ds =>
      rw [List.flatMap_cons, List.flatMap_cons]
      rcases List.cons_lt_cons_iff.mp h with hlt | ⟨rfl, hrest⟩
      · exact (partsBelow_utf8EncodeChar hlt).append_lt _ _
      · exact List.append_left_lt (ih hrest)

theorem bytes_lt_bytes {text other : String} (h : text < other) : bytes text < bytes other := by
  have hlt := flatMap_utf8EncodeChar_lt (String.lt_iff_toList_lt.mp h)
  rwa [← bytes_ofList, ← bytes_ofList, String.ofList_toList, String.ofList_toList] at hlt

/-- Texts stand in the order of their bytes. -/
theorem bytes_lt_bytes_iff {text other : String} : bytes text < bytes other ↔ text < other := by
  have : Std.Asymm (α := UInt8) (· < ·) := ⟨fun _ _ => UInt8.lt_asymm⟩
  refine ⟨fun h => ?_, bytes_lt_bytes⟩
  rcases lt_trichotomy text other with hlt | rfl | hgt
  · exact hlt
  · exact absurd h (List.lt_asymm h)
  · exact absurd h (List.lt_asymm (bytes_lt_bytes hgt))

end Lintel.Text
