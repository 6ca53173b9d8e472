import Lintel.Proofs.Edit.Merge

/-!
# Edits listed in any order

Whether edits make a fix depends on the edits alone and not on the order in which they are
listed: each of them must run forwards and no two of them may overlap. The fix lists them from
the lowest offset up. Since edits that keep apart have one such order, all listings make the
same fix.
-/

namespace Lintel

open TextEdit

namespace Fix

variable {description : String} {edits others : List TextEdit} {fix : Fix}

private theorem eq_of_edits {a b : Fix} (hdescription : a.description = b.description)
    (hedits : a.edits = b.edits) : a = b := by
  cases a
  cases b
  cases hdescription
  cases hedits
  rfl

/-- The test of neighbours in order speaks of all pairs of places of the listing. -/
theorem pairwise_clear_iff :
    (edits.Pairwise fun a b => a.overlaps b = false) ↔
      ∀ (i j : Nat) (hi : i < edits.length) (hj : j < edits.length), i ≠ j →
        edits[i].overlaps edits[j] = false := by
  rw [List.pairwise_iff_getElem]
  constructor
  · intro h i j hi hj hne
    rcases Nat.lt_or_gt_of_ne hne with hlt | hgt
    · exact h i j hi hj hlt
    · exact (overlaps_comm _ _).trans (h j i hj hi hgt)
  · exact fun h i j hi hj hlt => h i j hi hj (Nat.ne_of_lt hlt)

private theorem description_of_ofEdits (h : ofEdits description edits = .ok fix) :
    fix.description = description := by
  unfold ofEdits at h
  split at h
  · cases h
  · split at h
    · cases h
    · cases h
      rfl

/-- What edits make is told by their description and their ascending order. -/
theorem ofEdits_eq_ok_iff :
    ofEdits description edits = .ok fix ↔
      ((∀ e ∈ edits, e.start ≤ e.stop) ∧ edits.Pairwise fun a b => a.overlaps b = false) ∧
        fix.description = description ∧ fix.edits = ascending edits := by
  constructor
  · exact fun h => ⟨exists_ofEdits_iff.mp ⟨fix, h⟩, description_of_ofEdits h, edits_of_ofEdits h⟩
  · rintro ⟨hclear, hdescription, hedits⟩
    obtain ⟨made, hmade⟩ := exists_ofEdits_iff.mpr hclear
    obtain rfl : made = fix := eq_of_edits ((description_of_ofEdits hmade).trans hdescription.symm)
      ((edits_of_ofEdits hmade).trans hedits.symm)
    exact hmade

/-- Edits make a fix exactly if each of them runs forwards and no two of them, at different places
of the listing, overlap. The fix has the same edits with strictly increasing starts, none of them
reaching beyond the start of a later one, and every other listing of them makes the same fix. -/
theorem ofEdits_listed (description : String) (edits : List TextEdit) :
    ((∃ fix, ofEdits description edits = .ok fix) ↔
      (∀ e ∈ edits, e.start ≤ e.stop) ∧
        ∀ (i j : Nat) (hi : i < edits.length) (hj : j < edits.length), i ≠ j →
          edits[i].overlaps edits[j] = false) ∧
    ∀ fix, ofEdits description edits = .ok fix →
      fix.edits.Perm edits ∧
      (fix.edits.Pairwise fun a b => a.start < b.start ∧ a.stop ≤ b.start) ∧
      ∀ others : List TextEdit, others.Perm edits → ofEdits description others = .ok fix := by
  refine ⟨exists_ofEdits_iff.trans (and_congr_right fun _ => pairwise_clear_iff), fun fix h => ?_⟩
  obtain ⟨⟨hforward, hclear⟩, hdescription, hedits⟩ := ofEdits_eq_ok_iff.mp h
  have hapart : (ascending edits).Pairwise Apart := pairwise_apart_ascending hforward hclear
  refine ⟨hedits ▸ List.mergeSort_perm _ _, hedits ▸ hapart, fun others hperm => ?_⟩
  refine ofEdits_eq_ok_iff.mpr ⟨⟨fun e he => hforward e (hperm.subset he), ?_⟩, hdescription, ?_⟩
  · exact hclear.perm hperm.symm fun hab => (overlaps_comm _ _).trans hab
  · exact hedits.trans (ascending_eq_of_perm hapart hperm.symm)

/-- A replacement, an insertion where it ends and one far behind, listed backwards. -/
def backwards : List TextEdit :=
  [⟨6, 6, "!"⟩, ⟨3, 3, "l"⟩, ⟨1, 3, "e"⟩]

theorem ofEdits_listed_backwards :
    ∃ fix, ofEdits "spell it out" backwards = .ok fix ∧ fix.edits.Perm backwards ∧
      (fix.edits.Pairwise fun a b => a.start < b.start ∧ a.stop ≤ b.start) ∧
      backwards.reverse.Perm backwards ∧
      ofEdits "spell it out" backwards.reverse = .ok fix := by
  obtain ⟨hmakes, hlisted⟩ := ofEdits_listed "spell it out" backwards
  obtain ⟨fix, hfix⟩ := hmakes.mpr ⟨by decide, pairwise_clear_iff.mp (by decide)⟩
  obtain ⟨hperm, hapart, hothers⟩ := hlisted fix hfix
  exact ⟨fix, hfix, hperm, hapart, List.reverse_perm _, hothers _ (List.reverse_perm _)⟩

end Fix

end Lintel
