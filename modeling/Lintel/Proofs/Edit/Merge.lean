import Lintel.Proofs.Edit.Splice
import Lintel.Proofs.Except

/-!
# Fixes merged into one

A list of edits makes a fix if each of them runs forwards and no two of them overlap, so
that the check of neighbours is complete. Hence several fixes conflict exactly if their
edits do not make one fix together. Otherwise they do what the merged fix does, and in any
order, since edits that keep apart have one ascending order.
-/

namespace Lintel

open TextEdit

/-- Two outcomes with the same text, or two failures of one kind. -/
inductive Alike : Except FixError String → Except FixError String → Prop
  | text (text : String) : Alike (.ok text) (.ok text)
  | conflict (first second other next : String) :
      Alike (.error (.conflict first second)) (.error (.conflict other next))
  | outOfBounds (a b : TextEdit) (source : String) :
      Alike (.error (a.outOfBounds source)) (.error (b.outOfBounds source))

/-! ### Edits that make a fix -/

private theorem firstOverlap_eq_none {edits : List TextEdit} (h : edits.Pairwise Apart) :
    firstOverlap edits = none := by
  induction edits with
  | nil => rfl
  | cons a rest ih =>
    obtain ⟨hfirst, hrest⟩ := List.pairwise_cons.mp h
    cases rest with
    | nil => rfl
    | cons b rest =>
      have hclear : a.overlaps b = false := (hfirst b List.mem_cons_self).not_overlaps
      simpa [firstOverlap, hclear] using ih hrest

theorem Fix.exists_ofEdits_iff {description : String} {edits : List TextEdit} :
    (∃ fix, Fix.ofEdits description edits = .ok fix) ↔
      (∀ e ∈ edits, e.start ≤ e.stop) ∧ edits.Pairwise fun a b => a.overlaps b = false := by
  constructor
  · rintro ⟨fix, h⟩
    have hperm : fix.edits.Perm edits := Fix.edits_of_ofEdits h ▸ List.mergeSort_perm _ _
    refine ⟨fun e he => fix.forward e (hperm.symm.subset he), ?_⟩
    exact (fix.apart.imp Apart.not_overlaps).perm hperm fun hab => (overlaps_comm _ _).trans hab
  · rintro ⟨hforward, hclear⟩
    exact Fix.exists_ofEdits description edits hforward
      (firstOverlap_eq_none (pairwise_apart_ascending hforward hclear))

/-! ### Fixes that conflict -/

variable {source description : String} {fixes others : List Fix}

private theorem exists_conflict_iff :
    (∃ first second, applyFixes source fixes = .error (.conflict first second)) ↔
      ¬ fixes.Pairwise fun a b => a.conflicts b = false := by
  constructor
  · rintro ⟨first, second, h⟩ hclear
    rcases (splices_applyFixes hclear).carried_or_refused with ⟨text, -, hok⟩ | ⟨e, -, -, hout⟩
    · cases h.symm.trans hok
    · cases h.symm.trans hout
  · intro hclash
    cases hfirst : firstConflict fixes with
    | none => exact absurd (firstConflict_eq_none_iff.mp hfirst) hclash
    | some clash => exact ⟨clash.1.description, clash.2.description, by rw [applyFixes, hfirst]⟩

private theorem exists_ofEdits_flatMap_iff :
    (∃ fix, Fix.ofEdits description (fixes.flatMap (·.edits)) = .ok fix) ↔
      fixes.Pairwise fun a b => a.conflicts b = false := by
  rw [Fix.exists_ofEdits_iff, pairwise_flatMap_iff, and_iff_right (forward_flatMap fixes)]

theorem Fix.conflicts_comm (a b : Fix) : a.conflicts b = b.conflicts a := by
  apply Bool.eq_iff_iff.mpr
  simp only [Fix.conflicts, List.any_eq_true]
  constructor
  · rintro ⟨ea, ha, eb, hb, h⟩
    exact ⟨eb, hb, ea, ha, (overlaps_comm eb ea).trans h⟩
  · rintro ⟨eb, hb, ea, ha, h⟩
    exact ⟨ea, ha, eb, hb, (overlaps_comm ea eb).trans h⟩

/-! ### Outcomes -/

/-- The same edits in two orders come out alike. -/
theorem Splices.alike {edits listed : List TextEdit} {a b : Except FixError String}
    (ha : Splices source edits a) (hb : Splices source listed b) (hperm : edits.Perm listed)
    (hp : (ascending edits).Pairwise Apart) : Alike a b := by
  by_cases hfit : ∀ e ∈ edits, e.fits source = true
  · obtain ⟨text, htext, rfl⟩ := ha.carried hfit
    obtain ⟨other, hother, rfl⟩ := hb.carried fun e he => hfit e (hperm.symm.subset he)
    rw [← ascending_eq_of_perm hp hperm, htext] at hother
    obtain rfl := Option.some.inj hother
    exact .text text
  · obtain ⟨e, -, -, rfl⟩ := ha.exists_refused hfit
    obtain ⟨other, -, -, rfl⟩ := hb.exists_refused fun h =>
      hfit fun e he => h e (hperm.subset he)
    exact .outOfBounds e other source

/-- Fixes conflict exactly if their edits do not make one fix. If they do, that fix and the
fixes in any order come out alike. -/
theorem applyFixes_merged (source description : String) (fixes : List Fix) :
    ((∃ first second, applyFixes source fixes = .error (.conflict first second)) ↔
      ∃ e, Fix.ofEdits description (fixes.flatMap (·.edits)) = .error e) ∧
    (∀ merged, Fix.ofEdits description (fixes.flatMap (·.edits)) = .ok merged →
      Alike (applyFixes source fixes) (applyFix source merged)) ∧
    ∀ others, others.Perm fixes → Alike (applyFixes source others) (applyFixes source fixes) := by
  refine ⟨?_, fun merged hmerged => ?_, fun others hperm => ?_⟩
  · rw [exists_conflict_iff, exists_error_iff, exists_ofEdits_flatMap_iff]
  · have hclear := exists_ofEdits_flatMap_iff.mp ⟨merged, hmerged⟩
    have hedits : (fixes.flatMap (·.edits)).Perm merged.edits :=
      Fix.edits_of_ofEdits hmerged ▸ (List.mergeSort_perm _ _).symm
    exact (splices_applyFixes hclear).alike (merged.splices_applyFix source) hedits
      (pairwise_apart_flatMap hclear)
  · have hsame : (others.Pairwise fun a b => a.conflicts b = false) ↔
        fixes.Pairwise fun a b => a.conflicts b = false :=
      hperm.pairwise_iff fun h => (Fix.conflicts_comm _ _).trans h
    by_cases hclear : fixes.Pairwise fun a b => a.conflicts b = false
    · have hothers := hsame.mpr hclear
      exact (splices_applyFixes hothers).alike (splices_applyFixes hclear)
        (hperm.flatMap_right _) (pairwise_apart_flatMap hothers)
    · obtain ⟨first, second, h⟩ := exists_conflict_iff.mpr hclear
      obtain ⟨other, next, hothers⟩ := exists_conflict_iff.mpr (mt hsame.mp hclear)
      rw [h, hothers]
      exact .conflict other next first second

theorem applyFixes_merged_greeting :
    ∃ merged, Fix.ofEdits "greet" ([greetingFix, capitalFix].flatMap (·.edits)) = .ok merged ∧
      Alike (applyFixes "Héllo" [greetingFix, capitalFix]) (applyFix "Héllo" merged) ∧
      [capitalFix, greetingFix].Perm [greetingFix, capitalFix] ∧
      Alike (applyFixes "Héllo" [capitalFix, greetingFix])
        (applyFixes "Héllo" [greetingFix, capitalFix]) := by
  have hclear : [greetingFix, capitalFix].Pairwise fun a b => a.conflicts b = false := by decide
  have hswap : [capitalFix, greetingFix].Perm [greetingFix, capitalFix] := .swap _ _ _
  obtain ⟨merged, hmerged⟩ := exists_ofEdits_flatMap_iff.mpr hclear
  obtain ⟨-, hsame, horder⟩ :=
    applyFixes_merged "Héllo" "greet" [greetingFix, capitalFix]
  exact ⟨merged, hmerged, hsame merged hmerged, hswap, horder _ hswap⟩

end Lintel
