import Lintel.Edit.Plan
import Lintel.Proofs.Edit.Splice
import Mathlib.Data.List.Induction

/-!
# What a plan takes

A plan decides about its candidates in order, and leaves one out exactly if it conflicts
with one taken before. Hence the fixes that are taken never conflict, whatever the
candidates are, and can be applied at once as soon as their edits fit.
-/

namespace Lintel

namespace FixPlan

variable {fixes candidates : List Fix} {fix : Fix} {plan : FixPlan} {taken : List Bool}

/-- A plan that has decided about every candidate, by place: those taken and those left
out are in the order of the candidates, and a candidate is left out exactly if it conflicts
with one that was taken before it. -/
structure Divides (plan : FixPlan) (candidates : List Fix) (taken : List Bool) : Prop where
  decided : taken.length = candidates.length
  selected : plan.selected = ((candidates.zip taken).filter fun c => c.2).map (·.1)
  skipped : plan.skipped = ((candidates.zip taken).filter fun c => !c.2).map (·.1)
  skips_iff : ∀ (i : Nat) (fix : Fix), candidates[i]? = some fix →
    (taken[i]? = some false ↔ ∃ j < i, ∃ earlier : Fix, candidates[j]? = some earlier ∧
      taken[j]? = some true ∧ earlier.conflicts fix = true)

namespace Divides

theorem nil : Divides ⟨[], []⟩ [] [] :=
  ⟨rfl, rfl, rfl, fun i fix h => by simp at h⟩

private theorem mem_selected_iff (h : plan.Divides candidates taken) :
    fix ∈ plan.selected ↔ ∃ j : Nat, candidates[j]? = some fix ∧ taken[j]? = some true := by
  rw [h.selected]
  simp only [List.mem_map, List.mem_filter, Prod.exists]
  constructor
  · rintro ⟨_, _, ⟨hmem, rfl⟩, rfl⟩
    obtain ⟨j, hj⟩ := List.mem_iff_getElem?.mp hmem
    exact ⟨j, List.getElem?_zip_eq_some.mp hj⟩
  · rintro ⟨j, hj⟩
    have hmem : (fix, true) ∈ candidates.zip taken :=
      List.mem_iff_getElem?.mpr ⟨j, List.getElem?_zip_eq_some.mpr hj⟩
    exact ⟨fix, true, ⟨hmem, rfl⟩, rfl⟩

theorem add (h : plan.Divides candidates taken) (fix : Fix) :
    (plan.add fix).Divides (candidates ++ [fix])
      (taken ++ [!plan.selected.any fun s => s.conflicts fix]) := by
  have hzip : (candidates ++ [fix]).zip (taken ++ [!plan.selected.any fun s => s.conflicts fix]) =
      candidates.zip taken ++ [(fix, !plan.selected.any fun s => s.conflicts fix)] :=
    List.zip_append h.decided.symm
  refine ⟨by simp [h.decided], ?_, ?_, fun i other hi => ?_⟩
  · rw [hzip, List.filter_append, List.map_append, ← h.selected, FixPlan.add]
    cases plan.selected.any fun s => s.conflicts fix with
    | true => simp
    | false => simp
  · rw [hzip, List.filter_append, List.map_append, ← h.skipped, FixPlan.add]
    cases plan.selected.any fun s => s.conflicts fix with
    | true => simp
    | false => simp
  · -- decisions before the last one stand, and only those before are looked at
    have hold : ∀ j < candidates.length, ∀ s : Fix,
        ((candidates ++ [fix])[j]? = some s ∧
            (taken ++ [!plan.selected.any fun s => s.conflicts fix])[j]? = some true ↔
          candidates[j]? = some s ∧ taken[j]? = some true) := fun j hj s => by
      rw [List.getElem?_append_left hj, List.getElem?_append_left (h.decided ▸ hj)]
    rcases Nat.lt_trichotomy i candidates.length with hlt | rfl | hgt
    · rw [List.getElem?_append_left hlt] at hi
      rw [List.getElem?_append_left (h.decided ▸ hlt), h.skips_iff i other hi]
      refine exists_congr fun j => and_congr_right fun hj => exists_congr fun s => ?_
      rw [← and_assoc, ← and_assoc, hold j (hj.trans hlt) s]
    · obtain rfl : fix = other := by simpa using hi
      have hlast : (taken ++ [!plan.selected.any fun s => s.conflicts fix])[candidates.length]? =
          some (!plan.selected.any fun s => s.conflicts fix) := by simp [← h.decided]
      rw [hlast, Option.some.injEq, Bool.not_eq_false', List.any_eq_true]
      constructor
      · rintro ⟨s, hs, hconflict⟩
        obtain ⟨j, hj⟩ := h.mem_selected_iff.mp hs
        obtain ⟨hlt, -⟩ := List.getElem?_eq_some_iff.mp hj.1
        obtain ⟨hcandidate, htaken⟩ := (hold j hlt s).mpr hj
        exact ⟨j, hlt, s, hcandidate, htaken, hconflict⟩
      · rintro ⟨j, hlt, s, hcandidate, htaken, hconflict⟩
        exact ⟨s, h.mem_selected_iff.mpr ⟨j, (hold j hlt s).mp ⟨hcandidate, htaken⟩⟩, hconflict⟩
    · rw [List.getElem?_eq_none (by simp; omega)] at hi
      cases hi

end Divides

/-- A plan decides about all its candidates. -/
theorem exists_divides (candidates : List Fix) :
    ∃ taken, (ofFixes candidates).Divides candidates taken := by
  induction candidates using List.reverseRecOn with
  | nil => exact ⟨[], .nil⟩
  | append_singleton candidates fix ih =>
    obtain ⟨taken, h⟩ := ih
    rw [ofFixes, List.foldl_append]
    exact ⟨_, h.add fix⟩

private theorem pairwise_add (h : plan.selected.Pairwise fun a b => a.conflicts b = false) :
    (plan.add fix).selected.Pairwise fun a b => a.conflicts b = false := by
  unfold add
  split
  · exact h
  · rename_i hclear
    refine List.pairwise_append.mpr ⟨h, List.pairwise_singleton _ fix, fun a ha b hb => ?_⟩
    rw [List.mem_singleton.mp hb]
    simpa using fun hconflict => hclear (List.any_eq_true.mpr ⟨a, ha, hconflict⟩)

private theorem pairwise_foldl_add (h : plan.selected.Pairwise fun a b => a.conflicts b = false) :
    (fixes.foldl add plan).selected.Pairwise fun a b => a.conflicts b = false := by
  induction fixes generalizing plan with
  | nil => exact h
  | cons fix fixes ih => exact ih (pairwise_add h)

/-- The fixes that are taken do not conflict. -/
theorem pairwise_selected (fixes : List Fix) :
    (ofFixes fixes).selected.Pairwise fun a b => a.conflicts b = false :=
  pairwise_foldl_add .nil

private theorem mem_of_mem_selected (h : fix ∈ (ofFixes fixes).selected) : fix ∈ fixes := by
  obtain ⟨taken, hdivides⟩ := exists_divides fixes
  obtain ⟨j, hj, -⟩ := hdivides.mem_selected_iff.mp h
  exact List.mem_of_getElem? hj

/-- A plan can be carried out if the edits of all candidates fit. -/
theorem exists_applyFixes {source : String} (h : ∀ fix ∈ fixes, ∀ e ∈ fix.edits, e.fits source) :
    ∃ text, applyFixes source (ofFixes fixes).selected = .ok text := by
  have hfit : ∀ e ∈ (ofFixes fixes).selected.flatMap (·.edits), e.fits source := by
    intro e he
    obtain ⟨fix, hfix, he⟩ := List.mem_flatMap.mp he
    exact h fix (mem_of_mem_selected hfix) e he
  obtain ⟨text, -, htext⟩ := (splices_applyFixes (pairwise_selected fixes)).carried hfit
  exact ⟨text, htext⟩

/-- The plan of diagnostics can be carried out if the edits of all their fixes fit. -/
theorem exists_applyFixes_ofDiagnostics {source : String} {ds : List Diagnostic}
    (h : ∀ d ∈ ds, ∀ fix ∈ d.fixes, ∀ e ∈ fix.edits, e.fits source) :
    ∃ text, applyFixes source (ofDiagnostics ds).selected = .ok text := by
  refine exists_applyFixes fun fix hfix => ?_
  obtain ⟨d, hd, hhead⟩ := List.mem_filterMap.mp hfix
  exact h d hd fix (List.mem_of_head? hhead)

/-- The plan of diagnostics takes what it can of their first fixes, and what it takes is
applied as a whole or refused for an edit that is out of bounds. -/
theorem ofDiagnostics_divides (ds : List Diagnostic) :
    (∃ taken, (ofDiagnostics ds).Divides (ds.filterMap fun d => d.fixes.head?) taken) ∧
    (ofDiagnostics ds).selected.Pairwise (fun a b => a.conflicts b = false) ∧
    ∀ source,
      (∃ text,
        splice? source 0 (TextEdit.ascending ((ofDiagnostics ds).selected.flatMap (·.edits))) =
            some text ∧
          applyFixes source (ofDiagnostics ds).selected = .ok text) ∨
      ∃ e ∈ (ofDiagnostics ds).selected.flatMap (·.edits), e.fits source = false ∧
        applyFixes source (ofDiagnostics ds).selected = .error (e.outOfBounds source) := by
  have hclear := pairwise_selected (ds.filterMap fun d => d.fixes.head?)
  exact ⟨exists_divides _, hclear, fun source => (splices_applyFixes hclear).carried_or_refused⟩

end FixPlan

end Lintel
