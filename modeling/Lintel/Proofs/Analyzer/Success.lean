import Lintel.Proofs.Analyzer.Fixes
import Lintel.Proofs.Analyzer.Selection
import Lintel.Proofs.Analyzer.Turns
import Lintel.Proofs.Go.Linked
import Lintel.Proofs.Rules.Success
import Lintel.Proofs.Rules.Words

/-!
# Runs without faults

Whatever rules of a preset are chosen, they run on a parsed file without a fault: every rule
finds what it requires, published as it expects it, and comes to an end.
-/

namespace Lintel

open Lintel.Pattern Lintel.Text

/-- The rules of a preset, or those of them that are retained for some names. -/
def Preset.chosen (preset : Preset) (limits : StyleLimits) :
    Option (List String) → Registry Published
  | none => preset.rules limits
  | some requested => ((preset.rules limits).retainWithPrerequisites requested).1

/-- A turn at which nothing is missing and nothing fails: the rule requires indexes only, reads
them as they should be, and comes to an end. -/
structure Turn.Succeeds (unit : SourceUnit) (t : Turn Published) : Prop where
  requires : ∀ d ∈ t.rule.requires, d ∈ indexNames
  nodeIndex : treeIndex.name ∈ t.rule.requires →
    Pass.nodeIndex ⟨unit, t.rule.info, t.readable⟩ = .ok (.ofTree unit.tree)
  declarations : declIndex.name ∈ t.rule.requires →
    ∃ decls, Declarations.ofIndex unit.tree (.ofTree unit.tree) = .ok decls ∧
      Pass.declarations ⟨unit, t.rule.info, t.readable⟩ = .ok decls
  ended : ∃ outcome, t.ending = .ok outcome

section Run

variable {unit : SourceUnit} {rule : Rule Published} {r : Registry Published} {seen : List String}
  {results : List (String × Published)}

/-- A rule that delivers succeeds where the indexes behind it are published, and adds its own
if it is one. -/
theorem Rule.Delivers.step (h : rule.Delivers unit) (hindex : ∀ d ∈ rule.requires, d ∈ indexNames)
    (hdeclared : Registry.Declared seen (rule :: r))
    (hsupplied : Supplied unit.tree (seen.filter indexNames.contains) results) (silent : Bool) :
    (Turn.take unit rule silent results).Succeeds unit ∧
      Supplied unit.tree ((rule.name :: seen).filter indexNames.contains)
        ((Turn.take unit rule silent results).left?.toList ++ results) := by
  obtain ⟨hfresh, hbehind, -⟩ := hdeclared
  have hrequired : Supplied unit.tree rule.requires results := fun d hd =>
    hsupplied d (List.mem_filter.mpr ⟨hbehind d hd, List.contains_iff_mem.mpr (hindex d hd)⟩)
  obtain ⟨outcome, hrun, hpublished⟩ := h results hrequired
  have hleft : (Turn.take unit rule silent results).left? = outcome.published.map (rule.name, ·) := by
    simp only [Turn.left?, Turn.result?, Turn.take, hrun]
  refine ⟨⟨hindex, fun hmem => hrequired.nodeIndex hmem, fun hmem => hrequired.declarations hmem,
    ⟨outcome, hrun⟩⟩, fun d hd => ?_⟩
  rw [hleft]
  obtain ⟨hd, hname⟩ := List.mem_filter.mp hd
  rcases List.mem_cons.mp hd with rfl | hd
  · obtain ⟨result, hresult, hexpected⟩ := hpublished (List.contains_iff_mem.mp hname)
    exact ⟨result, by simp [hresult], hexpected⟩
  · have hne : d ≠ rule.name := fun heq => hfresh (heq ▸ hd)
    rw [Analyzer.lookup_published_append hne]
    exact hsupplied d (List.mem_filter.mpr ⟨hd, hname⟩)

/-- In words, a rule delivers what it delivers. -/
theorem Rule.Delivers.inWords (h : rule.Delivers unit) (hwords : unit.tree.InWords)
    {severity : Severity} {limits : StyleLimits} (hrule : rule ∈ catalog severity limits)
    (overflow : Overflow) : (rule.inWords overflow).Delivers unit := by
  intro results hsupplied
  obtain ⟨outcome, hrun, hpublished⟩ := h results hsupplied
  exact ⟨outcome, (run_inWords hwords hrule rule.info results).trans hrun, hpublished⟩

end Run

end Lintel
