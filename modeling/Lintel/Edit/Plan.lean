import Lintel.Diagnostic
import Lintel.Edit.Apply

/-!
# Choosing fixes

Of every diagnostic that offers fixes the first one is a candidate. Candidates are
taken in order; one that conflicts with a fix already taken is left out.
-/

namespace Lintel

/-- The fixes taken and those left out, each in order. -/
structure FixPlan where
  selected : List Fix
  skipped : List Fix

namespace FixPlan

/-- Takes one more candidate, or leaves it out. -/
def add (plan : FixPlan) (fix : Fix) : FixPlan :=
  if plan.selected.any fun s => s.conflicts fix then
    { plan with skipped := plan.skipped ++ [fix] }
  else
    { plan with selected := plan.selected ++ [fix] }

def ofFixes (fixes : List Fix) : FixPlan :=
  fixes.foldl add ⟨[], []⟩

/-- Chooses among the first fixes of diagnostics of one file. -/
def ofDiagnostics (diagnostics : List Diagnostic) : FixPlan :=
  ofFixes (diagnostics.filterMap fun d => d.fixes.head?)

end FixPlan

end Lintel
