import Lintel.Rule.Basic

/-!
# Rules in machine words

Rules add to the offsets of nodes: a column is one more than an offset within a line, and an
insertion may stand one behind the start of a node. Here these sums are kept in words. In a
build that checks sums, a rule crashes at a sum that is no word.
-/

namespace Lintel

variable {ρ : Type}

def Fault.overflow : Fault :=
  .crashed (some "attempt to add with overflow")

/-- The word that a build has for a sum of a rule. -/
def Overflow.check (overflow : Overflow) (sum : Nat) : Check Nat :=
  match overflow.word sum with
  | some word => .ok word
  | none => .error .overflow

def Location.inWords (overflow : Overflow) (l : Location) : Check Location := do
  let column ← overflow.check l.column
  return { l with column := column }

def TextEdit.inWords (overflow : Overflow) (e : TextEdit) : Check TextEdit := do
  let start ← overflow.check e.start
  let stop ← overflow.check e.stop
  return ⟨start, stop, e.replacement⟩

def Fix.inWords (overflow : Overflow) (fix : Fix) : Check Fix := do
  let edits ← fix.edits.mapM (TextEdit.inWords overflow)
  Fix.check fix.description edits

def Diagnostic.inWords (overflow : Overflow) (d : Diagnostic) : Check Diagnostic := do
  let fixes ← d.fixes.mapM (Fix.inWords overflow)
  let location ← d.location.inWords overflow
  return { d with location := location, fixes := fixes }

def Outcome.inWords (overflow : Overflow) (outcome : Outcome ρ) : Check (Outcome ρ) := do
  let reported ← outcome.reported.mapM (Diagnostic.inWords overflow)
  return ⟨reported, outcome.published⟩

/-- A rule whose reports are kept in words. -/
def Rule.inWords (overflow : Overflow) (rule : Rule ρ) : Rule ρ where
  info := rule.info
  run pass := rule.run pass >>= Outcome.inWords overflow

end Lintel
