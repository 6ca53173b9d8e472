import Lintel.Text.Chars
import Lintel.Text.Lines

/-!
# Allowances in comments

A comment such as `// goarch-lint:allow(style-limits) reason="generated"` silences
the named rules, or every rule under the name `all`, on its own line and on the
next one. The directive is read from the first `//` of a line, whatever comes
before it.
-/

namespace Lintel

open Lintel.Text

/-- The rules a directive names, and the reason it gives. -/
structure Directive where
  rules : List String
  reason : Option String
  deriving DecidableEq, Repr

namespace Directive

/-- The text between a quote and the next one, if a text starts with a quote. -/
def quoted? : List Char → Option String
  | '"' :: rest => (cut? ['"'] rest).map fun (inner, _) => String.ofList inner
  | _ => none

def reason? (rest : List Char) : Option String :=
  (after? "reason=".toList (trim rest)).bind fun r => quoted? (trim r)

/-- The names in a list separated by commas; empty ones are dropped. -/
def names (inner : List Char) : List String :=
  ((splitAt (· == ',') inner).map trim).filterMap fun piece =>
    if piece.isEmpty then none else some (String.ofList piece)

/-- Reads the directive of one line, if it has one that names a rule. -/
def ofLine? (line : List Char) : Option Directive := do
  let (_, comment) ← cut? "//".toList line
  let body ← after? "goarch-lint:".toList (trim comment)
  let listed ← after? "allow(".toList (trim body)
  let (inner, rest) ← cut? [')'] (trim listed)
  let rules := names inner
  if rules.isEmpty then none else some ⟨rules, reason? rest⟩

def covers (d : Directive) (rule : String) : Bool :=
  d.rules.contains rule || d.rules.contains "all"

end Directive

/-- Whether a rule is silenced at a place, and why. -/
inductive Allowance where
  | denied
  | allowed (reason : Option String)
  deriving DecidableEq, Repr

namespace Allowance

def isAllowed : Allowance → Bool
  | .denied => false
  | .allowed _ => true

def reason : Allowance → Option String
  | .denied => none
  | .allowed reason => reason

/-- The lines whose directives count for a line that counts from one: the line before
it and the line itself. -/
def linesFor (content : String) : Nat → List (List Char)
  | 0 => []
  | 1 => (physicalLines content.toList).take 1
  | line + 2 => ((physicalLines content.toList).drop line).take 2

/-- Looks for a directive that silences a rule on a line. -/
def check (content : String) (line : Nat) (rule : String) : Allowance :=
  match ((linesFor content line).filterMap Directive.ofLine?).find? (·.covers rule) with
  | some d => .allowed d.reason
  | none => .denied

end Allowance

end Lintel
