import Lintel.Edit.Basic
import Lintel.Source

/-!
# Diagnostics

A diagnostic is either a finding, which a rule reports about the source, or a rule
fault, which stands for a rule that failed. Both name the rule, a severity and a
place, and a finding may offer fixes.
-/

namespace Lintel

inductive Severity where
  | info
  | warning
  | error
  deriving DecidableEq, Repr

def Severity.text : Severity → String
  | .info => "info"
  | .warning => "warning"
  | .error => "error"

def Severity.ofText? : String → Option Severity
  | "info" => some .info
  | "warning" => some .warning
  | "error" => some .error
  | _ => none

/-- A place in a file; line and column count from one, and columns count bytes. -/
structure Location where
  file : String
  line : Nat
  column : Nat
  offset : Nat
  length : Nat
  deriving DecidableEq, Repr

def Location.ofSpan (file : SourceFile) (span : Span) : Location :=
  let (line, column) := file.lines.lineCol span.start
  ⟨file.relativePath, line, column, span.start, span.length⟩

/-- Whether a diagnostic speaks about the source or about a rule that failed. -/
inductive DiagnosticKind where
  | finding
  | ruleFault
  deriving DecidableEq, Repr

def DiagnosticKind.text : DiagnosticKind → String
  | .finding => "finding"
  | .ruleFault => "rule-fault"

/-- What a rule has to say about a place. -/
structure Diagnostic where
  code : String
  rule : String
  severity : Severity
  kind : DiagnosticKind
  location : Location
  message : String
  help : Option String
  fixes : List Fix
  deriving DecidableEq

namespace Diagnostic

def ruleFault (code rule file detail : String) : Diagnostic where
  code := code
  rule := rule
  severity := .error
  kind := .ruleFault
  location := ⟨file, 1, 1, 0, 0⟩
  message := "rule execution error in `" ++ rule ++ "`: " ++ detail
  help := none
  fixes := []

def isFinding (d : Diagnostic) : Bool :=
  d.kind == .finding

/-- One line for a diagnostic: place, severity, code and message. -/
def display (d : Diagnostic) : String :=
  s!"{d.location.file}:{d.location.line}:{d.location.column}: {d.severity.text} [{d.code}] {d.message}"

end Diagnostic

/-- A diagnostic arranged for a labelled report: the title, a hint, and the labelled range. -/
structure Report where
  message : String
  help : Option String
  offset : Nat
  length : Nat
  label : String
  deriving DecidableEq, Repr

/-- The report of a diagnostic. Without a help text its first fix is the hint. -/
def Report.ofDiagnostic (d : Diagnostic) : Report where
  message := s!"[{d.code}] {d.message}"
  help := d.help.or (d.fixes.head?.map (·.description))
  offset := d.location.offset
  length := d.location.length
  label := d.rule

structure LintResult where
  diagnostics : List Diagnostic
  filesChecked : Nat
  filesFailed : Nat
  cancelled : Bool
  deriving DecidableEq

namespace LintResult

def empty : LintResult :=
  ⟨[], 0, 0, false⟩

def hasFindings (r : LintResult) : Bool :=
  r.diagnostics.any (·.isFinding)

def hasFaults (r : LintResult) : Bool :=
  r.diagnostics.any fun d => !d.isFinding

def count (r : LintResult) (severity : Severity) : Nat :=
  r.diagnostics.countP fun d => d.severity == severity

end LintResult

end Lintel
