import Lintel.Config
import Lintel.Log
import Lintel.Pattern.Glob
import Lintel.Registry.Basic

/-!
# Running rules

An analyzer is a registry with a graph, a plan made from the configuration, and the
patterns of files to leave out. A unit is run by the plan, one rule after another. A
rule that fails leaves a fault in place of its diagnostics and publishes nothing, and
the rules after it still run.
-/

namespace Lintel

open Lintel.Pattern

variable {ρ : Type}

structure Analyzer (ρ : Type) where
  graph : PassGraph ρ
  plan : List Scheduled
  exclude : List Glob
  config : Config

inductive BuildError where
  | graph (error : GraphError)
  | glob (error : GlobError)
  deriving DecidableEq, Repr

def BuildError.message : BuildError → String
  | .graph error => "Invalid rule set: " ++ error.message
  | .glob error => "Invalid glob pattern: " ++ error.message

/-- What a rule, or all rules, had to say about a unit. -/
structure UnitReport where
  diagnostics : List Diagnostic
  log : List LogLine
  deriving DecidableEq

namespace UnitReport

def empty : UnitReport :=
  ⟨[], []⟩

def append (a b : UnitReport) : UnitReport :=
  ⟨a.diagnostics ++ b.diagnostics, a.log ++ b.log⟩

end UnitReport

namespace Analyzer

/-- Builds an analyzer. The graph comes before the patterns, and the given patterns come
before those of the configuration. -/
def build (registry : Registry ρ) (config : Config) (exclude : List String) :
    Except BuildError (Analyzer ρ) := do
  let graph ← registry.build.mapError BuildError.graph
  let globs ← ((exclude ++ config.analyzer.exclude).mapM Glob.ofText).mapError BuildError.glob
  return ⟨graph, graph.schedule config.isEnabled, globs, config⟩

/-- A finding with the severity that the configuration gives to a rule; a fault is kept as
it is. -/
def overrideSeverity (a : Analyzer ρ) (rule : String) (d : Diagnostic) : Diagnostic :=
  match a.config.severity? rule with
  | some severity => if d.isFinding then { d with severity := severity } else d
  | none => d

/-- What a rule that succeeded has to say; a silent one says nothing. -/
def findings (a : Analyzer ρ) (pass : Pass ρ) (silent : Bool) (reported : List Diagnostic) :
    UnitReport :=
  ⟨if silent then [] else (pass.heard reported).map (a.overrideSeverity pass.rule.name), []⟩

/-- What there is to say about a rule that failed, silent or not. -/
def faultReport (pass : Pass ρ) (fault : Fault) : UnitReport :=
  let rule := pass.rule
  let file := pass.file.relativePath
  ⟨[.ruleFault rule.code rule.name file fault.detail],
    [.warn s!"Rule {rule.name} failed on {file}: {fault.detail}"]⟩

def runRule (a : Analyzer ρ) (unit : SourceUnit) (rule : Rule ρ) (silent : Bool)
    (results : List (String × ρ)) : UnitReport × List (String × ρ) :=
  let pass : Pass ρ := ⟨unit, rule.info, results⟩
  match rule.run pass with
  | .error fault => (faultReport pass fault, results)
  | .ok outcome =>
    (a.findings pass silent outcome.reported,
      match outcome.published with
      | some result => (rule.name, result) :: results
      | none => results)

def runSteps (a : Analyzer ρ) (unit : SourceUnit) :
    List Scheduled → List (String × ρ) → UnitReport
  | [], _ => .empty
  | step :: rest, results =>
    match a.graph.rules[step.index]? with
    | none => a.runSteps unit rest results
    | some rule =>
      let (report, results) := a.runRule unit rule step.silent results
      report.append (a.runSteps unit rest results)

def runUnit (a : Analyzer ρ) (unit : SourceUnit) : UnitReport :=
  a.runSteps unit a.plan []

def runUnits (a : Analyzer ρ) (cancelled : Bool) (units : List SourceUnit) : LintResult :=
  if cancelled then
    { LintResult.empty with cancelled := !units.isEmpty }
  else
    { LintResult.empty with
      diagnostics := units.flatMap fun unit => (a.runUnit unit).diagnostics
      filesChecked := units.length }

/-- Whether a file is left out, by its path or by its path below the root. -/
def isExcluded (a : Analyzer ρ) (root path : String) : Bool :=
  a.exclude.any fun glob => glob.matchesText path || glob.matchesText (Path.relativeTo root path)

end Analyzer

end Lintel
