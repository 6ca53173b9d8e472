import Lintel.Allowance
import Lintel.Diagnostic
import Lintel.Facts
import Lintel.Tree.Basic

/-!
# Rules

A rule inspects one unit of source: a tree, the facts about it, and the prefix of
its module. It reports diagnostics and may publish a result that rules after it can
read. It may also fail, either with an error or by a crash; then what it reported
so far is lost. The type `ρ` of published results is left open here.
-/

namespace Lintel

variable {ρ : Type}

/-- A file with what is known about it. -/
structure SourceUnit where
  tree : Tree
  facts : FactTable
  module : Option String

namespace SourceUnit

def file (u : SourceUnit) : SourceFile :=
  u.tree.file

def packagePath? (u : SourceUnit) : Option String :=
  u.facts.packagePath? u.tree.root

end SourceUnit

inductive Capabilities where
  | syntaxOnly
  | semantic
  deriving DecidableEq, Repr

def Capabilities.text : Capabilities → String
  | .syntaxOnly => "syntax"
  | .semantic => "syntax+semantics"

structure RuleInfo where
  name : String
  code : String
  description : String
  severity : Severity
  capabilities : Capabilities
  requires : List String
  deriving DecidableEq, Repr

/-- How a rule fails. A crash carries a message if it has one. -/
inductive Fault where
  | missingResult (rule dependency : String)
  | resultType (dependency : String)
  | invalidFix (error : FixError)
  | failed (message : String)
  | crashed (message : Option String)
  deriving DecidableEq, Repr

namespace Fault

def detail : Fault → String
  | .missingResult rule dependency =>
    "`" ++ rule ++ "` requires a result from `" ++ dependency ++ "`, but none was published"
  | .resultType dependency => "result of `" ++ dependency ++ "` has an unexpected type"
  | .invalidFix error => "invalid fix: " ++ error.message
  | .failed message => message
  | .crashed message => "panicked: " ++ message.getD "unknown panic payload"

def outOfArena : Fault :=
  .crashed (some "node id out of range")

end Fault

/-- A computation of a rule, which may fail. -/
abbrev Check (α : Type) := Except Fault α

/-- What a rule is given: the unit, its own description, and the results published so
far, the latest first. -/
structure Pass (ρ : Type) where
  unit : SourceUnit
  rule : RuleInfo
  results : List (String × ρ)

structure Outcome (ρ : Type) where
  reported : List Diagnostic
  published : Option ρ

structure Rule (ρ : Type) where
  info : RuleInfo
  run : Pass ρ → Check (Outcome ρ)

namespace Rule

def name (r : Rule ρ) : String :=
  r.info.name

def requires (r : Rule ρ) : List String :=
  r.info.requires

end Rule

namespace Pass

def tree (p : Pass ρ) : Tree :=
  p.unit.tree

def facts (p : Pass ρ) : FactTable :=
  p.unit.facts

def file (p : Pass ρ) : SourceFile :=
  p.unit.file

def finding (p : Pass ρ) (span : Span) (message : String) (help : Option String := none)
    (fixes : List Fix := []) : Diagnostic where
  code := p.rule.code
  rule := p.rule.name
  severity := p.rule.severity
  kind := .finding
  location := Location.ofSpan p.file span
  message := message
  help := help
  fixes := fixes

/-- Whether no comment silences the rule where a diagnostic is. -/
def isHeard (p : Pass ρ) (d : Diagnostic) : Bool :=
  !(Allowance.check p.file.content d.location.line p.rule.name).isAllowed

def heard (p : Pass ρ) (ds : List Diagnostic) : List Diagnostic :=
  ds.filter p.isHeard

/-- The result that a rule published, read at an expected type. -/
def resultOf {α : Type} (p : Pass ρ) (read : ρ → Option α) (dependency : String) : Check α :=
  match p.results.lookup dependency with
  | none => .error (.missingResult p.rule.name dependency)
  | some result =>
    match read result with
    | none => .error (.resultType dependency)
    | some value => .ok value

end Pass

def Outcome.report (ds : List Diagnostic) : Outcome ρ :=
  ⟨ds, none⟩

def Outcome.publish (result : ρ) : Outcome ρ :=
  ⟨[], some result⟩

/-- Follows an id that a kind names; an id out of the arena is a crash. -/
def Tree.follow (t : Tree) (id : Nat) : Check Nat :=
  if id < t.size then .ok id else .error .outOfArena

/-- A fix of one or more edits; edits that make no fix are a failure of the rule. -/
def Fix.check (description : String) (edits : List TextEdit) : Check Fix :=
  match Fix.ofEdits description edits with
  | .ok fix => .ok fix
  | .error e => .error (.invalidFix e)

end Lintel
