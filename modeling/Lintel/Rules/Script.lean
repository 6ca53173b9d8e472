import Lintel.Rules.Index
import Lintel.Text.Quoted

/-!
# Scripted rules

A rule can be written down as a list of actions that are taken in order. The first
action that fails decides, and a result set later replaces one set before.
-/

namespace Lintel

open Lintel.Text

inductive Action where
  | report (span : Span) (message : String) (help : Option String)
      (fixes : List (String × List TextEdit))
  | reportTag (tag : NodeTag)
  | publish (result : Published)
  | showInt (dependency : String)
  | showText (dependency : String)
  | showUnit
  | fail (message : String)
  | crash (message : Option String)

/-- The state of a script: what was reported, the last first, and what is published. -/
structure ScriptState where
  reported : List Diagnostic
  published : Option Published

namespace ScriptState

def report (s : ScriptState) (d : Diagnostic) : ScriptState :=
  { s with reported := d :: s.reported }

end ScriptState

def Pass.rootFinding (pass : Pass Published) (message : String) : Diagnostic :=
  pass.finding (pass.tree.span pass.tree.root) message

def Pass.tagFindings (pass : Pass Published) (tag : NodeTag) : List Diagnostic :=
  (pass.tree.findAll (fun id => pass.tree.tag id == tag) pass.tree.root).map fun id =>
    pass.finding (pass.tree.span id) s!"{tag.text} `{pass.tree.text id}`"

def Pass.unitMessage (pass : Pass Published) : String :=
  let package := quotedOption pass.unit.packagePath?
  let module := quotedOption pass.unit.module
  s!"package {package} module {module} file {pass.file.relativePath}"

def Action.take (pass : Pass Published) (s : ScriptState) : Action → Check ScriptState
  | .report span message help fixes => do
    let built ← fixes.mapM fun (description, edits) => Fix.check description edits
    return s.report (pass.finding span message help built)
  | .reportTag tag => return (pass.tagFindings tag).foldl ScriptState.report s
  | .publish result => return { s with published := some result }
  | .showInt dependency => do
    let value ← pass.resultOf Published.int? dependency
    return s.report (pass.rootFinding s!"got int {value}")
  | .showText dependency => do
    let value ← pass.resultOf Published.text? dependency
    return s.report (pass.rootFinding s!"got str {value}")
  | .showUnit => return s.report (pass.rootFinding pass.unitMessage)
  | .fail message => .error (.failed message)
  | .crash message => .error (.crashed message)

def scriptedRule (name code : String) (requires : List String) (actions : List Action) :
    Rule Published where
  info := {
    name := name
    code := code
    description := ""
    severity := .warning
    capabilities := .syntaxOnly
    requires := requires }
  run := fun pass => do
    let last ← actions.foldlM (Action.take pass) ⟨[], none⟩
    return ⟨last.reported.reverse, last.published⟩

end Lintel
