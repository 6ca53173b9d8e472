import Lintel.Edit.Plan
import Lintel.Log
import Lintel.Project.Store

/-!
# Writing fixes

The fixes of a result are applied file by file, in the order of the paths. A file is
read, changed and written in one go, so that it is either fixed as a whole or left as
it was. The first file that cannot be fixed ends the work; the files before it stay
fixed.
-/

namespace Lintel.Command

/-- The state of the work: the files, the number of applied fixes, and the messages. -/
structure FixProgress (σ : Type) where
  files : σ
  applied : Nat
  log : List LogLine

/-- How the work ended: with the progress made, and with texts about an error if there was
one, the outermost first. -/
structure FixOutcome (σ : Type) where
  progress : FixProgress σ
  error : Option (List String)

def fixable (r : LintResult) : List Diagnostic :=
  r.diagnostics.filter fun d => !d.fixes.isEmpty

/-- The spelling that a path has where it has fixes first. -/
def spellingOf (r : LintResult) (path : String) : String :=
  (((fixable r).map (·.location.file)).find? (Path.same path)).getD path

def respelled (r : LintResult) (d : Diagnostic) : Diagnostic :=
  { d with location := { d.location with file := spellingOf r d.location.file } }

/-- A result in which files with fixes are spelled alike wherever they are the same. -/
def spelledAlike (r : LintResult) : LintResult :=
  { r with diagnostics := r.diagnostics.map (respelled r) }

def filesToFix (r : LintResult) : List String :=
  ((fixable r).map (·.location.file)).eraseDups.mergeSort Path.precedes

def planFor (r : LintResult) (file : String) : FixPlan :=
  .ofDiagnostics ((fixable r).filter fun d => d.location.file == file)

def skipWarning (file : String) (plan : FixPlan) : List LogLine :=
  if plan.skipped.isEmpty then []
  else [.warn s!"{file}: skipped {plan.skipped.length} conflicting fix(es); run again to apply them"]

variable {σ : Type} [FileSystem σ]

/-- Applies a plan to a file: the files after it, and texts about an error if there was
one. -/
def fixFile (files : σ) (path : String) (plan : FixPlan) : σ × Option (List String) :=
  match FileSystem.read files path with
  | .error e => (files, some ["Failed to read " ++ path, e])
  | .ok text =>
    match applyFixes text plan.selected with
    | .error e => (files, some ["Failed to fix " ++ path, e.message])
    | .ok fixed =>
      match FileSystem.write files path fixed with
      | (after, some e) => (after, some ["Failed to write " ++ path, e])
      | (after, none) => (after, none)

def fixFiles (root : String) (r : LintResult) : List String → FixProgress σ → FixOutcome σ
  | [], progress => ⟨progress, none⟩
  | file :: rest, progress =>
    let plan := planFor r file
    let log := progress.log ++ skipWarning file plan
    match fixFile progress.files (Path.join root file) plan with
    | (after, some texts) => ⟨{ progress with files := after, log := log }, some texts⟩
    | (after, none) => fixFiles root r rest ⟨after, progress.applied + plan.selected.length, log⟩

def writeFixes (files : σ) (root : String) (r : LintResult) : FixOutcome σ :=
  let r := spelledAlike r
  fixFiles root r (filesToFix r) ⟨files, 0, []⟩

end Lintel.Command
