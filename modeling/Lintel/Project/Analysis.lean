import Lintel.Analyzer
import Lintel.Go.Frontend
import Lintel.Project.Discovery

/-!
# Analysing a project

All open source files of a project are loaded and run one by one. A file that is no
program counts as failed, or ends the analysis if the settings say so. A file that
cannot be read always ends it.
-/

namespace Lintel

variable {ρ : Type}

inductive AnalysisError where
  | parse (path message : String)
  | read (error : ReadError)
  | missingFrontend
  deriving DecidableEq, Repr

def AnalysisError.message : AnalysisError → String
  | .parse path message => s!"Parse error in {path}: {message}"
  | .read error => "IO error: " ++ error.message
  | .missingFrontend => "No front-end configured; cannot load source files"

/-- An analysis: what it found or why it ended, and its messages. -/
structure AnalysisRun where
  outcome : Except AnalysisError LintResult
  log : List LogLine

inductive FileOutcome where
  | analyzed (report : UnitReport)
  | failed (path message : String)
  | cancelled

structure AnalysisSettings where
  root : String
  module : Option String
  failOnParseError : Bool
  cancelled : Bool := false

def packageOf (packages : List (String × List Go.FileMethods)) (path : String) :
    List Go.FileMethods :=
  ((Path.parent? path).bind fun directory => packages.lookup directory).getD []

def packagesOf (store : Store) (paths : List String) : List (String × List Go.FileMethods) :=
  (paths.filterMap Path.parent?).eraseDups.map fun directory =>
    (directory, Go.scanPackage store directory)

def analyzeFile (a : Analyzer ρ) (settings : AnalysisSettings) (store : Store)
    (packages : List (String × List Go.FileMethods)) (path : String) :
    Except AnalysisError FileOutcome :=
  if settings.cancelled then
    .ok .cancelled
  else
    match store.read path with
    | .error e => .error (.read e)
    | .ok text =>
      match Go.load settings.module (packageOf packages path)
          (SourceFile.ofText path text settings.root) with
      | .ok unit => .ok (.analyzed (a.runUnit unit))
      | .error e => .ok (.failed path e.message)

def ruleLog (outcomes : List FileOutcome) : List LogLine :=
  outcomes.flatMap fun
    | .analyzed report => report.log
    | _ => []

def collect (settings : AnalysisSettings) : LintResult → List FileOutcome → AnalysisRun
  | result, [] =>
    ⟨.ok result, [.info s!"Analysis complete: {result.diagnostics.length} diagnostics in {result.filesChecked} files"]⟩
  | result, .analyzed report :: rest =>
    collect settings { result with
      diagnostics := result.diagnostics ++ report.diagnostics
      filesChecked := result.filesChecked + 1 } rest
  | result, .failed path message :: rest =>
    let warning := LogLine.warn s!"Failed to parse {path}: {message}"
    if settings.failOnParseError then
      ⟨.error (.parse path message), [warning]⟩
    else
      let others := collect settings { result with filesFailed := result.filesFailed + 1 } rest
      ⟨others.outcome, warning :: others.log⟩
  | result, .cancelled :: rest => collect settings { result with cancelled := true } rest

namespace Analyzer

def files (a : Analyzer ρ) (store : Store) (root : String) : List String :=
  (discover store root a.config.analyzer.respectGitignore Go.isSourcePath).filter fun path =>
    !a.isExcluded root path

def analyze (a : Analyzer ρ) (settings : AnalysisSettings) (store : Store) : AnalysisRun :=
  let files := a.files store settings.root
  let packages := packagesOf store files
  let start : List LogLine :=
    [.info s!"Starting analysis at {Text.quoted settings.root}",
      .info s!"Found {files.length} files to analyze"]
  match files.mapM (analyzeFile a settings store packages) with
  | .error e => ⟨.error e, start⟩
  | .ok outcomes =>
    let run := collect settings .empty outcomes
    ⟨run.outcome, start ++ ruleLog outcomes ++ run.log⟩

end Analyzer

end Lintel
