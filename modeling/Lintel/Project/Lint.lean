import Lintel.Project.Analysis
import Lintel.Project.Settings
import Lintel.Rules.Presets

/-!
# Linting

The whole way from a text or a project to diagnostics: find the configuration, choose
the rules, build the analyzer and run it.
-/

namespace Lintel

inductive LintError where
  | config (error : ConfigError)
  | unknownPreset (name : String)
  | build (error : BuildError)
  | source (error : Go.ParseError)
  | analysis (error : AnalysisError)
  deriving DecidableEq, Repr

def LintError.message : LintError → String
  | .config error => error.message
  | .unknownPreset name =>
    s!"unknown preset `{name}` (expected recommended, architecture or minimal)"
  | .build error => error.message
  | .source error => error.message
  | .analysis error => error.message

def presetOf (config : Config) : Except LintError Preset :=
  match config.preset with
  | none => .ok .recommended
  | some name =>
    match Preset.ofName? name with
    | some preset => .ok preset
    | none => .error (.unknownPreset name)

def configuredAnalyzer (config : Config) : Except LintError (Analyzer Published) := do
  let preset ← presetOf config
  (Analyzer.build (preset.configured config) config []).mapError LintError.build

def lintSource (path text : String) (module : Option String) (config : Config) :
    Except LintError (List Diagnostic) := do
  let file := SourceFile.ofText (Path.join "/" path) text "/"
  let unit ← (Go.load module [] file).mapError LintError.source
  let analyzer ← configuredAnalyzer config
  return (analyzer.runUnit unit).diagnostics

def lintProject (store : Store) (root : String) : Except LintError LintResult × List LogLine :=
  match loadConfig store root with
  | .error e => (.error (.config e), [])
  | .ok config =>
    let module := config.analyzer.module.or (Go.detectModule? store root)
    match configuredAnalyzer config with
    | .error e => (.error e, [])
    | .ok analyzer =>
      let run := analyzer.analyze ⟨root, module, config.analyzer.failOnParseError, false⟩ store
      (run.outcome.mapError LintError.analysis, run.log)

end Lintel
