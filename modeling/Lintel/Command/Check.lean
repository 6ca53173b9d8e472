import Lintel.Command.Fix
import Lintel.Command.Output
import Lintel.Project.Analysis
import Lintel.Project.Settings
import Lintel.Rules.Presets

/-!
# Checking a project

Reads the configuration, chooses the rules, analyses the project, shows the result and
writes the fixes on request. What was printed and written before an error stays.
-/

namespace Lintel.Command

open Lintel.Text

structure CheckOptions where
  format : OutputFormat := .text
  rules : Option String := none
  exclude : List String := []
  fix : Bool := false

/-- What a check did: what it printed, its messages, the files after it, and its exit code
or the texts about an error, the outermost first. -/
structure CheckRun where
  stdout : String
  log : List LogLine
  store : Store
  outcome : Except (List String) Nat

def presetOf (config : Config) : Except (List String) Preset :=
  match config.preset with
  | none => .ok .recommended
  | some name =>
    match Preset.ofName? name with
    | some preset => .ok preset
    | none =>
      let known := join ", " (Preset.all.map (·.name))
      .error [s!"Unknown preset `{name}` (expected one of: {known})"]

def small (text : String) : String :=
  String.ofList (text.toList.map Char.toLower)

/-- The names that a list of codes and names stands for; codes count in any case. -/
def requestedNames (rules : Registry Published) (list : String) : List String :=
  let entries := (splitAt (· == ',') list.toList).map fun entry => String.ofList (trim entry)
  (entries.filter fun entry => !entry.isEmpty).map fun entry =>
    match rules.find? fun rule => small rule.info.code == small entry with
    | some rule => rule.name
    | none => entry

/-- The rules that are asked for, with warnings about those that there are not. -/
def chosenRules (options : CheckOptions) (rules : Registry Published) :
    Registry Published × List LogLine :=
  match options.rules with
  | none => (rules, [])
  | some list =>
    let (kept, unknown) := rules.retainWithPrerequisites (requestedNames rules list)
    (kept, unknown.map fun name => .warn ("Unknown rule: " ++ name))

def buildErrorTexts (e : BuildError) : List String :=
  let cause :=
    match e with
    | .graph error => error.message
    | .glob error => error.message
  ["Failed to build analyzer", e.message, cause]

def analysisErrorTexts (e : AnalysisError) : List String :=
  ["Analysis failed", e.message] ++
    match e with
    | .read error => [error.message]
    | _ => []

def exitCode (r : LintResult) : Nat :=
  if r.hasFindings then 1 else 0

/-- Shows a result, and writes its fixes on request. -/
def finish (store : Store) (root : String) (options : CheckOptions) (log : List LogLine)
    (r : LintResult) : CheckRun :=
  let stdout := options.format.render r
  if options.fix then
    let done := writeFixes store root r
    let log := log ++ done.progress.log
    match done.error with
    | some texts => ⟨stdout, log, done.progress.files, .error texts⟩
    | none =>
      ⟨stdout, log ++ [.info s!"Applied {done.progress.applied} fix(es)"], done.progress.files,
        .ok (exitCode r)⟩
  else
    ⟨stdout, log, store, .ok (exitCode r)⟩

/-- The analyzer for a check, and the messages about choosing its rules. -/
def checkAnalyzer (options : CheckOptions) (preset : Preset) (config : Config) :
    Except (List String) (Analyzer Published) × List LogLine :=
  let (rules, log) := chosenRules options (preset.configured config)
  ((Analyzer.build rules config options.exclude).mapError buildErrorTexts, log)

def checkProject (store : Store) (root : String) (options : CheckOptions) (preset : Preset)
    (config : Config) (log : List LogLine) : CheckRun :=
  match checkAnalyzer options preset config with
  | (.error texts, chosen) => ⟨"", log ++ chosen, store, .error texts⟩
  | (.ok analyzer, chosen) =>
    let module := config.analyzer.module.or (Go.detectModule? store root)
    let start := LogLine.info
      s!"Analyzing {root} with {analyzer.graph.size} rules (preset: {preset.name})"
    let run := analyzer.analyze ⟨root, module, config.analyzer.failOnParseError, false⟩ store
    let log := log ++ chosen ++ [start] ++ run.log
    match run.outcome with
    | .error e => ⟨"", log, store, .error (analysisErrorTexts e)⟩
    | .ok result => finish store root options log result

def check (store : Store) (root : String) (options : CheckOptions) (source : ConfigSource) :
    CheckRun :=
  match (source.load store).bind fun config => (presetOf config).map fun p => (p, config) with
  | .error texts => ⟨"", source.log, store, .error texts⟩
  | .ok (preset, config) => checkProject store root options preset config source.log

end Lintel.Command
