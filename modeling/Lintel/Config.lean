import Lintel.Diagnostic
import Lintel.Toml.Document

/-!
# Configuration

What a configuration document says about the analysis and about single rules. Keys that
are not known are ignored, except in the table of a rule, where they are options. A
known key with a value of the wrong type makes the document invalid.
-/

namespace Lintel

open Lintel.Toml (Value)

structure AnalyzerConfig where
  root : String := "."
  module : Option String := none
  exclude : List String := ["**/vendor/**", "**/testdata/**"]
  respectGitignore : Bool := true
  parallelism : Option Nat := none
  failOnParseError : Bool := false
  deriving DecidableEq, Repr

structure RuleConfig where
  enabled : Option Bool
  severity : Option Severity
  options : List (String × Value)

structure Config where
  preset : Option String
  analyzer : AnalyzerConfig
  rules : List (String × RuleConfig)

/-! ### Values of a type -/

namespace Toml.Value

def text? : Value → Option String
  | .text value => some value
  | _ => none

def boolean? : Value → Option Bool
  | .boolean value => some value
  | _ => none

def integer? : Value → Option Int
  | .integer value => some value
  | _ => none

/-- An integer that is not negative. -/
def natural? (v : Value) : Option Nat :=
  v.integer?.bind fun n => if n < 0 then none else some n.toNat

def texts? : Value → Option (List String)
  | .array elems => elems.mapM text?
  | _ => none

/-- A severity: its word, or a table with the word as its only key and nothing below. -/
def severity? : Value → Option Severity
  | .text word => Severity.ofText? word
  | .table [(word, .table [])] | .table [(word, .array [])] => Severity.ofText? word
  | _ => none

end Toml.Value

/-- What a key of a table stands for, read at a type. Without the key a default holds. -/
def readKey {α : Type} (entries : List (String × Value)) (key : String)
    (read : Value → Option α) (fallback : α) : Option α :=
  match entries.lookup key with
  | none => some fallback
  | some value => read value

def optionally {α : Type} (read : Value → Option α) (v : Value) : Option (Option α) :=
  (read v).map some

namespace AnalyzerConfig

def keys : List String :=
  ["root", "module", "exclude", "respect_gitignore", "parallelism", "fail_on_parse_error"]

def ofEntries? (entries : List (String × Value)) : Option AnalyzerConfig := do
  let standard : AnalyzerConfig := {}
  return {
    root := ← readKey entries "root" Value.text? standard.root
    module := ← readKey entries "module" (optionally Value.text?) standard.module
    exclude := ← readKey entries "exclude" Value.texts? standard.exclude
    respectGitignore :=
      ← readKey entries "respect_gitignore" Value.boolean? standard.respectGitignore
    parallelism := ← readKey entries "parallelism" (optionally Value.natural?) standard.parallelism
    failOnParseError :=
      ← readKey entries "fail_on_parse_error" Value.boolean? standard.failOnParseError }

/-- Reads the settings. A list gives them in the order of their keys, and a date gives
none of them. -/
def ofValue? : Value → Option AnalyzerConfig
  | .table entries => ofEntries? entries
  | .array elems => ofEntries? (keys.zip elems)
  | .datetime _ => some {}
  | _ => none

end AnalyzerConfig

namespace RuleConfig

def ofValue? : Value → Option RuleConfig
  | .table entries => do
    let enabled ← readKey entries "enabled" (optionally Value.boolean?) none
    let severity ← readKey entries "severity" (optionally Value.severity?) none
    return ⟨enabled, severity, entries.filter fun (key, _) => key != "enabled" && key != "severity"⟩
  | _ => none

/-- A count among the options; anything else than a count is as good as missing. -/
def count (config : RuleConfig) (key : String) (fallback : Nat) : Nat :=
  ((config.options.lookup key).bind Value.natural?).getD fallback

end RuleConfig

namespace Config

def standard : Config :=
  ⟨none, {}, []⟩

def rulesOfValue? : Value → Option (List (String × RuleConfig))
  | .table entries => entries.mapM fun (name, value) => do
    return (name, ← RuleConfig.ofValue? value)
  | _ => none

def ofText? (document : String) : Option Config := do
  let entries ← Toml.parse? document
  return {
    preset := ← readKey entries "preset" (optionally Value.text?) none
    analyzer := ← readKey entries "analyzer" AnalyzerConfig.ofValue? {}
    rules := ← readKey entries "rules" rulesOfValue? [] }

def rule? (config : Config) (name : String) : Option RuleConfig :=
  config.rules.lookup name

/-- Whether a rule is enabled; it is unless the configuration says otherwise. -/
def isEnabled (config : Config) (name : String) : Bool :=
  ((config.rule? name).bind (·.enabled)).getD true

def severity? (config : Config) (name : String) : Option Severity :=
  (config.rule? name).bind (·.severity)

end Config

end Lintel
