import Lintel.Config
import Lintel.Registry.Basic
import Lintel.Rules.Entities
import Lintel.Rules.Errors
import Lintel.Rules.Handlers
import Lintel.Rules.Style

/-!
# The catalog of rules

All rules with the presets that choose among them. Every preset starts with the two
indexes.
-/

namespace Lintel

inductive Preset where
  | recommended
  | architecture
  | minimal
  deriving DecidableEq, Repr

namespace Preset

def all : List Preset :=
  [.recommended, .architecture, .minimal]

def name : Preset → String
  | .recommended => "recommended"
  | .architecture => "architecture"
  | .minimal => "minimal"

def ofName? (name : String) : Option Preset :=
  all.find? fun preset => preset.name == name

def architectureRules : Registry Published :=
  [domainLayering, interfaceContract, storageShape, errorWrapping, interfaceLocation]

def ownRules (limits : StyleLimits) : Preset → Registry Published
  | .recommended =>
    [apiHandler, middlewareChain] ++ architectureRules
      ++ [structuredLogging, taskFields, styleLimits limits]
  | .architecture => architectureRules
  | .minimal => [interfaceLocation, styleLimits limits]

def rules (preset : Preset) (limits : StyleLimits := .standard) : Registry Published :=
  [treeIndex, declIndex] ++ preset.ownRules limits

end Preset

def StyleLimits.ofConfig (config : RuleConfig) : StyleLimits :=
  let base := StyleLimits.standard
  { statements := config.count "max_statements" base.statements
    params := config.count "max_params" base.params
    results := config.count "max_results" base.results
    fields := config.count "max_fields" base.fields
    methods := config.count "max_methods" base.methods }

/-- The rules of a preset with the limits that a configuration gives. Whether they are
enabled, and at which severity, is left to the run. -/
def Preset.configured (preset : Preset) (config : Config) : Registry Published :=
  preset.rules (((config.rule? "style-limits").map StyleLimits.ofConfig).getD .standard)

def allRules : Registry Published :=
  Preset.recommended.rules

/-- All rules, at a severity and with limits; the indexes have a severity of their own. -/
def catalog (severity : Severity) (limits : StyleLimits) : Registry Published :=
  [treeIndex, declIndex, apiHandler severity, middlewareChain severity, domainLayering severity,
    interfaceContract severity, storageShape severity, errorWrapping severity,
    interfaceLocation severity, structuredLogging severity, taskFields severity,
    styleLimits limits severity]

def catalogRule? (name : String) (severity : Severity := .warning)
    (limits : StyleLimits := .standard) : Option (Rule Published) :=
  (catalog severity limits).find? fun rule => rule.name == name

end Lintel
