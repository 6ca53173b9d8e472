import Lintel.Command.Output
import Lintel.Rules.Presets

/-!
# Listing the rules

A table of all rules with what they read and what they need, and the presets with the
codes of their rules; the indexes go without saying.
-/

namespace Lintel.Command

open Lintel.Text

def padRight (width : Nat) (text : String) : String :=
  text ++ String.ofList (List.replicate (width - text.length) ' ')

def tableRow (code name reads description : String) : String :=
  padRight 8 code ++ " " ++ padRight 22 name ++ " " ++ padRight 18 reads ++ " " ++ description

def ruleRows (info : RuleInfo) : List String :=
  tableRow info.code info.name info.capabilities.text info.description ::
    if info.requires.isEmpty then []
    else [padRight 50 "" ++ " after: " ++ join ", " info.requires]

def isIndexCode (code : String) : Bool :=
  code == treeIndex.info.code || code == declIndex.info.code

def presetRow (preset : Preset) : String :=
  let codes := (preset.rules.map (·.info.code)).filter fun code => !isIndexCode code
  let marker := if preset = .recommended then " (default)" else ""
  "  " ++ padRight 13 preset.name ++ " " ++ join ", " codes ++ marker

def listRules : String :=
  unlines (["Available rules:", "", tableRow "Code" "Name" "Reads" "Description",
      String.ofList (List.replicate 104 '-')]
    ++ allRules.flatMap (fun rule => ruleRows rule.info)
    ++ ["", "Presets:"]
    ++ Preset.all.map presetRow
    ++ ["", "Use --rules to filter specific rules, e.g.:",
      "  goarch-lint check --rules interface-location,style-limits",
      "  goarch-lint check --rules GA007,GA010"])

end Lintel.Command
