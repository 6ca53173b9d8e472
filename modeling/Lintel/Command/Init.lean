import Lintel.Command.Output
import Lintel.Project.Settings

/-!
# Starting a configuration

Writes a configuration file that spells out the defaults. A file that is there already
is kept unless it may be replaced.
-/

namespace Lintel.Command

def configFileName : String := "goarch-lint.toml"

def initialConfig : String :=
  unlines [
    "# goarch-lint configuration",
    "",
    "# Rule set: \"recommended\" (all rules), \"architecture\" (GA003-GA007)",
    "# or \"minimal\" (GA007, GA010)",
    "preset = \"recommended\"",
    "",
    "[analyzer]",
    "# Root directory to analyze (default: current directory)",
    "# root = \"./internal\"",
    "",
    "# Go module path; read from go.mod when omitted",
    "# module = \"github.com/acme/todo\"",
    "",
    "# Glob patterns to exclude from analysis",
    "exclude = [",
    "    \"**/vendor/**\",",
    "    \"**/testdata/**\",",
    "    \"**/*_gen.go\",",
    "]",
    "",
    "# Respect .gitignore files",
    "respect_gitignore = true",
    "",
    "# Abort when a file fails to parse instead of skipping it",
    "fail_on_parse_error = false",
    "",
    "# Rule configurations",
    "# Each rule can be enabled/disabled and have its severity overridden.",
    "# Findings can also be silenced inline:",
    "#   // goarch-lint:allow(interface-location) reason=\"generated mocks\"",
    "",
    "[rules.style-limits]",
    "enabled = true",
    "# severity = \"warning\"",
    "max_statements = 50",
    "max_params = 5",
    "max_results = 3",
    "max_fields = 10",
    "max_methods = 5",
    "",
    "# [rules.task-fields]",
    "# enabled = false"]

/-- What starting a configuration did: what was printed, the files after it, and the texts
about an error, the outermost first. -/
structure InitRun where
  stdout : String
  store : Store
  error : Option (List String)

def initMessage : String :=
  unlines ["Created " ++ configFileName, "", "Next steps:",
    "  1. Edit " ++ configFileName ++ " to configure rules", "  2. Run: goarch-lint check"]

def init (store : Store) (directory : String) (force : Bool) : InitRun :=
  let path := Path.join directory configFileName
  if store.holds path && !force then
    ⟨"", store,
      some [s!"Configuration file already exists at {configFileName}. Use --force to overwrite."]⟩
  else
    match store.write? path initialConfig with
    | some after => ⟨initMessage, after, none⟩
    | none =>
      let cause := if store.isDirectory path then ReadError.directory.message
        else "Permission denied (os error 13)"
      ⟨"", store, some ["Failed to write " ++ configFileName, cause]⟩

end Lintel.Command
