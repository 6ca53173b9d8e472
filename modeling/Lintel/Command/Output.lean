import Lintel.Diagnostic
import Lintel.Text.Json

/-!
# Showing results

A result is shown as coloured text with a summary, as data, or with one line for every
diagnostic.
-/

namespace Lintel.Command

open Lintel.Text

inductive OutputFormat where
  | text
  | json
  | compact
  deriving DecidableEq, Repr

namespace OutputFormat

def ofText? : String → Option OutputFormat
  | "text" => some .text
  | "json" => some .json
  | "compact" => some .compact
  | _ => none

end OutputFormat

/-! ### Text -/

def plain : String := "\x1b[0m"

inductive Colour where
  | red
  | green
  | yellow
  | blue

def Colour.start : Colour → String
  | .red => "\x1b[31m"
  | .green => "\x1b[32m"
  | .yellow => "\x1b[33m"
  | .blue => "\x1b[34m"

def Colour.paint (colour : Colour) (text : String) : String :=
  colour.start ++ text ++ plain

def severityColour : Severity → Colour
  | .error => .red
  | .warning => .yellow
  | .info => .blue

def diagnosticLines (d : Diagnostic) : List String :=
  let place := s!"{d.location.file}:{d.location.line}:{d.location.column}"
  [s!"{d.code} {d.rule} at {place}",
    "  " ++ (severityColour d.severity).paint d.severity.text ++ ": " ++ d.message]
  ++ d.help.toList.map (fun help => "  = help: " ++ help)
  ++ d.fixes.map (fun fix => "  = fix: " ++ fix.description)
  ++ [""]

def summaryColour (r : LintResult) : Colour :=
  if 0 < r.count .error then .red
  else if 0 < r.count .warning then .yellow
  else .green

def summaryLines (r : LintResult) : List String :=
  let counts := s!"{r.count .error} error(s), {r.count .warning} warning(s), {r.count .info} info(s)"
  [(summaryColour r).paint s!"Found {counts} in {r.filesChecked} file(s)"]
  ++ (if 0 < r.filesFailed then
      [Colour.yellow.paint s!"{r.filesFailed} file(s) could not be parsed"] else [])
  ++ (if r.cancelled then
      [Colour.yellow.paint "Analysis was cancelled before all files were checked"] else [])

/-! ### Data -/

def editData (e : TextEdit) : Json :=
  .object [("start", .number e.start), ("end", .number e.stop), ("replacement", .text e.replacement)]

def fixData (f : Fix) : Json :=
  .object [("description", .text f.description), ("edits", .list (f.edits.map editData))]

def locationData (l : Location) : Json :=
  .object [("file", .text l.file), ("line", .number l.line), ("column", .number l.column),
    ("offset", .number l.offset), ("length", .number l.length)]

/-- A diagnostic as data; what it lacks is left out. -/
def diagnosticData (d : Diagnostic) : Json :=
  .object ([("code", .text d.code), ("rule", .text d.rule), ("severity", .text d.severity.text),
      ("kind", .text d.kind.text), ("location", locationData d.location),
      ("message", .text d.message)]
    ++ d.help.toList.map (fun help => ("help", .text help))
    ++ (if d.fixes.isEmpty then [] else [("fixes", .list (d.fixes.map fixData))]))

def resultData (r : LintResult) : Json :=
  .object [("diagnostics", .list (r.diagnostics.map diagnosticData)),
    ("files_checked", .number r.filesChecked), ("files_failed", .number r.filesFailed),
    ("cancelled", .flag r.cancelled)]

/-! ### Output -/

def unlines (lines : List String) : String :=
  String.join (lines.map fun line => line ++ "\n")

def OutputFormat.render (format : OutputFormat) (r : LintResult) : String :=
  match format with
  | .text => unlines (r.diagnostics.flatMap diagnosticLines ++ summaryLines r)
  | .json => unlines [(resultData r).pretty]
  | .compact => unlines (r.diagnostics.map (·.display))

end Lintel.Command
