import Lintel.Command.Check

/-!
# Command lines

The words of a command line, read as one of the commands with its options. Words that
are not understood make an error.
-/

namespace Lintel.Command

/-- What a command line asks for. -/
inductive Request where
  | check (path : String) (options : CheckOptions)
  | listRules
  | init (force : Bool)

/-- A request, and the configuration file that was asked for. -/
structure Invocation where
  config : Option String
  request : Request

/-- The options and paths of a check read so far. -/
structure CheckWords where
  config : Option String := none
  paths : List String := []
  options : CheckOptions := {}

def unexpected (word : String) : Except String CheckWords :=
  .error s!"unexpected argument '{word}'"

def readCheckWords (found : CheckWords) : List String → Except String CheckWords
  | [] => .ok found
  | "--fix" :: rest => readCheckWords { found with options.fix := true } rest
  | "--rules" :: list :: rest =>
    readCheckWords { found with options.rules := some list } rest
  | "-e" :: pattern :: rest | "--exclude" :: pattern :: rest =>
    readCheckWords { found with options.exclude := found.options.exclude ++ [pattern] } rest
  | "-c" :: path :: rest | "--config" :: path :: rest =>
    readCheckWords { found with config := some path } rest
  | "-f" :: word :: rest | "--format" :: word :: rest =>
    match OutputFormat.ofText? word with
    | some format => readCheckWords { found with options.format := format } rest
    | none => .error s!"invalid format '{word}' (expected text, json or compact)"
  | word :: rest =>
    if Text.startsWith "-" word || !found.paths.isEmpty then unexpected word
    else readCheckWords { found with paths := [word] } rest

def readInvocation : List String → Except String Invocation
  | "check" :: rest => do
    let found ← readCheckWords {} rest
    return ⟨found.config, .check (found.paths.headD ".") found.options⟩
  | ["list-rules"] => .ok ⟨none, .listRules⟩
  | ["init"] => .ok ⟨none, .init false⟩
  | ["init", "--force"] => .ok ⟨none, .init true⟩
  | "-c" :: path :: rest | "--config" :: path :: rest =>
    (readInvocation rest).map fun found => { found with config := found.config.or (some path) }
  | word :: _ => .error s!"unrecognized command '{word}'"
  | [] => .error "expected a command: check, list-rules or init"

/-- The texts about an error on several lines, with the causes of the first below it. -/
def showError : List String → String
  | [] => "Error"
  | [text] => "Error: " ++ text
  | [text, cause] => s!"Error: {text}\n\nCaused by:\n    {cause}"
  | text :: causes =>
    let lines := causes.zipIdx.map fun (cause, i) => s!"\n    {i}: {cause}"
    s!"Error: {text}\n\nCaused by:" ++ String.join lines

end Lintel.Command
