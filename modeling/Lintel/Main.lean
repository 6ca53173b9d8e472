import Lintel.Command.Arguments
import Lintel.Command.Init
import Lintel.Command.Rules

/-!
# The program

Reads a command line and the files it is about, runs the command, and writes back what
changed. The files of a project are named on standard input, one path below the project
on a line, as `find . -type f` prints them.
-/

namespace Lintel

/-- A path without parts that carry no meaning; one from the root is kept as it is. -/
def tidyPath (path : String) : String :=
  if Path.isAbsolute path then path
  else Text.join "/" ((Path.partTexts path).filter fun part => part != ".")

def loadFile (path : String) : IO (List (String × StoredFile)) := do
  try
    return [(path, ⟨← IO.FS.readBinFile path, true⟩)]
  catch _ =>
    return []

def loadFiles (paths : List String) : IO Store := do
  return ⟨(← paths.mapM loadFile).flatten⟩

def saveFiles (before after : Store) : IO Unit :=
  after.files.forM fun (path, file) =>
    unless (before.file? path).any fun old => old.bytes == file.bytes do
      IO.FS.writeBinFile path file.bytes

def globalDirectory? : IO (Option String) := do
  match ← IO.getEnv "GOARCH_LINT_CONFIG_DIR" with
  | some directory => return some directory
  | none => return (← IO.getEnv "HOME").map fun home => Path.join home ".goarch-lint"

def showLog (lines : List LogLine) : IO Unit :=
  lines.forM fun line => IO.eprintln line.display

def runCheck (config : Option String) (path : String) (options : Command.CheckOptions) :
    IO UInt32 := do
  let root := Path.join (← IO.currentDir).toString path
  let globalDirectory ← globalDirectory?
  let names := (← (← IO.getStdin).lines).toList.map fun name => Path.join root (tidyPath name)
  let others := config.toList ++ globalDirectory.toList.map fun d => Path.join d globalConfigName
  let store ← loadFiles (names ++ others)
  let source := ConfigSource.resolve store root config globalDirectory
  let run := Command.check store root options source
  showLog run.log
  IO.print run.stdout
  saveFiles store run.store
  match run.outcome with
  | .ok code => return UInt32.ofNat code
  | .error texts =>
    IO.eprintln (Command.showError texts)
    return 1

def runInit (force : Bool) : IO UInt32 := do
  let store ← loadFiles [Path.join "." Command.configFileName]
  let run := Command.init store "." force
  saveFiles store run.store
  IO.print run.stdout
  match run.error with
  | none => return 0
  | some texts =>
    IO.eprintln (Command.showError texts)
    return 1

end Lintel

open Lintel in
def main (args : List String) : IO UInt32 := do
  match Command.readInvocation args with
  | .error text =>
    IO.eprintln ("error: " ++ text)
    return 2
  | .ok ⟨config, request⟩ =>
    match request with
    | .check path options => runCheck config path options
    | .listRules =>
      IO.print Command.listRules
      return 0
    | .init force => runInit force
