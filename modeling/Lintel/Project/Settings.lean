import Lintel.Config
import Lintel.Log
import Lintel.Project.Store

/-!
# Configuration files

Where a configuration comes from: a file that was asked for, a file in the project, a
file for all projects of a user, or none. The first of these that there is counts.
-/

namespace Lintel

inductive ConfigError where
  | read (path : String) (error : ReadError)
  | parse
  deriving DecidableEq, Repr

namespace ConfigError

def message : ConfigError → String
  | .read path error => s!"Failed to read config file {path}: {error.message}"
  | .parse => "Failed to parse config"

def chain (e : ConfigError) : List String :=
  match e with
  | .read _ error => [e.message, error.message]
  | .parse => [e.message]

end ConfigError

def readConfig (store : Store) (path : String) : Except ConfigError Config :=
  match store.read path with
  | .error e => .error (.read path e)
  | .ok text =>
    match Config.ofText? text with
    | some config => .ok config
    | none => .error .parse

def configNames : List String :=
  ["goarch-lint.toml", ".goarch-lint.toml"]

def globalConfigName : String := "config.toml"

def projectConfig? (store : Store) (root : String) : Option String :=
  (configNames.map (Path.join root)).find? store.isFile

/-- The configuration of a project; without a file it says nothing. -/
def loadConfig (store : Store) (root : String) : Except ConfigError Config :=
  match projectConfig? store root with
  | some path => readConfig store path
  | none => .ok .standard

inductive ConfigSource where
  | explicit (path : String)
  | project (path : String)
  | «global» (path : String)
  | standard
  deriving DecidableEq, Repr

namespace ConfigSource

def path? : ConfigSource → Option String
  | .explicit path | .project path | .global path => some path
  | .standard => none

/-- The configuration file for all projects, in a directory for it. -/
def globalFile? (store : Store) (directory : String) : Option String :=
  some (Path.join directory globalConfigName) |>.filter store.isFile

/-- The source that counts for a project. A file that was asked for need not exist. -/
def resolve (store : Store) (root : String) (asked globalDirectory : Option String) :
    ConfigSource :=
  match asked with
  | some path => .explicit path
  | none =>
    match projectConfig? store root with
    | some path => .project path
    | none =>
      match globalDirectory.bind (globalFile? store) with
      | some path => .global path
      | none => .standard

def log : ConfigSource → List LogLine
  | .global path => [.info ("Using global config: " ++ path)]
  | _ => []

/-- Reads the configuration of a source. An error comes with what caused it, the outermost
text first. -/
def load (store : Store) (source : ConfigSource) : Except (List String) Config :=
  match source.path? with
  | none => .ok .standard
  | some path =>
    (readConfig store path).mapError fun e => ("Failed to load config: " ++ path) :: e.chain

end ConfigSource

end Lintel
