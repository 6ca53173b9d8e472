import Lintel.Pattern.Ignore
import Lintel.Project.Store

/-!
# Finding files

The files of a project that are open to analysis. Ignore files in the directories on
the way to a file may hide it, and so does a name that starts with a dot. There are
three kinds of ignore files: those of their own, which always count, and those of
version control and its list of exclusions, which count within a repository and up to
its top. The nearest ignore file of a kind that says something decides, and the kinds
are asked in this order.
-/

namespace Lintel

open Lintel.Pattern

/-- What a directory says about the paths below it. -/
structure DirectoryRules where
  own : List IgnoreRule
  versioned : List IgnoreRule
  excluded : List IgnoreRule
  isRepository : Bool

/-- The rules of a directory; those of version control are read only on request. -/
def DirectoryRules.ofStore (store : Store) (directory : String) (useVersioned : Bool) :
    DirectoryRules :=
  let rules (name : String) := IgnoreRule.ofLines (store.lines (Path.join directory name))
  { own := rules ".ignore"
    versioned := if useVersioned then rules ".gitignore" else []
    excluded := rules ".git/info/exclude"
    isRepository := store.holds (Path.join directory ".git") }

/-- A directory on the way to a path: its rules, and the rest of the way. -/
structure Waypoint where
  rules : DirectoryRules
  rest : String

/-- The waypoints up to and including the nearest repository. -/
def withinRepository : List Waypoint → List Waypoint
  | [] => []
  | point :: outer => if point.rules.isRepository then [point] else point :: withinRepository outer

/-- What the waypoints say by one kind of rules; the nearest that says something decides. -/
def verdictOf? (kind : DirectoryRules → List IgnoreRule) (isDirectory : Bool)
    (points : List Waypoint) : Option Bool :=
  points.findSome? fun point => ignoreVerdict? (kind point.rules) point.rest isDirectory

/-- What all rules on the way to a path say about it; the waypoints start at the nearest. -/
def pathVerdict? (points : List Waypoint) (isDirectory : Bool) : Option Bool :=
  let inner :=
    if points.any fun point => point.rules.isRepository then withinRepository points else []
  (verdictOf? (·.own) isDirectory points).or
    ((verdictOf? (·.versioned) isDirectory inner).or (verdictOf? (·.excluded) isDirectory inner))

def isHiddenName (name : String) : Bool :=
  Text.startsWith "." name

/-- Whether nothing hides the way to a file; `above` holds the directories walked so far,
the nearest first, each with the names walked from it, the last first. -/
def isOpenFrom (rulesOf : String → DirectoryRules) (directory : String)
    (above : List (DirectoryRules × List String)) : List String → Bool
  | [] => true
  | name :: rest =>
    let here := (rulesOf directory, []) :: above
    let walked := here.map fun (rules, names) => (rules, name :: names)
    let points := walked.map fun (rules, names) => ⟨rules, Text.join "/" names.reverse⟩
    let isOpen :=
      match pathVerdict? points (!rest.isEmpty) with
      | some ignored => !ignored
      | none => !isHiddenName name
    isOpen && isOpenFrom rulesOf (Path.join directory name) walked rest

def namesBelow? (root path : String) : Option (List String) :=
  (Path.relativeTo? root path).map Path.partTexts

/-- Whether a file below a root is open to analysis. -/
def isOpen (store : Store) (root : String) (useVersioned : Bool) (path : String) : Bool :=
  match namesBelow? root path with
  | none | some [] => false
  | some names =>
    isOpenFrom (fun directory => .ofStore store directory useVersioned) root [] names

/-- The files below a root that are open to analysis and pass a test, in the order of their
paths. -/
def discover (store : Store) (root : String) (useVersioned : Bool) (test : String → Bool) :
    List String :=
  ((store.files.map (·.1)).filter fun path =>
    test path && isOpen store root useVersioned path).mergeSort Path.precedes

end Lintel
