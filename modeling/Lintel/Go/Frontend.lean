import Lintel.Go.Lowering
import Lintel.Go.Resolver
import Lintel.Project.Store
import Lintel.Rule.Basic

/-!
# Loading files

A file is read as a tree and resolved in its package. The path of the package comes
from the module and the directory of the file, and the methods that other files of the
directory declare are known too; what a test file declares is known to tests only.
-/

namespace Lintel.Go

open Lintel.Text

def extension : String := "go"

def isSourcePath (path : String) : Bool :=
  Path.extension? path == some extension

/-! ### Modules -/

/-- The module that a line of a module file names. -/
def moduleOfLine? (line : List Char) : Option String :=
  match after? "module".toList (trim line) with
  | some (c :: rest) =>
    if isBlank c then
      let before := ((cut? "//".toList (c :: rest)).map (·.1)).getD (c :: rest)
      let name := trimBoth (· == '"') (trim before)
      if name.isEmpty then none else some (String.ofList name)
    else
      none
  | _ => none

def moduleOfText? (text : String) : Option String :=
  (physicalLines text.toList).findSome? moduleOfLine?

def detectModule? (store : Store) (root : String) : Option String :=
  (store.read (Path.join root "go.mod")).toOption.bind moduleOfText?

/-! ### Packages -/

def packageName? (t : Tree) : Option String :=
  (t.children t.root).findSome? fun clause =>
    match t.kind clause with
    | .packageClause name => some name
    | _ => none

/-- The path of the package of a file: the module and the directory, as far as they are
known, or else the name of the package. -/
def packagePath? (module : Option String) (t : Tree) : Option String :=
  let parent := (Path.parent? t.file.relativePath).getD ""
  let directory := String.ofList (parent.toList.map fun c => if c == '\\' then '/' else c)
  match module, directory.isEmpty with
  | some module, true => some module
  | some module, false => some (module ++ "/" ++ directory)
  | none, false => some directory
  | none, true => packageName? t

/-- The methods that one file of a package declares. -/
structure FileMethods where
  path : String
  isTest : Bool
  methods : List (String × Method)

/-- The methods that the files of a directory declare, in the order of their paths. Files
that cannot be read are left out. -/
def scanPackage (store : Store) (directory : String) : List FileMethods :=
  let paths := (store.files.map (·.1)).filter fun path =>
    Path.parent? path == some directory && isSourcePath path
  (paths.mergeSort Path.precedes).filterMap fun path => do
    let text ← (store.read path).toOption
    let tree ← (parse (SourceFile.ofText path text directory)).toOption
    return ⟨path, tree.file.isTest, receiverMethods tree⟩

/-- The methods that other files of the package declare, as far as a file may see them. -/
def siblingMethods (package : List FileMethods) (file : SourceFile) : List (String × Method) :=
  (package.filter fun other => other.path != file.path && (file.isTest || !other.isTest)).flatMap
    (·.methods)

/-! ### Units -/

/-- Loads a file, given the files of its package. -/
def load (module : Option String) (package : List FileMethods) (file : SourceFile) :
    Except ParseError SourceUnit := do
  let tree ← parse file
  let siblings := siblingMethods package tree.file
  return {
    tree := tree
    facts := resolve tree (packagePath? module tree) siblings
    module := module }

end Lintel.Go
