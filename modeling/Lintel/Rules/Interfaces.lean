import Lintel.Rules.Index
import Lintel.Rules.Query

/-!
# Interfaces

Interfaces should be small, be named for what they do, and be declared in a file of
their own.
-/

namespace Lintel

open Lintel.Text

/-- Number of methods that an interface type declares itself. -/
def methodCount (t : Tree) (type : Nat) : Check Nat := do
  match t.kind type with
  | .interfaceType elems =>
    return (← elems.mapM t.follow).countP fun elem => t.tag elem == .methodSpec
  | _ => return 0

def isInterfaceName (name : String) : Bool :=
  endsWith "er" name || endsWith "Service" name

def sizeProblem (name : String) (methods most : Nat) : List String :=
  if most < methods then [s!"interface `{name}` declares {methods} methods (max: {most})"] else []

def nameProblem (name : String) : List String :=
  if isInterfaceName name then []
  else [s!"interface name `{name}` should end in \"er\" or \"Service\""]

/-- The problems of an interface: its size before its name. -/
def interfaceProblems (name : String) (methods most : Nat) : List String :=
  sizeProblem name methods most ++ nameProblem name

def mostMethods : Nat := 5

def checkContract (pass : Pass Published) (decl : TypeDecl) : Check (List Diagnostic) := do
  let methods ← methodCount pass.tree decl.type
  return (interfaceProblems decl.name methods mostMethods).map fun problem =>
    pass.finding (pass.tree.span decl.nameNode) problem

def interfaceContract (severity : Severity := .warning) : Rule Published where
  info := {
    name := "interface-contract"
    code := "GA004"
    description := "Limits interfaces to five methods and requires an -er or Service suffix"
    severity := severity
    capabilities := .syntaxOnly
    requires := [declIndex.name] }
  run := fun pass => do
    let decls ← pass.declarations
    return .report (← gather (checkContract pass) decls.interfaces)

def misplacedInterface (pass : Pass Published) (decl : TypeDecl) : Diagnostic :=
  pass.finding (pass.tree.span decl.nameNode)
    s!"interface `{decl.name}` should be declared in an interfaces.go file"
    (some "Move the interface to interfaces.go in the same package")

def interfaceLocation (severity : Severity := .warning) : Rule Published where
  info := {
    name := "interface-location"
    code := "GA007"
    description := "Requires interfaces to be declared in interfaces.go files"
    severity := severity
    capabilities := .syntaxOnly
    requires := [declIndex.name] }
  run := fun pass => do
    if endsWith "interfaces.go" pass.file.fileName then
      return .report []
    else
      let decls ← pass.declarations
      return .report (decls.interfaces.map (misplacedInterface pass))

end Lintel
