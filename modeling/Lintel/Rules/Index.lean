import Lintel.Rule.Basic
import Lintel.Tree.Walk

/-!
# Indexes

Two rules report nothing and publish what other rules build on. The first lists the
nodes of a file by tag, the second its declarations of types and functions. Both list
things in source order.
-/

namespace Lintel

/-! ### Nodes by tag -/

/-- Node ids by tag. -/
structure NodeIndex where
  groups : List (NodeTag × Array Nat)
  deriving DecidableEq, Repr

namespace NodeIndex

def empty : NodeIndex :=
  ⟨[]⟩

def addTo (tag : NodeTag) (id : Nat) : List (NodeTag × Array Nat) → List (NodeTag × Array Nat)
  | [] => [(tag, #[id])]
  | (key, ids) :: rest =>
    if key = tag then (key, ids.push id) :: rest else (key, ids) :: addTo tag id rest

def add (index : NodeIndex) (tag : NodeTag) (id : Nat) : NodeIndex :=
  ⟨addTo tag id index.groups⟩

def nodes (index : NodeIndex) (tag : NodeTag) : List Nat :=
  ((index.groups.lookup tag).getD #[]).toList

def size (index : NodeIndex) : Nat :=
  total (index.groups.map fun group => group.2.size)

def isEmpty (index : NodeIndex) : Bool :=
  index.groups.isEmpty

def ofTree (t : Tree) : NodeIndex :=
  t.walk (fun index id => (index.add (t.tag id) id, true)) .empty t.root

end NodeIndex

/-! ### Declarations -/

inductive TypeShape where
  | struct
  | interface
  | other
  deriving DecidableEq, Repr

def TypeShape.ofKind : NodeKind → TypeShape
  | .structType _ => .struct
  | .interfaceType _ => .interface
  | _ => .other

/-- A declared type: its specification, its name and its type expression. -/
structure TypeDecl where
  name : String
  shape : TypeShape
  spec : Nat
  nameNode : Nat
  type : Nat
  deriving DecidableEq, Repr

/-- A declared function; a method has a base type and a kind of receiver. -/
structure FuncDecl where
  name : String
  receiver : Option (String × Receiver)
  node : Nat
  deriving DecidableEq, Repr

/-- The declarations of a file, types local to functions included. -/
structure Declarations where
  types : List TypeDecl
  funcs : List FuncDecl
  deriving DecidableEq, Repr

namespace Declarations

def structs (decls : Declarations) : List TypeDecl :=
  decls.types.filter fun decl => decl.shape == .struct

def interfaces (decls : Declarations) : List TypeDecl :=
  decls.types.filter fun decl => decl.shape == .interface

def methodsOf (decls : Declarations) (base : String) : List FuncDecl :=
  decls.funcs.filter fun decl => decl.receiver.any fun receiver => receiver.1 == base

end Declarations

def Tree.typeDecl? (t : Tree) (spec : Nat) : Check (Option TypeDecl) := do
  match t.kind spec with
  | .typeSpec name type =>
    match t.ident? (← t.follow name) with
    | none => return none
    | some word =>
      let type ← t.follow type
      return some ⟨word, TypeShape.ofKind (t.kind type), spec, name, type⟩
  | _ => return none

/-- The base type and the kind of a receiver list. A generic base type is known by the
name that comes first in it. -/
def Tree.receiver? (t : Tree) (list : Nat) : Check (Option (String × Receiver)) := do
  match (t.children list).head?.map t.kind with
  | some (.field _ type _) =>
    let type ← t.follow type
    let (base, receiver) ←
      match t.kind type with
      | .pointerType elem => do pure (← t.follow elem, Receiver.pointer)
      | _ => pure (type, Receiver.value)
    let name := (t.ident? base).or ((t.children base).head?.bind t.ident?)
    return name.map fun name => (name, receiver)
  | _ => return none

def Tree.funcDecl? (t : Tree) (decl : Nat) : Check (Option FuncDecl) := do
  match (t.kind decl).funcParts? with
  | none => return none
  | some parts =>
    match parts.name with
    | none => return none
    | some name =>
      match t.ident? (← t.follow name) with
      | none => return none
      | some word =>
        match parts.receiver with
        | none => return some ⟨word, none, decl⟩
        | some list => return some ⟨word, ← t.receiver? (← t.follow list), decl⟩

def Declarations.ofIndex (t : Tree) (index : NodeIndex) : Check Declarations := do
  let types ← (index.nodes .typeSpec).mapM t.typeDecl?
  let funcs ← (index.nodes .funcDecl).mapM t.funcDecl?
  return ⟨types.filterMap id, funcs.filterMap id⟩

/-! ### What rules publish -/

/-- What a rule publishes for the rules after it. -/
inductive Published where
  | nodes (index : NodeIndex)
  | declarations (decls : Declarations)
  | int (value : Int)
  | text (value : String)
  deriving DecidableEq, Repr

namespace Published

def nodes? : Published → Option NodeIndex
  | .nodes index => some index
  | _ => none

def declarations? : Published → Option Declarations
  | .declarations decls => some decls
  | _ => none

def int? : Published → Option Int
  | .int value => some value
  | _ => none

def text? : Published → Option String
  | .text value => some value
  | _ => none

end Published

/-! ### The two rules -/

def treeIndex : Rule Published where
  info := {
    name := "tree-index"
    code := "GA000"
    description := "Indexes syntax nodes by kind for later passes"
    severity := .warning
    capabilities := .syntaxOnly
    requires := [] }
  run := fun pass => .ok (.publish (.nodes (.ofTree pass.tree)))

def Pass.nodeIndex (pass : Pass Published) : Check NodeIndex :=
  pass.resultOf Published.nodes? treeIndex.name

def declIndex : Rule Published where
  info := {
    name := "decl-index"
    code := "GA100"
    description := "Lists type and function declarations for later passes"
    severity := .warning
    capabilities := .syntaxOnly
    requires := [treeIndex.name] }
  run := fun pass => do
    let index ← pass.nodeIndex
    let decls ← Declarations.ofIndex pass.tree index
    return .publish (.declarations decls)

def Pass.declarations (pass : Pass Published) : Check Declarations :=
  pass.resultOf Published.declarations? declIndex.name

end Lintel
