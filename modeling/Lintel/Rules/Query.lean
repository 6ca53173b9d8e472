import Lintel.Rule.Basic
import Lintel.Text.Letter
import Lintel.Tree.Walk

/-!
# Questions about trees

What several rules ask of a tree: who is called with which arguments, which fields a
list declares, and which returns belong to a body. A question that follows an id out
of the arena crashes.
-/

namespace Lintel

open Lintel.Text

def gather {α β : Type} (compute : α → Check (List β)) : List α → Check (List β)
  | [] => .ok []
  | a :: rest => do
    let first ← compute a
    let others ← gather compute rest
    return first ++ others

def select {α : Type} (test : α → Check Bool) (entries : List α) : Check (List α) :=
  gather (fun a => do return if ← test a then [a] else []) entries

def isExported (name : String) : Bool :=
  name.toList.head?.any isUpper

namespace Tree

def followOption (t : Tree) : Option Nat → Check (Option Nat)
  | none => .ok none
  | some id => do return some (← t.follow id)

def calleeName? (t : Tree) (call : Nat) : Check (Option String) := do
  match t.kind call with
  | .callExpr callee _ =>
    let callee ← t.follow callee
    match t.kind callee with
    | .ident name => return some name
    | .selectorExpr _ field => return t.ident? (← t.follow field)
    | _ => return none
  | _ => return none

def isSelectorCall (t : Tree) (call : Nat) : Check Bool := do
  match t.kind call with
  | .callExpr callee _ => return t.tag (← t.follow callee) == .selectorExpr
  | _ => return false

def callArgs (t : Tree) (call : Nat) : Check (List Nat) :=
  match t.kind call with
  | .callExpr _ args => args.mapM t.follow
  | _ => .ok []

def calls (t : Tree) (id : Nat) : List Nat :=
  t.findAll (fun n => t.tag n == .callExpr) id

def calleeNames (t : Tree) (id : Nat) : Check (List String) := do
  return (← (t.calls id).mapM t.calleeName?).filterMap fun name => name

def stringValue? (t : Tree) (id : Nat) : Option String :=
  match t.kind id with
  | .basicLit kind value =>
    if kind.isString then slice? value 1 (byteLength value - 1) else none
  | _ => none

/-- How many fields an entry of a field list declares: one for every name, and one if
there is none. -/
def fieldWeight (t : Tree) (field : Nat) : Nat :=
  match t.kind field with
  | .field names _ _ => max names.length 1
  | _ => 0

def fieldCount (t : Tree) : Option Nat → Nat
  | none => 0
  | some list => total ((t.children list).map t.fieldWeight)

def fieldTypes (t : Tree) : Option Nat → Check (List Nat)
  | none => .ok []
  | some list =>
    gather (fun field => do
      match t.kind field with
      | .field _ type _ => return List.replicate (t.fieldWeight field) (← t.follow type)
      | _ => return []) (t.children list)

/-- The first name of the first entry that has one. -/
def firstName? (t : Tree) : List Nat → Check (Option String)
  | [] => .ok none
  | field :: rest => do
    match t.kind field with
    | .field (name :: _) _ _ =>
      match t.ident? (← t.follow name) with
      | some word => return some word
      | none => t.firstName? rest
    | _ => t.firstName? rest

def funcParts? (t : Tree) (id : Nat) : Option FuncParts :=
  (t.kind id).funcParts?

def resultTypes (t : Tree) (func : Nat) : Check (List Nat) := do
  t.fieldTypes (← t.followOption ((t.funcParts? func).bind (·.results)))

def body? (t : Tree) (func : Nat) : Check (Option Nat) :=
  t.followOption ((t.funcParts? func).bind (·.body))

/-- The return statements of a body; those of function literals in it are not its own. -/
def ownReturns (t : Tree) (body : Nat) : List Nat :=
  (t.visited (fun id => t.tag id != .funcLit) body).filter fun id => t.tag id == .returnStmt

end Tree

end Lintel
