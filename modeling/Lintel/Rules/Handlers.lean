import Lintel.Rules.Index
import Lintel.Rules.Query

/-!
# Handlers and middleware

A handler takes a response writer and a request and returns nothing; its body should
validate, report errors and use the context of the request. Middleware returns one
handler; its body should keep the context and call the next handler, and both can be
added by a fix.
-/

namespace Lintel

open Lintel.Text

/-! ### Handlers -/

def isRequestType (t : Tree) (type : Nat) : Check Bool := do
  match t.kind type with
  | .pointerType elem => return endsWith "Request" (t.text (← t.follow elem))
  | _ => return false

/-- Whether a function takes a response writer and a request, and has no results. -/
def isHandler (t : Tree) (func : Nat) : Check Bool := do
  match t.funcParts? func with
  | none => return false
  | some parts =>
    if t.fieldCount (← t.followOption parts.results) != 0 then
      return false
    else
      match ← t.fieldTypes (some (← t.follow parts.params)) with
      | [sink, request] =>
        let takesRequest ← isRequestType t request
        return endsWith "ResponseWriter" (t.text sink) && takesRequest
      | _ => return false

/-- What the body of a handler should call: one of some names, or else a problem with a
hint. -/
structure HandlerDuty where
  callees : List String
  problem : String
  help : String

def handlerDuties : List HandlerDuty :=
  [⟨["Validate", "Decode"], "does not validate its input",
      "Decode and validate the request before using it"⟩,
    ⟨["Error", "WriteError"], "does not handle errors",
      "Report failures to the client, e.g. with http.Error"⟩,
    ⟨["Context", "WithValue"], "does not use the request context",
      "Pass r.Context() to downstream calls"⟩]

def HandlerDuty.isMet (duty : HandlerDuty) (calls : List String) : Bool :=
  calls.any fun name => duty.callees.any fun callee => mentions callee name

def checkHandler (pass : Pass Published) (decl : FuncDecl) : Check (List Diagnostic) := do
  let t := pass.tree
  if ← isHandler t decl.node then
    match ← t.body? decl.node with
    | none => return []
    | some body =>
      let calls ← t.calleeNames body
      let missed := handlerDuties.filter fun duty => !duty.isMet calls
      return missed.map fun duty =>
        pass.finding (t.span decl.node) s!"handler `{decl.name}` {duty.problem}" (some duty.help)
  else
    return []

def apiHandler (severity : Severity := .warning) : Rule Published where
  info := {
    name := "api-handler"
    code := "GA001"
    description := "Requires handlers to validate input, handle errors and use the request context"
    severity := severity
    capabilities := .syntaxOnly
    requires := [declIndex.name] }
  run := fun pass => do
    let decls ← pass.declarations
    return .report (← gather (checkHandler pass) decls.funcs)

/-! ### Middleware -/

/-- Whether a type expression names a handler, perhaps of another package. -/
def isHandlerType (t : Tree) (type : Nat) : Bool :=
  if t.tag type == .pointerType then
    false
  else
    let name := String.ofList (lastPiece (· == '.') (t.text type).toList)
    name == "Handler" || name == "HandlerFunc"

/-- Whether a function returns one handler and nothing else. -/
def isMiddleware (t : Tree) (func : Nat) : Check Bool := do
  match ← t.resultTypes func with
  | [only] => return isHandlerType t only
  | _ => return false

def handlerParam? (t : Tree) : List Nat → Check (Option String)
  | [] => .ok none
  | field :: rest => do
    match t.kind field with
    | .field names type _ =>
      if isHandlerType t (← t.follow type) then
        match (← t.followOption names.head?).bind t.ident? with
        | some word => return some word
        | none => handlerParam? t rest
      else
        handlerParam? t rest
    | _ => handlerParam? t rest

/-- The name under which middleware knows the next handler. -/
def nextHandler (t : Tree) (func : Nat) : Check String := do
  match t.funcParts? func with
  | none => return "next"
  | some parts =>
    let params ← t.follow parts.params
    return (← handlerParam? t (t.children params)).getD "next"

/-- The fix that takes the context of the request at the start of a body. -/
def contextFix (pass : Pass Published) (func body : Nat) : Check Fix :=
  let indent := pass.file.indentAt (pass.tree.span func).start
  Fix.check "Capture and reattach the request context"
    [.insert ((pass.tree.span body).start + 1)
      s!"\n{indent}\tctx := r.Context()\n{indent}\tr = r.WithContext(ctx)"]

/-- The fix that calls the next handler before the last return, or at the end. -/
def forwardFix (pass : Pass Published) (next : String) (body : Nat) : Check Fix :=
  match (pass.tree.ownReturns body).getLast? with
  | some last =>
    let offset := (pass.tree.span last).start
    Fix.check s!"Call {next}.ServeHTTP before returning"
      [.insert offset s!"{next}.ServeHTTP(w, r)\n{pass.file.indentAt offset}"]
  | none =>
    let offset := (pass.tree.span body).stop - 1
    Fix.check s!"Call {next}.ServeHTTP at the end of the body"
      [.insert offset s!"\t{next}.ServeHTTP(w, r)\n{pass.file.indentAt offset}"]

def checkContext (pass : Pass Published) (decl : FuncDecl) (body : Nat) (calls : List String) :
    Check (List Diagnostic) := do
  if calls.any (mentions "Context") then
    return []
  else
    let fix ← contextFix pass decl.node body
    return [pass.finding (pass.tree.span decl.node)
      s!"middleware `{decl.name}` does not preserve the request context" none [fix]]

def checkForwarding (pass : Pass Published) (decl : FuncDecl) (body : Nat) (calls : List String) :
    Check (List Diagnostic) := do
  if calls.any fun name => name == "ServeHTTP" || mentions "Handle" name then
    return []
  else
    let next ← nextHandler pass.tree decl.node
    let fix ← forwardFix pass next body
    return [pass.finding (pass.tree.span decl.node)
      s!"middleware `{decl.name}` does not call the next handler" none [fix]]

def checkMiddleware (pass : Pass Published) (decl : FuncDecl) : Check (List Diagnostic) := do
  let t := pass.tree
  if ← isMiddleware t decl.node then
    match ← t.body? decl.node with
    | none => return []
    | some body =>
      let calls ← t.calleeNames body
      let lost ← checkContext pass decl body calls
      let stopped ← checkForwarding pass decl body calls
      return lost ++ stopped
  else
    return []

def middlewareChain (severity : Severity := .warning) : Rule Published where
  info := {
    name := "middleware-chain"
    code := "GA002"
    description := "Requires middleware to preserve the request context and call the next handler"
    severity := severity
    capabilities := .syntaxOnly
    requires := [declIndex.name] }
  run := fun pass => do
    let decls ← pass.declarations
    return .report (← gather (checkMiddleware pass) decls.funcs)

end Lintel
