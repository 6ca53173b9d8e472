import Lintel.Rules.Index
import Lintel.Rules.Query

/-!
# Errors and logging

Errors should be wrapped and logged before they are returned. A call that logs should
pass keys with values, use a level, give context, and name nothing secret.
-/

namespace Lintel

open Lintel.Text

/-! ### Wrapping -/

/-- Whether a variable holds an error, by its name. -/
def isErrorName (name : String) : Bool :=
  name == "err" || endsWith "Error" name

def checkResult (pass : Pass Published) (result : Nat) : Check (List Diagnostic) := do
  let result ← pass.tree.follow result
  match (pass.tree.ident? result).filter isErrorName with
  | none => return []
  | some name =>
    return [pass.finding (pass.tree.span result) s!"error `{name}` is returned without wrapping"
      (some s!"Add context, e.g. `errors.Wrap({name}, \"...\")`")]

def checkReturn (pass : Pass Published) (id : Nat) : Check (List Diagnostic) :=
  match pass.tree.kind id with
  | .returnStmt results => gather (checkResult pass) results
  | _ => .ok []

/-- Asks for errors to be wrapped before they are returned. -/
def errorWrapping (severity : Severity := .warning) : Rule Published where
  info := {
    name := "error-wrapping"
    code := "GA006"
    description := "Requires returned errors to be wrapped with context"
    severity := severity
    capabilities := .syntaxOnly
    requires := [treeIndex.name] }
  run := fun pass => do
    let index ← pass.nodeIndex
    return .report (← gather (checkReturn pass) (index.nodes .returnStmt))

/-! ### Logging calls -/

def logLevels : List String :=
  ["Error", "Info", "Debug", "Warn", "Fatal"]

def contextTerms : List String :=
  ["ctx", "context", "correlation", "request_id"]

/-- What a text mentions when it may give away a secret. -/
def sensitiveTerms : List String :=
  ["password", "token", "secret", "key", "auth", "credential", "private", "cert", "ssh"]

/-- The small form of a letter whose small form is a basic Latin one; the sign for kelvin
is such a letter. -/
def smallLatin (c : Char) : Char :=
  if c.toNat == 0x212A then 'k' else c.toLower

/-- Whether a text mentions one of some terms; capitals do not count. -/
def mentionsTerm (terms : List String) (text : String) : Bool :=
  let small := text.toList.map smallLatin
  terms.any fun term => occursIn term.toList small

/-- The name of a call that logs: it sounds like one and has arguments. -/
def loggingName? (t : Tree) (call : Nat) : Check (Option String) := do
  match ← t.calleeName? call with
  | none => return none
  | some name =>
    if startsWith "Log" name || logLevels.contains name then
      return if (← t.callArgs call).isEmpty then none else some name
    else
      return none

/-- Whether arguments come in pairs with a text as their first part. -/
def arePairs (t : Tree) : List Nat → Bool
  | [] => true
  | [_] => false
  | key :: _ :: rest => (t.stringValue? key).isSome && arePairs t rest

/-- Whether a message is followed by keys with values. -/
def isStructured (t : Tree) : List Nat → Bool
  | _ :: key :: rest => arePairs t (key :: rest)
  | _ => false

def mentionsAny (t : Tree) (args : List Nat) (terms : List String) : Bool :=
  (args.filterMap t.stringValue?).any (mentionsTerm terms)

def loggingProblems (t : Tree) (name : String) (args : List Nat) : List (String × String) :=
  (if isStructured t args then []
    else [("use structured logging",
      "Pass key/value pairs after the message, e.g. \"task_id\", id")])
  ++ (if logLevels.contains name then []
    else [("use appropriate log level", "Use Debug, Info, Warn, Error or Fatal")])
  ++ (if mentionsAny t args contextTerms then []
    else [("include relevant context", "Add a request_id or correlation id field")])
  ++ (if mentionsAny t args sensitiveTerms then
      [("avoid logging sensitive information", "Remove credentials and secrets from log fields")]
    else [])

def checkLoggingCall (pass : Pass Published) (call : Nat) : Check (List Diagnostic) := do
  let t := pass.tree
  match ← loggingName? t call with
  | none => return []
  | some name =>
    let args ← t.callArgs call
    return (loggingProblems t name args).map fun (message, help) =>
      pass.finding (t.span call) s!"{message} in `{name}` call" (some help)

/-! ### Logging errors -/

/-- Whether a call logs an error: by its name, or by an argument known to be one. -/
def isErrorLogging (t : Tree) (facts : FactTable) (call : Nat) : Check Bool := do
  if ← t.isSelectorCall call then
    let args ← t.callArgs call
    match ← t.calleeName? call with
    | some "Error" => return !args.isEmpty
    | some "Log" => return args.any facts.isError
    | _ => return false
  else
    return false

def isNil (t : Tree) (id : Nat) : Bool :=
  t.ident? id == some "nil"

/-- Whether a declared result is an error: by its text, or because it is known to be one. -/
def isErrorType (t : Tree) (facts : FactTable) (type : Nat) : Bool :=
  t.text type == "error" || facts.isError type

/-- Whether some value returned in place of a declared error is no empty one. A single
value returned for several results passes them all on. -/
def fillsErrorSlot (t : Tree) (slots : List Bool) (results : List Nat) : Bool :=
  match results with
  | [] => false
  | [single] =>
    if 1 < slots.length then slots.contains true && !isNil t single
    else slots.head?.getD false && !isNil t single
  | several => (slots.zip several).any fun (slot, result) => slot && !isNil t result

def yieldsError (t : Tree) (facts : FactTable) (slots : List Bool) (id : Nat) : Check Bool := do
  match t.kind id with
  | .returnStmt results =>
    let results ← results.mapM t.follow
    return results.any (fun result => !isNil t result && facts.isError result)
      || fillsErrorSlot t slots results
  | _ => return false

/-- Whether some return of a function yields an error. -/
def returnsError (t : Tree) (facts : FactTable) (func body : Nat) : Check Bool := do
  let slots := (← t.resultTypes func).map (isErrorType t facts)
  (t.ownReturns body).anyM (yieldsError t facts slots)

def checkUnlogged (pass : Pass Published) (decl : FuncDecl) : Check (List Diagnostic) := do
  let t := pass.tree
  match ← t.body? decl.node with
  | none => return []
  | some body =>
    if ← returnsError t pass.facts decl.node body then
      let logging ← select (isErrorLogging t pass.facts) (t.calls body)
      if logging.isEmpty then
        return [pass.finding (t.span decl.node)
          s!"log errors before returning them in `{decl.name}`"
          (some "Call logger.Error(...) before returning the error")]
      else
        return []
    else
      return []

def structuredLogging (severity : Severity := .warning) : Rule Published where
  info := {
    name := "structured-logging"
    code := "GA008"
    description :=
      "Requires structured, leveled logging with context and error logging before returns"
    severity := severity
    capabilities := .semantic
    requires := [treeIndex.name, declIndex.name] }
  run := fun pass => do
    let index ← pass.nodeIndex
    let decls ← pass.declarations
    let calls ← gather (checkLoggingCall pass) (index.nodes .callExpr)
    let returns ← gather (checkUnlogged pass) decls.funcs
    return .report (calls ++ returns)

end Lintel
