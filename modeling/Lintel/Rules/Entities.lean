import Lintel.Rules.Index
import Lintel.Rules.Query

/-!
# Entities and their storage

An entity is a struct with an id and a time of creation or change. It belongs to a
domain package and validates itself, and its storage wraps errors and knows
transactions. Tasks have agreed names for their fields, and times are numbers.
-/

namespace Lintel

open Lintel.Text

def Pass.methodSet? (pass : Pass Published) (decl : TypeDecl) : Option MethodSet :=
  (pass.facts.typeOf? decl.nameNode).bind pass.facts.methodSet?

/-! ### Entities -/

def structFieldNames (t : Tree) (type : Nat) : Check (List String) := do
  match t.kind type with
  | .structType fields =>
    let fields ← t.follow fields
    gather (fun field => do
      match t.kind field with
      | .field names _ _ => return (← names.mapM t.follow).filterMap t.ident?
      | _ => return []) (t.children fields)
  | _ => return []

/-- Whether a struct type is an entity, by the names of its fields. -/
def isEntity (t : Tree) (type : Nat) : Check Bool := do
  let names ← structFieldNames t type
  return names.contains "ID" && (names.contains "CreatedAt" || names.contains "UpdatedAt")

def isDomainPackage (package : String) : Bool :=
  (splitAt (· == '/') package.toList).contains "domain".toList

def checkPlacement (pass : Pass Published) (decl : TypeDecl) : List Diagnostic :=
  match pass.facts.packagePath? decl.nameNode with
  | none => []
  | some package =>
    if isDomainPackage package then []
    else [pass.finding (pass.tree.span decl.nameNode)
      s!"domain type `{decl.name}` must live in a `domain` package, found `{package}`"
      (some "Move the type under a `domain` directory")]

/-- The finding that an entity is known not to validate itself. -/
def checkValidation (pass : Pass Published) (decl : TypeDecl) : List Diagnostic :=
  match pass.methodSet? decl with
  | none => []
  | some methods =>
    if (methods.get? "Validate").any fun method => method.receiver == .pointer then []
    else [pass.finding (pass.tree.span decl.nameNode)
      s!"domain type `{decl.name}` must have a pointer-receiver `Validate` method"
      (some s!"Add `func (x *{decl.name}) Validate() error`")]

def checkEntity (pass : Pass Published) (decl : TypeDecl) : Check (List Diagnostic) := do
  if ← isEntity pass.tree decl.type then
    return checkPlacement pass decl ++ checkValidation pass decl
  else
    return []

/-- Asks entities to live in a domain package and to validate themselves. -/
def domainLayering (severity : Severity := .warning) : Rule Published where
  info := {
    name := "domain-layering"
    code := "GA003"
    description := "Requires domain entities to live in a domain package and validate themselves"
    severity := severity
    capabilities := .semantic
    requires := [declIndex.name] }
  run := fun pass => do
    let decls ← pass.declarations
    return .report (← gather (checkEntity pass) decls.structs)

/-! ### Storage -/

/-- Whether a type is storage, by its name. -/
def isStorage (name : String) : Bool :=
  endsWith "Store" name || endsWith "Repository" name

def Tree.selectBelow (t : Tree) (test : Nat → Check Bool) (id : Nat) : Check (List Nat) :=
  select test (t.findAll (fun _ => true) id)

def referencesError (t : Tree) (spec : Nat) : Check Bool := do
  let found ← t.selectBelow (fun id => do
    match t.kind id with
    | .selectorExpr _ field => return t.ident? (← t.follow field) == some "Error"
    | _ => return false) spec
  return !found.isEmpty

/-- Whether a specification declares the method that begins a transaction. -/
def declaresBeginTx (t : Tree) (spec : Nat) : Check Bool := do
  let found ← t.selectBelow (fun id => do
    match t.kind id with
    | .methodSpec name _ _ => return t.ident? (← t.follow name) == some "BeginTx"
    | _ => return false) spec
  return !found.isEmpty

/-- Whether a type is seen to begin transactions: in its specification, by a method of the
file, or by a method known otherwise. -/
def beginsTransactions (pass : Pass Published) (decls : Declarations) (decl : TypeDecl) :
    Check Bool := do
  if ← declaresBeginTx pass.tree decl.spec then
    return true
  else
    return (decls.methodsOf decl.name).any (fun method => method.name == "BeginTx")
      || (pass.methodSet? decl).any (·.contains "BeginTx")

def checkStorage (pass : Pass Published) (decls : Declarations) (decl : TypeDecl) :
    Check (List Diagnostic) := do
  let wraps ← referencesError pass.tree decl.spec
  let begins ← beginsTransactions pass decls decl
  let span := pass.tree.span decl.nameNode
  let unwrapped :=
    if wraps then []
    else [pass.finding span s!"storage type `{decl.name}` does not use domain error wrapping"
      (some "Return domain errors, e.g. `domain.Error\x7b...\x7d`")]
  let plain :=
    if begins then []
    else [pass.finding span
      s!"storage type `{decl.name}` does not support transactions (missing `BeginTx`)"
      (some "Add `BeginTx(ctx context.Context) (Tx, error)`")]
  return unwrapped ++ plain

/-- Asks storage to wrap errors and to support transactions. -/
def storageShape (severity : Severity := .warning) : Rule Published where
  info := {
    name := "storage-shape"
    code := "GA005"
    description := "Requires storage types to wrap errors and support transactions"
    severity := severity
    capabilities := .semantic
    requires := [declIndex.name] }
  run := fun pass => do
    let decls ← pass.declarations
    let stores := decls.types.filter fun decl => isStorage decl.name
    return .report (← gather (checkStorage pass decls) stores)

/-! ### Tasks -/

/-- The name that a field of a task should have instead. -/
def taskRename? : String → Option String
  | "Content" => some "Title"
  | "Done" => some "Completed"
  | _ => none

def isTimeField (name : String) : Bool :=
  name == "CreatedAt" || name == "UpdatedAt"

def FactTable.isTask (facts : FactTable) (node : Nat) : Bool :=
  ((facts.typeOf? node).bind (·.name?)).any (endsWith "Task")

def isCurrentTime (t : Tree) (value : Nat) : Check Bool := do
  match t.kind value with
  | .callExpr _ [] => return (← t.calleeName? value) == some "Now"
  | _ => return false

/-- Whether a value is a literal number behind at most `depth` signs. -/
def isNumericUpTo (t : Tree) : Nat → Nat → Check Bool
  | 0, _ => .ok false
  | depth + 1, value => do
    match t.kind value with
    | .basicLit kind _ => return kind == .int || kind == .float || kind == .rune
    | .unaryExpr op operand =>
      if op == "-" || op == "+" then isNumericUpTo t depth (← t.follow operand) else return false
    | _ => return false

/-- Whether a value is a literal number, perhaps behind signs; it takes the type of the
field. An operand comes before its expression in the arena, so its size bounds the signs. -/
def isNumericConstant (t : Tree) (value : Nat) : Check Bool :=
  isNumericUpTo t (t.size + 1) value

def checkRename (pass : Pass Published) (field : Nat) : Check (List Diagnostic) := do
  match pass.tree.ident? field with
  | none => return []
  | some name =>
    match taskRename? name with
    | none => return []
    | some better =>
      let span := pass.tree.span field
      let fix ← Fix.check s!"Rename `{name}` to `{better}`" [.replace span better]
      return [pass.finding span s!"task field `{name}` should be named `{better}`" none [fix]]

def timeFix (pass : Pass Published) (value : Nat) : Check (List Fix) := do
  if ← isCurrentTime pass.tree value then
    let fix ← Fix.check "Convert to a Unix timestamp"
      [.insert (pass.tree.span value).stop ".Unix()"]
    return [fix]
  else
    return []

def checkTime (pass : Pass Published) (field value : Nat) : Check (List Diagnostic) := do
  let t := pass.tree
  if !(t.ident? field).any isTimeField then
    return []
  else if ← isNumericConstant t value then
    return []
  else
    match pass.facts.typeOf? value with
    | none => return []
    | some type =>
      if type.isInt64 then
        return []
      else
        let fixes ← timeFix pass value
        return [pass.finding (t.span value) "time fields must be int64 (Unix timestamp)"
          (some s!"`{t.text field}` is assigned a value of type `{type.display}`") fixes]

def checkElement (pass : Pass Published) (element : Nat) : Check (List Diagnostic) := do
  let t := pass.tree
  match t.kind (← t.follow element) with
  | .keyValue key value =>
    let key ← t.follow key
    let value ← t.follow value
    let renamed ← checkRename pass key
    let timed ← checkTime pass key value
    return renamed ++ timed
  | _ => return []

def checkTarget (pass : Pass Published) (pair : Nat × Nat) : Check (List Diagnostic) := do
  let t := pass.tree
  match t.kind (← t.follow pair.1) with
  | .selectorExpr operand field =>
    if pass.facts.isTask operand then
      let field ← t.follow field
      let value ← t.follow pair.2
      checkTime pass field value
    else
      return []
  | _ => return []

def checkTaskNode (pass : Pass Published) (id : Nat) : Check (List Diagnostic) := do
  let t := pass.tree
  match t.kind id with
  | .compositeLit _ elements =>
    if pass.facts.isTask id then gather (checkElement pass) elements else return []
  | .selectorExpr operand field =>
    if pass.facts.isTask operand then checkRename pass (← t.follow field) else return []
  | .assignStmt lhs rhs _ =>
    if lhs.length == rhs.length then gather (checkTarget pass) (lhs.zip rhs) else return []
  | _ => return []

/-- Asks for the agreed names of the fields of tasks, and for times that are numbers. -/
def taskFields (severity : Severity := .warning) : Rule Published where
  info := {
    name := "task-fields"
    code := "GA009"
    description := "Renames task fields to Title/Completed and requires int64 timestamps"
    severity := severity
    capabilities := .semantic
    requires := [] }
  run := fun pass => do
    return .report (← gather (checkTaskNode pass) (pass.tree.visited (fun _ => true) pass.tree.root))

end Lintel
