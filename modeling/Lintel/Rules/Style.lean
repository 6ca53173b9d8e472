import Lintel.Rules.Interfaces

/-!
# Style

Limits on sizes, the order of imports and of fields, and the form of names. The
findings come in a fixed order: package, imports, functions, types, names.
-/

namespace Lintel

open Lintel.Text

structure StyleLimits where
  statements : Nat := 50
  params : Nat := 5
  results : Nat := 3
  fields : Nat := 10
  methods : Nat := 5
  deriving DecidableEq, Repr

def StyleLimits.standard : StyleLimits := {}

/-! ### Imports -/

/-- Where an import comes from, in the order in which imports should stand. -/
inductive ImportClass where
  | standard
  | thirdParty
  | internal
  deriving DecidableEq, Repr

namespace ImportClass

/-- The class of a path; a path that mentions the module is internal. -/
def ofPath (path : String) (module : Option String) : ImportClass :=
  if module.any fun m => mentions m path then .internal
  else if mentions "." path then .thirdParty
  else .standard

def rank : ImportClass → Nat
  | .standard => 0
  | .thirdParty => 1
  | .internal => 2

def label : ImportClass → String
  | .standard => "standard library"
  | .thirdParty => "third-party"
  | .internal => "internal"

end ImportClass

def importPaths (t : Tree) (index : NodeIndex) : List (Nat × String) :=
  (index.nodes .importSpec).filterMap fun id =>
    match t.kind id with
    | .importSpec path _ => some (id, path)
    | _ => none

def checkImportPair (pass : Pass Published) (earlier later : Nat × String) : List Diagnostic :=
  let before := ImportClass.ofPath earlier.2 pass.unit.module
  let after := ImportClass.ofPath later.2 pass.unit.module
  if after.rank < before.rank then
    [pass.finding (pass.tree.span later.1)
      s!"{after.label} import \"{later.2}\" should come before {before.label} imports"]
  else
    []

/-- The findings about the order of imports, each compared with the one before it. -/
def checkImports (pass : Pass Published) (index : NodeIndex) : List Diagnostic :=
  let imports := importPaths pass.tree index
  (imports.zip imports.tail).flatMap fun (earlier, later) => checkImportPair pass earlier later

/-! ### Names -/

def isConstantName (name : String) : Bool :=
  !name.toList.contains ' ' && !name.toList.any isLower

/-- Whether a name fits a package; in a test file a suffix for tests is allowed. -/
def isPackageName (name : String) (isTest : Bool) : Bool :=
  let base := if isTest then (beforeEnd? "_test" name).getD name else name
  !base.isEmpty && base.toList.all fun c => c.isDigit || ('a' ≤ c && c ≤ 'z')

def checkPackage (pass : Pass Published) : List Diagnostic :=
  (pass.tree.children pass.tree.root).flatMap fun clause =>
    match pass.tree.kind clause with
    | .packageClause name =>
      if isPackageName name pass.file.isTest then []
      else [pass.finding (pass.tree.span clause)
        s!"package name `{name}` should be a single lowercase word"]
    | _ => []

def specNames (t : Tree) (decl : Nat) : Check (List Nat) :=
  gather (fun spec =>
    match t.kind spec with
    | .valueSpec names _ _ => names.mapM t.follow
    | _ => .ok []) (t.children decl)

def checkConstant (pass : Pass Published) (node : Nat) : List Diagnostic :=
  match pass.tree.ident? node with
  | some name =>
    if name != "_" && !isConstantName name then
      [pass.finding (pass.tree.span node) s!"constant `{name}` should be UPPER_CASE"]
    else
      []
  | none => []

def checkMixedName (pass : Pass Published) (node : Nat) : List Diagnostic :=
  match pass.tree.ident? node with
  | some name =>
    if name != "_" && (name.toList.contains '_' || name.toList.contains ' ') then
      [pass.finding (pass.tree.span node)
        s!"name `{name}` should use mixedCaps without underscores"]
    else
      []
  | none => []

/-- The names of variables, types and functions, by where they start. -/
def mixedNames (t : Tree) (index : NodeIndex) : Check (List Nat) := do
  let vars ← gather (specNames t) (index.nodes .varDecl)
  let types ← gather (fun spec =>
    match t.kind spec with
    | .typeSpec name _ => do return [← t.follow name]
    | _ => .ok []) (index.nodes .typeSpec)
  let funcs ← gather (fun decl => do
    return (← t.followOption ((t.funcParts? decl).bind (·.name))).toList) (index.nodes .funcDecl)
  return (vars ++ types ++ funcs).mergeSort fun a b => (t.span a).start ≤ (t.span b).start

def checkNames (pass : Pass Published) (index : NodeIndex) : Check (List Diagnostic) := do
  let constants ← gather (specNames pass.tree) (index.nodes .constDecl)
  let others ← mixedNames pass.tree index
  return constants.flatMap (checkConstant pass) ++ others.flatMap (checkMixedName pass)

/-! ### Sizes -/

def tooMany (subject : String) (count most : Nat) (what : String) : List String :=
  if most < count then [s!"{subject} has {count} {what} (max: {most})"] else []

def checkFunctionSize (limits : StyleLimits) (pass : Pass Published) (decl : FuncDecl) :
    Check (List Diagnostic) := do
  let t := pass.tree
  match t.funcParts? decl.node with
  | none => return []
  | some parts =>
    let subject := s!"function `{decl.name}`"
    let statements ←
      match parts.body with
      | none => pure 0
      | some body => do pure (t.children (← t.follow body)).length
    let params := t.fieldCount (some (← t.follow parts.params))
    let results := t.fieldCount (← t.followOption parts.results)
    let messages :=
      tooMany subject statements limits.statements "statements"
        ++ tooMany subject params limits.params "parameters"
        ++ tooMany subject results limits.results "results"
    return messages.map fun message => pass.finding (t.span decl.node) message

/-! ### Order of fields -/

/-- The nodes that name the fields of an entry: its names, or its type if it is embedded. -/
def fieldNameNodes (t : Tree) (field : Nat) : Check (List Nat) :=
  match t.kind field with
  | .field [] type _ => do return [← t.follow type]
  | .field names _ _ => names.mapM t.follow
  | _ => .ok []

/-- The name of a field as it is shown: without stars in front and without a package. -/
def shownFieldName (text : String) : String :=
  String.ofList (lastPiece (· == '.') (trimLeft (· == '*') text.toList))

def checkFieldOrder (pass : Pass Published) : Bool → List Nat → List Diagnostic
  | _, [] => []
  | afterHidden, node :: rest =>
    let name := shownFieldName (pass.tree.text node)
    if isExported name then
      (if afterHidden then
        [pass.finding (pass.tree.span node)
          s!"exported field `{name}` should be declared before unexported fields"]
      else []) ++ checkFieldOrder pass afterHidden rest
    else
      checkFieldOrder pass true rest

def checkStruct (limits : StyleLimits) (pass : Pass Published) (decl : TypeDecl) :
    Check (List Diagnostic) := do
  let t := pass.tree
  match t.kind decl.type with
  | .structType fields =>
    let fields ← t.follow fields
    let sizes := (tooMany s!"struct `{decl.name}`" (t.fieldCount (some fields)) limits.fields
      "fields").map fun message => pass.finding (t.span decl.nameNode) message
    let names ← gather (fieldNameNodes t) (t.children fields)
    return sizes ++ checkFieldOrder pass false names
  | _ => return []

def checkInterface (limits : StyleLimits) (pass : Pass Published) (decl : TypeDecl) :
    Check (List Diagnostic) := do
  let methods ← methodCount pass.tree decl.type
  return (interfaceProblems decl.name methods limits.methods).map fun problem =>
    pass.finding (pass.tree.span decl.nameNode) problem

/-- Asks for small functions and types, for grouped imports and for names of a fitting
form. -/
def styleLimits (limits : StyleLimits := .standard) (severity : Severity := .warning) :
    Rule Published where
  info := {
    name := "style-limits"
    code := "GA010"
    description := "Limits function and type sizes, enforces naming and import grouping"
    severity := severity
    capabilities := .syntaxOnly
    requires := [treeIndex.name, declIndex.name] }
  run := fun pass => do
    let index ← pass.nodeIndex
    let decls ← pass.declarations
    let functions ← gather (checkFunctionSize limits pass) decls.funcs
    let structs ← gather (checkStruct limits pass) decls.structs
    let interfaces ← gather (checkInterface limits pass) decls.interfaces
    let names ← checkNames pass index
    return .report (checkPackage pass ++ checkImports pass index ++ functions ++ structs
      ++ interfaces ++ names)

end Lintel
