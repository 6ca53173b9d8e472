import Lintel.Go.Library
import Lintel.Tree.Walk

/-!
# Resolving types in a file

The facts about one file, from what it declares and from a few signatures of the
standard library. First come imports and type names, then the fields of structs and the
results of functions, then package-level values, and last the bodies of functions. What
cannot be told stays unknown.

A body has one environment, which later bindings overwrite. The type of an expression is
computed once; what a node was first found to be is remembered.
-/

namespace Lintel.Go

open Lintel.Text

abbrev Env := Std.TreeMap String GoType

structure Scope where
  package : Option String
  imports : Std.TreeMap String String
  localTypes : Std.TreeMap String Nat
  structFields : Std.TreeMap String Env
  functions : Std.TreeMap String Results
  methods : Std.TreeMap String (Std.TreeMap String Results)
  globals : Env

def Scope.empty (package : Option String) : Scope :=
  ⟨package, ∅, ∅, ∅, ∅, ∅, ∅⟩

def Scope.localType (s : Scope) (name : String) : GoType :=
  .named s.package name

/-- The import that a name refers to, unless it is a variable. -/
def Scope.importOf? (s : Scope) (env : Env) (name : String) : Option String :=
  if env.contains name || s.globals.contains name then none else s.imports[name]?

/-- The facts found so far, and the answers already given. -/
structure Memory where
  facts : FactTable
  known : Std.TreeMap Nat (Option GoType)

abbrev Resolve := StateM Memory

namespace Resolve

def note (change : FactTable → FactTable) : Resolve Unit :=
  modify fun m => { m with facts := change m.facts }

/-- Gives a remembered answer, or computes and remembers it. A type that is found becomes
a fact. -/
def remember (node : Nat) (compute : Resolve (Option GoType)) : Resolve (Option GoType) := do
  match (← get).known[node]? with
  | some answer => return answer
  | none =>
    let answer ← compute
    match answer with
    | some type => note (·.recordType node type)
    | none => pure ()
    modify fun m => { m with known := m.known.insert node answer }
    return answer

end Resolve

/-! ### Types as they are written -/

def typeExprUpTo (t : Tree) (s : Scope) : Nat → Nat → Option GoType
  | 0, _ => none
  | depth + 1, id =>
    match t.kind id with
    | .ident name =>
      if name == "error" then some .error
      else if basicTypes.contains name then some (.basic name)
      else some (s.localType name)
    | .selectorExpr operand field => do
      let prefixName ← t.ident? operand
      let name ← t.ident? field
      return .named (some (s.imports.getD prefixName prefixName)) name
    | .pointerType elem => (typeExprUpTo t s depth elem).map .pointer
    | .other "slice_type" => do
      return .slice (← typeExprUpTo t s depth (← (t.children id).head?))
    | .other "generic_type" | .other "parenthesized_type" => do
      typeExprUpTo t s depth (← (t.children id).head?)
    | _ => none

/-- The type that a type expression denotes. Parts come before the whole in the arena, so
its size bounds the depth. -/
def typeExpr (t : Tree) (s : Scope) (id : Nat) : Option GoType :=
  typeExprUpTo t s (t.size + 1) id

/-- The types of a field list, one for every name or unnamed entry. -/
def fieldListTypes (t : Tree) (s : Scope) : Option Nat → Results
  | none => []
  | some list => (t.children list).flatMap fun field =>
    match t.kind field with
    | .field names type _ => List.replicate (max names.length 1) (typeExpr t s type)
    | _ => []

/-! ### Expressions -/

def callResults (t : Tree) (s : Scope) (typeOf : Nat → Resolve (Option GoType)) (env : Env)
    (call : Nat) : Resolve Results := do
  match t.kind call with
  | .callExpr callee args =>
    match t.kind callee with
    | .ident name =>
      if args.length == 1 && basicTypes.contains name then
        return [some (.basic name)]
      else if args.length == 1 && s.localTypes.contains name then
        return [some (s.localType name)]
      else match name with
        | "new" => return [(args.head?.bind (typeExpr t s)).map .pointer]
        | "len" | "cap" | "copy" => return [some (.basic "int")]
        | "append" =>
          match args.head? with
          | some first => return [← typeOf first]
          | none => return [none]
        | _ => return s.functions.getD name []
    | .selectorExpr operand field =>
      match t.ident? field with
      | none => return []
      | some method =>
        match (t.ident? operand).bind (s.importOf? env) with
        | some path =>
          Resolve.note (·.recordPackage operand path)
          return libraryFunction path method
        | none =>
          match ← typeOf operand with
          | none => return []
          | some receiver =>
            if receiver.isError && method == "Error" then
              return [some (.basic "string")]
            else match receiver.stripPointers with
              | .named (some package) name =>
                if some package == s.package then
                  return (s.methods.getD name ∅).getD method []
                else
                  return libraryMethod package name method
              | _ => return []
    | _ => return []
  | _ => return []

/-- The type of an expression; `typeOf` answers for the parts. -/
def computeType (t : Tree) (s : Scope) (typeOf : Nat → Resolve (Option GoType)) (env : Env)
    (id : Nat) : Resolve (Option GoType) := do
  match t.kind id with
  | .ident name =>
    match s.importOf? env name with
    | some path =>
      Resolve.note (·.recordPackage id path)
      return none
    | none =>
      if name == "true" || name == "false" then return some (.basic "bool")
      else return env[name]?.or s.globals[name]?
  | .basicLit kind _ =>
    match kind with
    | .int => return some (.basic "int")
    | .float => return some (.basic "float64")
    | .imaginary => return some (.basic "complex128")
    | .rune => return some (.basic "rune")
    | .string | .rawString => return some (.basic "string")
  | .compositeLit type _ => return type.bind (typeExpr t s)
  | .unaryExpr op operand =>
    let inner ← typeOf operand
    match op with
    | "&" => return inner.map .pointer
    | "*" =>
      match inner with
      | some (.pointer elem) => return some elem
      | _ => return none
    | "!" => return some (.basic "bool")
    | _ => return inner
  | .callExpr _ _ => return (← callResults t s typeOf env id).head?.join
  | .selectorExpr operand field =>
    match t.ident? field with
    | none => return none
    | some member =>
      match ← typeOf operand with
      | none => return none
      | some owner =>
        match owner.stripPointers with
        | .named package name =>
          if package == s.package then
            return (s.structFields.getD name ∅)[member]?
          else
            return none
        | _ => return none
  | .other "parenthesized_expression" =>
    match (t.children id).head? with
    | some inner => typeOf inner
    | none => return none
  | _ => return none

/-- The type of an expression, looked into down to a depth. -/
def exprTypeUpTo (t : Tree) (s : Scope) (env : Env) : Nat → Nat → Resolve (Option GoType)
  | 0, _ => return none
  | depth + 1, id =>
    Resolve.remember id (computeType t s (exprTypeUpTo t s env depth) env id)

def exprType (t : Tree) (s : Scope) (env : Env) (id : Nat) : Resolve (Option GoType) :=
  exprTypeUpTo t s env (t.size + 1) id

/-! ### Bindings -/

/-- Binds a name to a type, if it is a name other than the blank one. -/
def bind (t : Tree) (env : Env) (target : Nat) (type : Option GoType) : Resolve Env := do
  match t.ident? target, type with
  | some name, some type =>
    if name == "_" then
      return env
    else
      Resolve.note (·.recordType target type)
      modify fun m => { m with known := m.known.insert target (some type) }
      return env.insert name type
  | _, _ => return env

/-- The types that values give to a number of targets: one each, or the results of the
only value. -/
def assignedTypes (t : Tree) (s : Scope) (env : Env) (values : List Nat) (targets : Nat) :
    Resolve Results := do
  if values.length == targets then
    values.mapM (exprType t s env)
  else match values with
    | [single] =>
      let _ ← exprType t s env single
      callResults t s (exprType t s env) env single
    | _ => return []

def bindSpec (t : Tree) (s : Scope) (env : Env) (spec : Nat) : Resolve Env := do
  match t.kind spec with
  | .valueSpec names type values =>
    let declared := type.bind (typeExpr t s)
    let inferred ← assignedTypes t s env values names.length
    names.zipIdx.foldlM (fun env (name, i) =>
      bind t env name (declared.or (inferred[i]?.join))) env
  | _ => return env

def bindFields (t : Tree) (s : Scope) (env : Env) : Option Nat → Resolve Env
  | none => return env
  | some list =>
    (t.children list).foldlM (fun env field => do
      match t.kind field with
      | .field names type _ =>
        match typeExpr t s type with
        | none => return env
        | some found =>
          names.foldlM (fun env name => do
            match t.ident? name with
            | none => return env
            | some word =>
              Resolve.note (·.recordType name found)
              return env.insert word found) env
      | _ => return env) env

/-- Binds the targets of an assignment. A plain assignment binds only names that are new.
The last target of a definition is an error if it is called so and nothing else is known. -/
def bindTargets (t : Tree) (env : Env) (define : Bool) (targets : List Nat) (types : Results) :
    Resolve Env :=
  targets.zipIdx.foldlM (fun env (target, i) => do
    let found := types[i]?.join
    let type :=
      if found.isNone && define && i + 1 == targets.length && t.ident? target == some "err" then
        some .error
      else
        found
    if define || (t.ident? target).any (fun name => !env.contains name) then
      bind t env target type
    else
      return env) env

def resolveStatement (t : Tree) (s : Scope) (env : Env) (id : Nat) : Resolve Env := do
  match t.kind id with
  | .assignStmt lhs rhs define =>
    let types ← assignedTypes t s env rhs lhs.length
    bindTargets t env define lhs types
  | .valueSpec _ _ _ => bindSpec t s env id
  | .funcLit parts =>
    let env ← bindFields t s env (some parts.params)
    bindFields t s env parts.results
  | _ =>
    let _ ← exprType t s env id
    return env

/-! ### Declarations -/

def receiverBase? (t : Tree) (list : Nat) : Option (String × Receiver) := do
  let field ← (t.children list).head?
  match t.kind field with
  | .field _ type _ =>
    let (node, kind) :=
      match t.kind type with
      | .pointerType elem => (elem, Receiver.pointer)
      | _ => (type, Receiver.value)
    match t.ident? node with
    | some base => some (base, kind)
    | none =>
      let base ← t.ident? (← (t.children node).head?)
      some (base, kind)
  | _ => none

def receiverMethods (t : Tree) : List (String × Method) :=
  (t.children t.root).filterMap fun decl => do
    match t.kind decl with
    | .funcDecl parts =>
      let name ← t.ident? (← parts.name)
      let (base, receiver) ← receiverBase? t (← parts.receiver)
      some (base, ⟨name, receiver⟩)
    | _ => none

def readImport (t : Tree) (s : Scope) (spec : Nat) : Resolve Scope := do
  match t.kind spec with
  | .importSpec path localName =>
    Resolve.note (·.recordPackage spec path)
    for child in t.children spec do
      if (t.ident? child).isSome then Resolve.note (·.recordPackage child path)
    match localName with
    | some "_" | some "." => return s
    | some name => return { s with imports := s.imports.insert name path }
    | none => return { s with imports := s.imports.insert (defaultLocalName path) path }
  | _ => return s

def readTypeName (t : Tree) (s : Scope) (spec : Nat) : Resolve Scope := do
  match t.kind spec with
  | .typeSpec name type =>
    match t.ident? name with
    | none => return s
    | some word =>
      Resolve.note fun facts => (facts.declareType (s.localType word)).recordType name (s.localType word)
      return { s with localTypes := s.localTypes.insert word type }
  | _ => return s

def readField (t : Tree) (s : Scope) (table : Env) (field : Nat) : Resolve Env := do
  match t.kind field with
  | .field names type _ =>
    match typeExpr t s type with
    | none => return table
    | some found =>
      let table :=
        match names, found.name? with
        | [], some embedded => table.insert embedded found
        | _, _ => table
      names.foldlM (fun table name => do
        match t.ident? name with
        | none => return table
        | some word =>
          Resolve.note (·.recordType name found)
          return table.insert word found) table
  | _ => return table

def readFields (t : Tree) (s : Scope) (spec : Nat) : Resolve Scope := do
  match t.kind spec with
  | .typeSpec name type =>
    match t.ident? name, t.kind type with
    | some word, .structType fields =>
      let table ← (t.children fields).foldlM (readField t s) ∅
      return { s with structFields := s.structFields.insert word table }
    | _, _ => return s
  | _ => return s

def readSignature (t : Tree) (s : Scope) (parts : FuncParts) : Resolve Scope := do
  match parts.name.bind t.ident? with
  | none => return s
  | some name =>
    let results := fieldListTypes t s parts.results
    match parts.receiver with
    | none => return { s with functions := s.functions.insert name results }
    | some list =>
      match receiverBase? t list with
      | none => return s
      | some (base, receiver) =>
        Resolve.note (·.recordMethod (s.localType base) ⟨name, receiver⟩)
        let methods := (s.methods.getD base ∅).insert name results
        return { s with methods := s.methods.insert base methods }

def readNames (t : Tree) (s : Scope) (decl : Nat) : Resolve Scope :=
  match t.kind decl with
  | .importDecl => (t.children decl).foldlM (readImport t) s
  | .typeDecl => (t.children decl).foldlM (readTypeName t) s
  | _ => return s

def readShapes (t : Tree) (s : Scope) (decl : Nat) : Resolve Scope :=
  match t.kind decl with
  | .typeDecl => (t.children decl).foldlM (readFields t) s
  | .funcDecl parts => readSignature t s parts
  | _ => return s

def walkAll {α : Type} (t : Tree) (visit : α → Nat → Resolve α) (start : α) (id : Nat) :
    Resolve α := fun memory =>
  t.walk (fun (a, m) node => ((visit a node).run m, true)) (start, memory) id

/-- Reads package-level values. While they are read they are known only through the
environment, as far as they come before. -/
def readValues (t : Tree) (s : Scope) (decl : Nat) : Resolve Scope := do
  match t.kind decl with
  | .varDecl | .constDecl =>
    let inner := { s with globals := ∅ }
    let env ← (t.children decl).foldlM (fun env spec => do
      let env ← bindSpec t inner env spec
      walkAll t (fun _ node => do let _ ← exprType t inner env node; return ()) () spec
      return env) s.globals
    return { s with globals := env }
  | _ => return s

def resolveFunction (t : Tree) (s : Scope) (decl : Nat) : Resolve Unit := do
  match t.kind decl with
  | .funcDecl parts =>
    let env ← bindFields t s ∅ parts.receiver
    let env ← bindFields t s env (some parts.params)
    let env ← bindFields t s env parts.results
    match parts.body with
    | none => return ()
    | some body =>
      let _ ← walkAll t (resolveStatement t s) env body
      return ()
  | _ => return ()

/-- Reads all declarations of a file and resolves its functions. -/
def resolveFile (t : Tree) (package : Option String) : Resolve Unit := do
  let decls := t.children t.root
  let s ← decls.foldlM (readNames t) (Scope.empty package)
  let s ← decls.foldlM (readShapes t) s
  let s ← decls.foldlM (readValues t) s
  decls.forM (resolveFunction t s)

/-- The facts about a file of a package, given the methods that the other files of the
package declare. -/
def resolve (t : Tree) (package : Option String) (siblings : List (String × Method)) : FactTable :=
  let start : FactTable := { FactTable.empty with unitPackage := package }
  let facts := siblings.foldl
    (fun facts (base, method) => facts.recordMethod (.named package base) method) start
  ((resolveFile t package).run ⟨facts, ∅⟩).2.facts

end Lintel.Go
