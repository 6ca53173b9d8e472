import Lintel.Span

/-!
# Nodes of a syntax tree

A node has a kind, a byte range and a list of children, and is named by its place
in an arena. A kind may also name nodes by the part they play, such as the body of
a function; those nodes are children too. What the rules do not look into is kept
under the name that the grammar gives it.
-/

namespace Lintel

inductive LitKind where
  | int
  | float
  | imaginary
  | rune
  | string
  | rawString
  deriving DecidableEq, Repr

def LitKind.isString : LitKind → Bool
  | .string | .rawString => true
  | _ => false

/-- The parts of a function: name and receiver are missing in a literal, the results
where none are declared, the body in a mere declaration. -/
structure FuncParts where
  name : Option Nat
  receiver : Option Nat
  params : Nat
  results : Option Nat
  body : Option Nat
  deriving DecidableEq, Repr

inductive NodeKind where
  | file
  | packageClause (name : String)
  | importDecl
  | importSpec (path : String) (localName : Option String)
  | funcDecl (parts : FuncParts)
  | typeDecl
  | typeSpec (name type : Nat)
  | constDecl
  | varDecl
  | valueSpec (names : List Nat) (type : Option Nat) (values : List Nat)
  | fieldList
  | field (names : List Nat) (type : Nat) (tag : Option String)
  | structType (fields : Nat)
  | interfaceType (elems : List Nat)
  | methodSpec (name params : Nat) (results : Option Nat)
  | pointerType (elem : Nat)
  | funcType (params : Nat) (results : Option Nat)
  | block
  | returnStmt (results : List Nat)
  | exprStmt
  | assignStmt (lhs rhs : List Nat) (define : Bool)
  | ifStmt (init : Option Nat) (cond body : Nat) (orElse : Option Nat)
  | ident (name : String)
  | basicLit (kind : LitKind) (value : String)
  | callExpr (callee : Nat) (args : List Nat)
  | selectorExpr (operand field : Nat)
  | compositeLit (type : Option Nat) (elements : List Nat)
  | keyValue (key value : Nat)
  | funcLit (parts : FuncParts)
  | unaryExpr (op : String) (operand : Nat)
  | other (kind : String)
  deriving Repr, Inhabited

inductive NodeTag where
  | file | packageClause | importDecl | importSpec | funcDecl | typeDecl | typeSpec
  | constDecl | varDecl | valueSpec | fieldList | field | structType | interfaceType
  | methodSpec | pointerType | funcType | block | returnStmt | exprStmt | assignStmt
  | ifStmt | ident | basicLit | callExpr | selectorExpr | compositeLit | keyValue
  | funcLit | unaryExpr | other
  deriving DecidableEq, Repr

def NodeKind.tag : NodeKind → NodeTag
  | .file => .file
  | .packageClause _ => .packageClause
  | .importDecl => .importDecl
  | .importSpec _ _ => .importSpec
  | .funcDecl _ => .funcDecl
  | .typeDecl => .typeDecl
  | .typeSpec _ _ => .typeSpec
  | .constDecl => .constDecl
  | .varDecl => .varDecl
  | .valueSpec _ _ _ => .valueSpec
  | .fieldList => .fieldList
  | .field _ _ _ => .field
  | .structType _ => .structType
  | .interfaceType _ => .interfaceType
  | .methodSpec _ _ _ => .methodSpec
  | .pointerType _ => .pointerType
  | .funcType _ _ => .funcType
  | .block => .block
  | .returnStmt _ => .returnStmt
  | .exprStmt => .exprStmt
  | .assignStmt _ _ _ => .assignStmt
  | .ifStmt _ _ _ _ => .ifStmt
  | .ident _ => .ident
  | .basicLit _ _ => .basicLit
  | .callExpr _ _ => .callExpr
  | .selectorExpr _ _ => .selectorExpr
  | .compositeLit _ _ => .compositeLit
  | .keyValue _ _ => .keyValue
  | .funcLit _ => .funcLit
  | .unaryExpr _ _ => .unaryExpr
  | .other _ => .other

def NodeTag.text : NodeTag → String
  | .file => "File"
  | .packageClause => "PackageClause"
  | .importDecl => "ImportDecl"
  | .importSpec => "ImportSpec"
  | .funcDecl => "FuncDecl"
  | .typeDecl => "TypeDecl"
  | .typeSpec => "TypeSpec"
  | .constDecl => "ConstDecl"
  | .varDecl => "VarDecl"
  | .valueSpec => "ValueSpec"
  | .fieldList => "FieldList"
  | .field => "Field"
  | .structType => "StructType"
  | .interfaceType => "InterfaceType"
  | .methodSpec => "MethodSpec"
  | .pointerType => "PointerType"
  | .funcType => "FuncType"
  | .block => "Block"
  | .returnStmt => "ReturnStmt"
  | .exprStmt => "ExprStmt"
  | .assignStmt => "AssignStmt"
  | .ifStmt => "IfStmt"
  | .ident => "Ident"
  | .basicLit => "BasicLit"
  | .callExpr => "CallExpr"
  | .selectorExpr => "SelectorExpr"
  | .compositeLit => "CompositeLit"
  | .keyValue => "KeyValue"
  | .funcLit => "FuncLit"
  | .unaryExpr => "UnaryExpr"
  | .other => "Other"

def NodeTag.all : List NodeTag :=
  [.file, .packageClause, .importDecl, .importSpec, .funcDecl, .typeDecl, .typeSpec,
    .constDecl, .varDecl, .valueSpec, .fieldList, .field, .structType, .interfaceType,
    .methodSpec, .pointerType, .funcType, .block, .returnStmt, .exprStmt, .assignStmt,
    .ifStmt, .ident, .basicLit, .callExpr, .selectorExpr, .compositeLit, .keyValue,
    .funcLit, .unaryExpr, .other]

def NodeTag.ofText? (word : String) : Option NodeTag :=
  NodeTag.all.find? fun tag => tag.text == word

/-- Coarse classes of nodes. -/
inductive NodeCategory where
  | declaration
  | statement
  | expression
  | type
  | identifier
  | other
  deriving DecidableEq, Repr

def NodeCategory.text : NodeCategory → String
  | .declaration => "Declaration"
  | .statement => "Statement"
  | .expression => "Expression"
  | .type => "Type"
  | .identifier => "Identifier"
  | .other => "Other"

def NodeTag.category : NodeTag → NodeCategory
  | .packageClause | .importDecl | .importSpec | .funcDecl | .typeDecl | .typeSpec
  | .constDecl | .varDecl | .valueSpec => .declaration
  | .block | .returnStmt | .exprStmt | .assignStmt | .ifStmt => .statement
  | .basicLit | .callExpr | .selectorExpr | .compositeLit | .keyValue | .funcLit
  | .unaryExpr => .expression
  | .structType | .interfaceType | .methodSpec | .pointerType | .funcType => .type
  | .ident => .identifier
  | .file | .fieldList | .field | .other => .other

def NodeKind.funcParts? : NodeKind → Option FuncParts
  | .funcDecl parts | .funcLit parts => some parts
  | _ => none

def NodeKind.ident? : NodeKind → Option String
  | .ident name => some name
  | _ => none

structure Node where
  kind : NodeKind
  span : Span
  children : List Nat
  deriving Repr, Inhabited

end Lintel
