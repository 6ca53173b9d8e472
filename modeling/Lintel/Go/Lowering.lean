import Lintel.Go.Grammar.File
import Lintel.Tree.Basic

/-!
# From concrete syntax to trees

Lowering drops tokens and comments, splices nodes that only group others into their
parents, and gives every other node a place in the arena, children first. A spliced
node hands its label down to children without one. The single result of a function is
wrapped into a field list, and the type of an embedded pointer field into a pointer
type, so that rules meet one form only.
-/

namespace Lintel.Go

open Lintel.Text

/-- A lowered child: its label and its kind in the grammar, its range, and its place. -/
structure Lowered where
  label : Option String
  kind : String
  span : Span
  id : Nat
  deriving Repr

/-- The kinds of nodes that only group others. -/
def groupKinds : List String :=
  ["statement_list", "expression_list", "argument_list", "import_spec_list", "var_spec_list",
    "literal_element"]

def isSpliced (parent kind : String) : Bool :=
  groupKinds.contains kind || (kind == "literal_value" && parent == "composite_literal")

/-- The kind of a node whose content is its text. -/
def leafKind? (kind text : String) : Option NodeKind :=
  match kind with
  | "identifier" | "field_identifier" | "type_identifier" | "package_identifier" | "label_name"
  | "blank_identifier" | "dot" | "nil" | "true" | "false" | "iota" => some (.ident text)
  | "int_literal" => some (.basicLit .int text)
  | "float_literal" => some (.basicLit .float text)
  | "imaginary_literal" => some (.basicLit .imaginary text)
  | "rune_literal" => some (.basicLit .rune text)
  | "interpreted_string_literal" => some (.basicLit .string text)
  | "raw_string_literal" => some (.basicLit .rawString text)
  | _ => none

def labelled? (children : List Lowered) (label : String) : Option Nat :=
  (children.find? fun c => c.label == some label).map (·.id)

def allLabelled (children : List Lowered) (label : String) : List Nat :=
  (children.filter fun c => c.label == some label).map (·.id)

def labelledText? (file : SourceFile) (children : List Lowered) (label : String) : Option String :=
  (children.find? fun c => c.label == some label).map fun c => file.text c.span.start c.span.stop

def unquote (text : String) : String :=
  String.ofList (trimBoth (fun c => c == '"' || c.toNat == 0x60) text.toList)

def funcParts? (children : List Lowered) : Option FuncParts :=
  (labelled? children "parameters").map fun params =>
    { name := labelled? children "name"
      receiver := labelled? children "receiver"
      params := params
      results := labelled? children "result"
      body := labelled? children "body" }

/-- The kind of a node, by its kind in the grammar, its children, and the text of the
operator among them. -/
def kindOf? (file : SourceFile) (kind : String) (operator : Option String)
    (children : List Lowered) : Option NodeKind :=
  match kind with
  | "source_file" => some .file
  | "package_clause" =>
    children.head?.map fun c => .packageClause (file.text c.span.start c.span.stop)
  | "import_declaration" => some .importDecl
  | "import_spec" =>
    (labelledText? file children "path").map fun path =>
      .importSpec (unquote path) (labelledText? file children "name")
  | "function_declaration" | "method_declaration" => (funcParts? children).map .funcDecl
  | "func_literal" => (funcParts? children).map .funcLit
  | "parameter_list" | "field_declaration_list" => some .fieldList
  | "parameter_declaration" | "variadic_parameter_declaration" =>
    (labelled? children "type").map fun type => .field (allLabelled children "name") type none
  | "field_declaration" =>
    (labelled? children "type").map fun type =>
      .field (allLabelled children "name") type (labelledText? file children "tag")
  | "type_declaration" => some .typeDecl
  | "type_spec" | "type_alias" => do
    return .typeSpec (← labelled? children "name") (← labelled? children "type")
  | "const_declaration" => some .constDecl
  | "var_declaration" => some .varDecl
  | "const_spec" | "var_spec" =>
    some (.valueSpec (allLabelled children "name") (labelled? children "type")
      (allLabelled children "value"))
  | "struct_type" =>
    (children.find? fun c => c.kind == "field_declaration_list").map fun c => .structType c.id
  | "interface_type" => some (.interfaceType (children.map (·.id)))
  | "method_elem" | "method_spec" => do
    return .methodSpec (← labelled? children "name") (← labelled? children "parameters")
      (labelled? children "result")
  | "pointer_type" => children.head?.map fun c => .pointerType c.id
  | "function_type" =>
    (labelled? children "parameters").map fun params =>
      .funcType params (labelled? children "result")
  | "block" => some .block
  | "return_statement" => some (.returnStmt (children.map (·.id)))
  | "expression_statement" => some .exprStmt
  | "assignment_statement" =>
    some (.assignStmt (allLabelled children "left") (allLabelled children "right") false)
  | "short_var_declaration" =>
    some (.assignStmt (allLabelled children "left") (allLabelled children "right") true)
  | "if_statement" => do
    return .ifStmt (labelled? children "initializer") (← labelled? children "condition")
      (← labelled? children "consequence") (labelled? children "alternative")
  | "call_expression" =>
    (labelled? children "function").map fun callee =>
      .callExpr callee (allLabelled children "arguments")
  | "selector_expression" => do
    return .selectorExpr (← labelled? children "operand") (← labelled? children "field")
  | "qualified_type" => do
    return .selectorExpr (← labelled? children "package") (← labelled? children "name")
  | "composite_literal" =>
    some (.compositeLit (labelled? children "type") (allLabelled children "body"))
  | "literal_value" => some (.compositeLit none (children.map (·.id)))
  | "keyed_element" =>
    match children with
    | [key, value] => some (.keyValue key.id value.id)
    | _ => none
  | "unary_expression" => do
    return .unaryExpr (← operator) (← labelled? children "operand")
  | _ => none

/-! ### Wrapping -/

/-- The kinds of nodes whose result is wrapped. -/
def hasResult (kind : String) : Bool :=
  ["function_declaration", "method_declaration", "func_literal", "method_elem", "method_spec",
    "function_type"].contains kind

def replaceFirst (test : Lowered → Bool) (replacement : Lowered) : List Lowered → List Lowered
  | [] => []
  | c :: rest => if test c then replacement :: rest else c :: replaceFirst test replacement rest

def wrapResult (children : List Lowered) (arena : Array Node) : List Lowered × Array Node :=
  let bare (c : Lowered) : Bool := c.label == some "result" && c.kind != "parameter_list"
  match children.find? bare with
  | none => (children, arena)
  | some c =>
    let field := arena.size
    let arena := arena.push ⟨.field [] c.id none, c.span, [c.id]⟩
    let list := arena.size
    let arena := arena.push ⟨.fieldList, c.span, [field]⟩
    (replaceFirst bare { c with kind := "parameter_list", id := list } children, arena)

def wrapPointer (tokens : List Concrete) (children : List Lowered) (arena : Array Node) :
    List Lowered × Array Node :=
  let isType (c : Lowered) : Bool := c.label == some "type"
  match tokens.head?, children.find? isType with
  | some star, some c =>
    if star.kind == "*" then
      let span : Span := ⟨star.span.start, c.span.stop⟩
      let pointer := arena.size
      let arena := arena.push ⟨.pointerType c.id, span, [c.id]⟩
      (replaceFirst isType { c with kind := "pointer_type", span := span, id := pointer } children,
        arena)
    else
      (children, arena)
  | _, _ => (children, arena)

def wrapChildren (kind : String) (tokens : List Concrete) (children : List Lowered)
    (arena : Array Node) : List Lowered × Array Node :=
  if hasResult kind then wrapResult children arena
  else if kind == "field_declaration" then wrapPointer tokens children arena
  else (children, arena)

/-! ### Lowering -/

def operatorText? (file : SourceFile) (tokens : List Concrete) : Option String :=
  (tokens.find? fun c => c.label == some "operator").map fun c => file.text c.span.start c.span.stop

/-- Adds a node over lowered children to an arena. -/
def addNode (file : SourceFile) (kind : String) (span : Span) (tokens : List Concrete)
    (children : List Lowered) (arena : Array Node) : Nat × Array Node :=
  let (children, arena) := wrapChildren kind tokens children arena
  let nodeKind := (kindOf? file kind (operatorText? file tokens) children).getD (.other kind)
  (arena.size, arena.push ⟨nodeKind, span, children.map (·.id)⟩)

mutual

/-- Adds a concrete node and what is below it to an arena. The answer lists the nodes
that take its place among the children of its parent: none for a token, several for a
spliced node, and one otherwise. -/
def lowerNode (file : SourceFile) (parent : String) (inherited : Option String) :
    Concrete → Array Node → List Lowered × Array Node
  | .node label kind named extra span tokens, arena =>
    if !named || extra || kind == "comment" then
      ([], arena)
    else if isSpliced parent kind then
      lowerNodes file kind (label.or inherited) tokens arena
    else
      match leafKind? kind (file.text span.start span.stop) with
      | some leaf =>
        ([⟨label.or inherited, kind, span, arena.size⟩], arena.push ⟨leaf, span, []⟩)
      | none =>
        let (children, arena) := lowerNodes file kind none tokens arena
        let (id, arena) := addNode file kind span tokens children arena
        ([⟨label.or inherited, kind, span, id⟩], arena)

/-- Adds the children of a concrete node of kind `parent` to an arena; children without a
label take the inherited one. -/
def lowerNodes (file : SourceFile) (parent : String) (inherited : Option String) :
    List Concrete → Array Node → List Lowered × Array Node
  | [], arena => ([], arena)
  | c :: rest, arena =>
    let (first, arena) := lowerNode file parent inherited c arena
    let (others, arena) := lowerNodes file parent inherited rest arena
    (first ++ others, arena)

end

/-- The arena of a concrete syntax tree; its root has a place whatever it is. -/
def arenaOf (file : SourceFile) : Concrete → Array Node
  | .node _ kind _ _ span tokens =>
    match leafKind? kind (file.text span.start span.stop) with
    | some leaf => #[⟨leaf, span, []⟩]
    | none =>
      let (children, arena) := lowerNodes file kind none tokens #[]
      (addNode file kind span tokens children arena).2

inductive ParseError where
  | malformed
  | tree (error : TreeError)
  deriving DecidableEq, Repr

def ParseError.message : ParseError → String
  | .malformed => "syntax error"
  | .tree error => "invalid syntax tree: " ++ error.message

def parseWith (read : String → Option Concrete) (file : SourceFile) : Except ParseError Tree :=
  match read file.content with
  | none => .error .malformed
  | some root =>
    match Tree.ofNodes file (arenaOf file root) with
    | .ok tree => .ok tree
    | .error e => .error (.tree e)

def parse (file : SourceFile) : Except ParseError Tree :=
  parseWith Concrete.ofText? file

end Lintel.Go
