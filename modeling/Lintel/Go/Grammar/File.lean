import Lintel.Go.Grammar.Statements

/-!
# Source files

A file is a sequence of statements and of declarations that can only stand at the top,
all with terminators after them. The end of the text is a terminator too.
-/

namespace Lintel.Go.Grammar

open Lintel.Go.Parser

def packageClause : Parser Concrete := do
  let word ← symbol "package"
  return .joining "package_clause" [word, ← name "package_identifier"]

def importSpec : Parser Concrete := do
  match ← peek? with
  | none => failure
  | some t =>
    if isSymbol "." t then
      let dot := namedLeaf "dot" (← next)
      return .joining "import_spec" [dot.labelled "name", (← stringLiteral).labelled "path"]
    else if t.kind == .name then
      let word ← next
      let kind := if word.text == "_" then "blank_identifier" else "package_identifier"
      return .joining "import_spec"
        [(namedLeaf kind word).labelled "name", (← stringLiteral).labelled "path"]
    else
      return .joining "import_spec" [(← stringLiteral).labelled "path"]

def importDeclaration : Parser Concrete := do
  let word ← symbol "import"
  if ← sees "(" then
    let specs ← between "(" ")" (separatedItems importSpec ")")
    return .joining "import_declaration" [word, .joining "import_spec_list" specs]
  else
    return .joining "import_declaration" [word, ← importSpec]

/-- The parameters, the result and the body of a declared function. -/
def signature (g : Grammar) : Parser (List Concrete) := do
  let params ← g .parameters
  let outcome ← result g true
  let body ← if ← sees "\x7b" true then pure [(← g .block).labelled "body"] else pure []
  return params.labelled "parameters" :: outcome ++ body

def functionDeclaration (g : Grammar) : Parser Concrete := do
  let word ← symbol "func"
  let called ← name "identifier"
  let types ← if ← sees "[" then pure [(← typeParameters g).labelled "type_parameters"] else pure []
  return .joining "function_declaration"
    ([word, called.labelled "name"] ++ types ++ (← signature g))

def methodDeclaration (g : Grammar) : Parser Concrete := do
  let word ← symbol "func"
  let receiver ← g .parameters
  let called ← name "field_identifier"
  return .joining "method_declaration"
    ([word, receiver.labelled "receiver", called.labelled "name"] ++ (← signature g))

def topLevel (g : Grammar) : Parser Concrete := do
  match ← peek? with
  | none => failure
  | some t =>
    if isSymbol "package" t then packageClause
    else if isSymbol "import" t then importDeclaration
    else if isSymbol "func" t then functionDeclaration g <|> methodDeclaration g <|> g .statement
    else g .statement

def fileItems (g : Grammar) : Parser (List Concrete) :=
  iterate (fun items => do
    if (← peek?).isNone then return none
    let item ← topLevel g
    return some (items ++ [item, ← terminator])) []

def rule (g : Grammar) : Goal → Parser Concrete
  | .type stops => typeRule g stops
  | .unary place => unaryRule g place
  | .expression place => expressionRule g place
  | .parameters => parametersRule g
  | .literalValue => literalValueRule g
  | .block => blockRule g
  | .statement => statementRule g
  | .ifStatement => ifStatementRule g

def upTo : Nat → Grammar
  | 0 => fun _ => failure
  | depth + 1 => rule (upTo depth)

end Lintel.Go.Grammar

namespace Lintel.Go

/-- Puts a terminator that stands for the end of a text there. -/
def Concrete.endingAt (stop : Nat) (c : Concrete) : Concrete :=
  if c.kind.isEmpty then .node none "" false false ⟨stop, stop⟩ [] else c

open Grammar in
/-- Reads a Go file. A goal is reached from another one without reading a token only a
few times in a row, so that the number of tokens bounds the depth. -/
def Concrete.ofText? (text : String) : Option Concrete := do
  let lexemes ← lex text
  let tokens := tokensOf none lexemes
  let (items, rest) ← (fileItems (upTo (8 * tokens.length + 8))).run tokens
  if rest.isEmpty then
    let stop := Text.byteLength text
    some (.node none "source_file" true false ⟨contentStart text lexemes, stop⟩
      (items.map (Concrete.endingAt stop)))
  else
    none

end Lintel.Go
