import Lintel.Go.Grammar.Expressions

/-!
# Statements and declarations

A statement list holds statements with terminators between them. In the header of an
`if`, `for` or `switch` a type name before a brace starts the block and no composite
literal, unless a semicolon or more of the header must still come.
-/

namespace Lintel.Go.Grammar

open Lintel.Go.Parser

/-! ### Declarations -/

def assignedValues (g : Grammar) : Parser (List Concrete) := do
  let equals ← symbol "="
  return [equals, (← expressionList g .plain).labelled "value"]

def declaredNames : Parser (List Concrete) :=
  commaSeparated (return (← name "identifier").labelled "name") true

def constSpec (g : Grammar) : Parser Concrete := do
  let names ← commaSeparated (return (← name "identifier").labelled "name") true
  if (← peekOn true).isNone || (← seesAny [";", ")", "\x7d"]) then
    return .joining "const_spec" names
  if ← sees "=" then
    return .joining "const_spec" (names ++ (← assignedValues g))
  else
    let type ← g (.type true)
    return .joining "const_spec" (names ++ [type.labelled "type"] ++ (← assignedValues g))

def varSpec (g : Grammar) : Parser Concrete := do
  let names ← commaSeparated (return (← name "identifier").labelled "name")
  if ← sees "=" then
    return .joining "var_spec" (names ++ (← assignedValues g))
  else
    let type ← g (.type true)
    let values ← if ← sees "=" true then assignedValues g else pure []
    return .joining "var_spec" (names ++ [type.labelled "type"] ++ values)

/-- A type name with what it stands for. An array type is preferred to type parameters. -/
def typeSpec (g : Grammar) : Parser Concrete := do
  let word := (← name "type_identifier").labelled "name"
  let plain : Parser Concrete := do
    if ← sees "=" then
      let equals ← symbol "="
      return .joining "type_alias" [word, equals, (← g (.type true)).labelled "type"]
    else
      return .joining "type_spec" [word, (← g (.type true)).labelled "type"]
  let generic : Parser Concrete := do
    let params := (← typeParameters g).labelled "type_parameters"
    if ← sees "=" then
      let equals ← symbol "="
      return .joining "type_alias" [word, params, equals, (← g (.type true)).labelled "type"]
    else
      return .joining "type_spec" [word, params, (← g (.type true)).labelled "type"]
  if ← sees "[" then plain <|> generic else plain

def constDeclaration (g : Grammar) : Parser Concrete := do
  let word ← symbol "const"
  if ← sees "(" then
    return .joining "const_declaration"
      (word :: (← between "(" ")" (terminatedItems (constSpec g) ")")))
  else
    return .joining "const_declaration" [word, ← constSpec g]

def varDeclaration (g : Grammar) : Parser Concrete := do
  let word ← symbol "var"
  if ← sees "(" then
    let specs ← between "(" ")" (terminatedItems (varSpec g) ")")
    return .joining "var_declaration" [word, .joining "var_spec_list" specs]
  else
    return .joining "var_declaration" [word, ← varSpec g]

def typeDeclaration (g : Grammar) : Parser Concrete := do
  let word ← symbol "type"
  if ← sees "(" then
    return .joining "type_declaration"
      (word :: (← between "(" ")" (separatedItems (typeSpec g) ")")))
  else
    return .joining "type_declaration" [word, ← typeSpec g]

/-! ### Simple statements -/

def assignmentOperators : List String :=
  ["=", "*=", "/=", "%=", "<<=", ">>=", "&=", "&^=", "+=", "-=", "|=", "^="]

/-- What follows the first expressions of a simple statement. -/
def simpleRest (g : Grammar) (rest : Place) (first : Concrete) : Parser Concrete := do
  let single := first.children.length == 1
  if ← sees ":=" rest.stops then
    let op ← symbol ":="
    return .joining "short_var_declaration"
      [first.labelled "left", op, (← expressionList g rest).labelled "right"]
  else if ← seesAny assignmentOperators rest.stops then
    let op := leaf (← next)
    return .joining "assignment_statement"
      [first.labelled "left", op.labelled "operator", (← expressionList g rest).labelled "right"]
  else if !single then
    failure
  else
    let only := first.children.headD first
    if ← sees "++" rest.stops then
      return .joining "inc_statement" [only, ← symbol "++"]
    else if ← sees "--" rest.stops then
      return .joining "dec_statement" [only, ← symbol "--"]
    else if ← sees "<-" rest.stops then
      let arrow ← symbol "<-"
      return .joining "send_statement"
        [only.labelled "channel", arrow, (← g (.expression rest)).labelled "value"]
    else
      return .joining "expression_statement" [only]

def simpleStatement (g : Grammar) (start rest : Place) : Parser Concrete := do
  simpleRest g rest (← expressionList g start.leading)

/-! ### Statement lists -/

def seesListEnd : Parser Bool :=
  seesAny ["\x7d", "case", "default"]

/-- A label with nothing behind it but the end of the list. -/
def emptyLabel : Parser Concrete := do
  let label ← name "label_name"
  let colon ← symbol ":"
  if ← seesListEnd then
    return .joining "labeled_statement" [label.labelled "label", colon]
  else
    failure

/-- Statements with terminators between them and perhaps one after them. -/
def statementList (g : Grammar) : Parser (List Concrete) := do
  if ← seesListEnd then return []
  let item : Parser Concrete := emptyLabel <|> g .statement
  let first ← item
  let items ← iterate (fun items => do
    match ← attempt? terminator with
    | none => return none
    | some ending =>
      if ← seesListEnd then return some (items ++ [ending])
      else return some (items ++ [ending, ← item])) [first]
  return [.joining "statement_list" items]

def blockRule (g : Grammar) : Parser Concrete :=
  return .joining "block" (← between "\x7b" "\x7d" (statementList g))

/-! ### Headers and cases -/

def ifStatementRule (g : Grammar) : Parser Concrete := do
  let word ← symbol "if"
  let first ← expressionList g Place.beforeBlock.leading
  let header ←
    if ← sees "\x7b" then
      if first.children.length == 1 then
        pure (first.children.map (·.labelled "condition"))
      else
        failure
    else
      let init ← simpleRest g .enclosed first
      let semicolon ← symbol ";"
      let condition ← g (.expression .beforeBlock)
      pure [init.labelled "initializer", semicolon, condition.labelled "condition"]
  let body ← g .block
  let alternative ←
    if ← sees "else" true then
      let orElse ← symbol "else"
      let branch ← if ← sees "if" then g .ifStatement else g .block
      pure [orElse, branch.labelled "alternative"]
    else
      pure []
  return .joining "if_statement" (word :: header ++ [body.labelled "consequence"] ++ alternative)

def forClause (g : Grammar) (init : List Concrete) : Parser Concrete := do
  let first ← symbol ";"
  let condition ←
    if ← sees ";" then pure [] else pure [(← g (.expression .enclosed)).labelled "condition"]
  let second ← symbol ";"
  let update ←
    if ← sees "\x7b" then pure []
    else pure [(← simpleStatement g .beforeBlock .beforeBlock).labelled "update"]
  return .joining "for_clause"
    (init.map (·.labelled "initializer") ++ [first] ++ condition ++ [second] ++ update)

def forHeader (g : Grammar) : Parser (List Concrete) := do
  if ← sees "\x7b" then return []
  if ← sees ";" then return [← forClause g []]
  if ← sees "range" then
    let word ← symbol "range"
    return [.joining "range_clause" [word, (← g (.expression .beforeBlock)).labelled "right"]]
  let first ← expressionList g Place.beforeBlock.leading
  if (← seesAll ["=", "range"]) || (← seesAll [":=", "range"]) then
    let op := leaf (← next)
    let word ← symbol "range"
    return [.joining "range_clause"
      [first.labelled "left", op, word, (← g (.expression .beforeBlock)).labelled "right"]]
  if ← sees "\x7b" then
    if first.children.length == 1 then return first.children else failure
  let init ← simpleRest g .enclosed first
  return [← forClause g [init]]

def forStatement (g : Grammar) : Parser Concrete := do
  let word ← symbol "for"
  let header ← forHeader g
  return .joining "for_statement" (word :: header ++ [(← g .block).labelled "body"])

def caseClause (g : Grammar) (kind : String) (values : Parser (List Concrete)) : Parser Concrete := do
  let word ← symbol "case"
  let listed ← values
  let colon ← symbol ":"
  return .joining kind (word :: listed ++ [colon] ++ (← statementList g))

def defaultClause (g : Grammar) : Parser Concrete := do
  let word ← symbol "default"
  let colon ← symbol ":"
  return .joining "default_case" ([word, colon] ++ (← statementList g))

def caseBlock (g : Grammar) (clause : Parser Concrete) : Parser (List Concrete) :=
  between "\x7b" "\x7d" (iterate (fun items => do
    if ← sees "case" then return some (items ++ [← clause])
    else if ← sees "default" then return some (items ++ [← defaultClause g])
    else return none) [])

def expressionCase (g : Grammar) : Parser Concrete :=
  caseClause g "expression_case" (return [(← expressionList g .enclosed).labelled "value"])

def typeCase (g : Grammar) : Parser Concrete :=
  caseClause g "type_case" (commaSeparated (return (← g (.type false)).labelled "type"))

/-- The header of a switch behind its first statement: what it switches over, and whether
that is a type. -/
def switchSubject (g : Grammar) (first : Concrete) : Parser (List Concrete × Bool) := do
  let typeMark : Parser (List Concrete) :=
    return [← symbol ".", ← symbol "(", ← symbol "type", ← symbol ")"]
  let single := first.children.length == 1
  if single && (← seesAll [".", "(", "type", ")"]) then
    return (first.children.map (·.labelled "value") ++ (← typeMark), true)
  else if ← sees ":=" then
    let op ← symbol ":="
    let value ← g (.expression .enclosed)
    return ([first.labelled "alias", op, value.labelled "value"] ++ (← typeMark), true)
  else if single && (← sees "\x7b") then
    return (first.children.map (·.labelled "value"), false)
  else
    failure

/-- The header of a switch, and whether it switches over a type. -/
def switchHeader (g : Grammar) : Parser (List Concrete × Bool) := do
  if ← sees "\x7b" then return ([], false)
  let direct : Parser (List Concrete × Bool) := do
    switchSubject g (← expressionList g Place.beforeBlock.leading)
  let afterInit : Parser (List Concrete × Bool) := do
    let init ← simpleStatement g .beforeBlock .enclosed
    let semicolon ← symbol ";"
    let start := [init.labelled "initializer", semicolon]
    if ← sees "\x7b" then return (start, false)
    let (subject, isType) ← switchSubject g (← expressionList g .beforeBlock)
    return (start ++ subject, isType)
  direct <|> afterInit

def switchStatement (g : Grammar) : Parser Concrete := do
  let word ← symbol "switch"
  let (header, isType) ← switchHeader g
  if isType then
    return .joining "type_switch_statement" (word :: header ++ (← caseBlock g (typeCase g)))
  else
    return .joining "expression_switch_statement" (word :: header ++ (← caseBlock g (expressionCase g)))

def communication (g : Grammar) : Parser (List Concrete) := do
  let first ← expressionList g Place.enclosed.leading
  if ← seesAny ["=", ":="] then
    let op := leaf (← next)
    let value ← g (.expression .enclosed)
    return [(Concrete.joining "receive_statement"
      [first.labelled "left", op, value.labelled "right"]).labelled "communication"]
  if first.children.length != 1 then failure
  let only := first.children.headD first
  if ← sees "<-" then
    let arrow ← symbol "<-"
    let value ← g (.expression .enclosed)
    return [(Concrete.joining "send_statement"
      [only.labelled "channel", arrow, value.labelled "value"]).labelled "communication"]
  else
    return [(Concrete.joining "receive_statement" [only.labelled "right"]).labelled "communication"]

def selectStatement (g : Grammar) : Parser Concrete := do
  let word ← symbol "select"
  return .joining "select_statement"
    (word :: (← caseBlock g (caseClause g "communication_case" (communication g))))

/-! ### Statements -/

def startsExpression (t : Token) : Bool :=
  t.kind != .symbol
    || ["(", "[", "func", "map", "chan", "struct", "interface", "~", "+", "-", "!", "^", "*", "&",
      "<-", "++", "--", "&&", "&^"].any fun s => isSymbol s t

/-- A jump with a label, if one stands on its line. -/
def jump (word kind : String) : Parser Concrete := do
  let keyword ← symbol word
  if ← seesName true then
    return .joining kind [keyword, ← name "label_name"]
  else
    return .joining kind [keyword]

def returnStatement (g : Grammar) : Parser Concrete := do
  let word ← symbol "return"
  if (← peekOn true).any startsExpression then
    return .joining "return_statement" [word, ← expressionList g .plain]
  else
    return .joining "return_statement" [word]

def labeledStatement (g : Grammar) : Parser Concrete := do
  let label ← name "label_name"
  if !(← sees ":" true) then failure
  let colon ← symbol ":"
  return .joining "labeled_statement" [label.labelled "label", colon, ← g .statement]

def launched (g : Grammar) (word kind : String) : Parser Concrete := do
  let keyword ← symbol word
  return .joining kind [keyword, ← g (.expression .plain)]

def statementRule (g : Grammar) : Parser Concrete := do
  match ← peek? with
  | none => failure
  | some t =>
    if t.kind == .name then
      labeledStatement g <|> simpleStatement g .plain .plain
    else if t.kind != .symbol then
      simpleStatement g .plain .plain
    else match t.text with
      | "const" => constDeclaration g
      | "var" => varDeclaration g
      | "type" => typeDeclaration g
      | "return" => returnStatement g
      | "go" => launched g "go" "go_statement"
      | "defer" => launched g "defer" "defer_statement"
      | "if" => g .ifStatement
      | "for" => forStatement g
      | "switch" => switchStatement g
      | "select" => selectStatement g
      | "fallthrough" => do return .joining "fallthrough_statement" [← symbol "fallthrough"]
      | "break" => jump "break" "break_statement"
      | "continue" => jump "continue" "continue_statement"
      | "goto" => do
        let keyword ← symbol "goto"
        return .joining "goto_statement" [keyword, ← name "label_name"]
      | "\x7b" => g .block
      | ";" => return .joining "empty_statement" [← symbol ";"]
      | _ => simpleStatement g .plain .plain

end Lintel.Go.Grammar
