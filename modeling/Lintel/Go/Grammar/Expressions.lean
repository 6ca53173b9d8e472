import Lintel.Go.Grammar.Types

/-!
# Expressions

Operands, what may follow them, and operators by precedence. A bracket after an operand
can hold an index, a slice or type arguments; type arguments win where a conversion or a
composite literal follows, and an index wins elsewhere.
-/

namespace Lintel.Go.Grammar

open Lintel.Go.Parser

/-! ### Composite literals -/

def literalElement (g : Grammar) : Parser Concrete := do
  if ← sees "\x7b" then
    return .joining "literal_element" [← g .literalValue]
  else
    return .joining "literal_element" [← g (.expression .enclosed)]

/-- An element, perhaps with a key before it. -/
def keyedElement (g : Grammar) : Parser Concrete := do
  let first ← literalElement g
  if ← sees ":" then
    let colon ← symbol ":"
    return .joining "keyed_element"
      [first.labelled "key", colon, (← literalElement g).labelled "value"]
  else
    return first

def literalValueRule (g : Grammar) : Parser Concrete :=
  return .joining "literal_value" (← between "\x7b" "\x7d" (do
    if ← sees "\x7d" then return []
    else if ← sees "," then return [← symbol ","]
    else commaTerminated (keyedElement g) "\x7d"))

def compositeLiteral (g : Grammar) (type : Concrete) : Parser Concrete := do
  let body ← g .literalValue
  return .joining "composite_literal" [type.labelled "type", body.labelled "body"]

/-! ### Calls and conversions -/

def argument (g : Grammar) : Parser Concrete := do
  let value ← g (.expression .enclosed)
  if ← sees "..." then
    return .joining "variadic_argument" [value, ← symbol "..."]
  else
    return value

def argumentList (g : Grammar) : Parser Concrete :=
  return .joining "argument_list" (← between "(" ")" (do
    if ← sees ")" then return [] else commaTerminated (argument g) ")"))

/-- The argument list of an allocation, which starts with a type. -/
def allocationArguments (g : Grammar) : Parser Concrete :=
  return .joining "argument_list" (← between "(" ")" (do
    if ← sees ")" then return []
    let type ← g (.type false)
    iterate (fun items => do
      if ← sees "," then
        let comma ← symbol ","
        if ← sees ")" then return some (items ++ [comma])
        else return some (items ++ [comma, ← g (.expression .enclosed)])
      else
        return none) [type]))

def conversion (g : Grammar) (type : Concrete) : Parser Concrete := do
  let opening ← symbol "("
  let operand ← g (.expression .enclosed)
  let comma ← if ← sees "," then pure [← symbol ","] else pure []
  let closing ← symbol ")"
  return .joining "type_conversion_expression"
    ([type.labelled "type", opening, operand.labelled "operand"] ++ comma ++ [closing])

/-! ### Brackets after an operand -/

/-- An operand that can be read as a type, read as one: a name or a name of a package. -/
def asTypeName? : Concrete → Option Concrete
  | .node _ "identifier" _ _ span _ => some (.node none "type_identifier" true false span [])
  | .node _ "selector_expression" _ _ _
      [.node _ "identifier" _ _ package _, dot, .node _ _ _ _ member _] =>
    some (.joining "qualified_type"
      [.node (some "package") "package_identifier" true false package [], dot,
        .node (some "name") "type_identifier" true false member []])
  | _ => none

def indexOrSlice (g : Grammar) (operand : Concrete) : Parser Concrete := do
  let opening ← symbol "["
  let start ← if ← sees ":" then pure [] else pure [← g (.expression .enclosed)]
  if ← sees ":" then
    let colon ← symbol ":"
    let head := [operand.labelled "operand", opening] ++ start.map (·.labelled "start") ++ [colon]
    if ← sees "]" then
      return .joining "slice_expression" (head ++ [← symbol "]"])
    let stop ← g (.expression .enclosed)
    if ← sees ":" then
      let second ← symbol ":"
      let capacity ← g (.expression .enclosed)
      return .joining "slice_expression"
        (head ++ [stop.labelled "end", second, capacity.labelled "capacity", ← symbol "]"])
    else
      return .joining "slice_expression" (head ++ [stop.labelled "end", ← symbol "]"])
  else
    return .joining "index_expression"
      ([operand.labelled "operand", opening] ++ start.map (·.labelled "index") ++ [← symbol "]"])

def genericCall (g : Grammar) (operand : Concrete) : Parser Concrete := do
  let types ← typeArguments g
  let args ← argumentList g
  return .joining "call_expression"
    [operand.labelled "function", types.labelled "type_arguments", args.labelled "arguments"]

def genericOperand (g : Grammar) (place : Place) (type : Concrete) : Parser Concrete := do
  let types ← typeArguments g
  let generic := Concrete.joining "generic_type" [type.labelled "type", types.labelled "type_arguments"]
  if place.literals && (← sees "\x7b" place.stops) then compositeLiteral g generic
  else if ← sees "(" place.stops then conversion g generic
  else failure

def typeInstantiation (g : Grammar) (type : Concrete) : Parser Concrete := do
  let types ← between "[" "]" (commaTerminated (g (.type false)) "]")
  return .joining "type_instantiation_expression" (type.labelled "type" :: types)

/-- Whether an expression is a mere name, perhaps in parentheses or behind stars. -/
def isPlainName : Concrete → Bool
  | .node _ "identifier" _ _ _ _ => true
  | .node _ "parenthesized_expression" _ _ _ [_, inner, _] => isPlainName inner
  | .node _ "unary_expression" _ _ _ [.node _ "*" _ _ _ _, inner] => isPlainName inner
  | _ => false

/-- A call whose bracket holds type arguments rather than an index. An index that is a mere
name stays one. -/
def preferredGenericCall (g : Grammar) (operand : Concrete) (indexed : Concrete) :
    Parser Concrete :=
  if (indexed.children.filter fun child => child.label == some "index").any isPlainName then failure
  else genericCall g operand

/-- What a bracket after an operand makes of it. -/
def bracketed (g : Grammar) (place : Place) (operand : Concrete) : Parser Concrete := do
  let start ← get
  let typed : Parser Concrete :=
    match asTypeName? operand with
    | some type => genericOperand g place type
    | none => failure
  match ← attempt? (indexOrSlice g operand) with
  | some indexed =>
    let followed := (← sees "(" place.stops) || (place.literals && (← sees "\x7b" place.stops))
    if indexed.kind == "index_expression" && followed then
      (do set start; typed <|> preferredGenericCall g operand indexed) <|> return indexed
    else
      return indexed
  | none =>
    match asTypeName? operand with
    | some type => typed <|> genericCall g operand <|> typeInstantiation g type
    | none => genericCall g operand

/-! ### Operands -/

def functionLiteral (g : Grammar) : Parser Concrete := do
  let word ← symbol "func"
  let params ← g .parameters
  let outcome ← result g false
  let body ← g .block
  return .joining "func_literal"
    ([word, params.labelled "parameters"] ++ outcome ++ [body.labelled "body"])

/-- A composite literal of an array whose length is counted. -/
def countedLiteral (g : Grammar) (place : Place) : Parser Concrete := do
  let opening ← symbol "["
  let dots ← symbol "..."
  let closing ← symbol "]"
  let element ← g (.type place.stops)
  compositeLiteral g
    (.joining "implicit_length_array_type" [opening, dots, closing, element.labelled "element"])

/-- An operand that starts with a type: a composite literal or a conversion. -/
def typeLed (g : Grammar) (place : Place) : Parser Concrete := do
  if ← seesAll ["[", "..."] then countedLiteral g place
  else
    let type ← g (.type place.stops)
    let composite := ["map_type", "slice_type", "array_type", "struct_type"].contains type.kind
    if composite && (← sees "\x7b" place.stops) then compositeLiteral g type
    else if ← sees "(" place.stops then conversion g type
    else failure

/-- Whether a type is more than a name, perhaps of a package, in parentheses or behind stars. -/
def isBuiltType : Concrete → Bool
  | .node _ "type_identifier" _ _ _ _ => false
  | .node _ "qualified_type" _ _ _ _ => false
  | .node _ "parenthesized_type" _ _ _ [_, inner, _] => isBuiltType inner
  | .node _ "pointer_type" _ _ _ [_, inner] => isBuiltType inner
  | _ => true

/-- A conversion to a type in parentheses or behind a star. A mere name there is an operand. -/
def builtConversion (g : Grammar) (place : Place) : Parser Concrete := do
  let type ← g (.type place.stops)
  if isBuiltType type && (← sees "(" place.stops) then conversion g type else failure

def parenthesized (g : Grammar) (place : Place) : Parser Concrete :=
  builtConversion g place <|> do
    let opening ← symbol "("
    let inner ← g (.expression .enclosed)
    return .joining "parenthesized_expression" [opening, inner, ← symbol ")"]

def constantNames : List String := ["nil", "true", "false", "iota"]

/-- A name as an operand; the allocating words take a type first. -/
def nameOperand (g : Grammar) (place : Place) : Parser Concrete := do
  let t ← next
  if constantNames.contains t.text then
    return namedLeaf t.text t
  let word := namedLeaf "identifier" t
  if (t.text == "new" || t.text == "make") && (← sees "(" place.stops) then
    let args ← allocationArguments g
    return .joining "call_expression" [word.labelled "function", args.labelled "arguments"]
  else
    return word

def operand (g : Grammar) (place : Place) : Parser Concrete := do
  match ← peek? with
  | none => failure
  | some t =>
    match t.kind with
    | .name => nameOperand g place
    | .int => return namedLeaf "int_literal" (← next)
    | .float => return namedLeaf "float_literal" (← next)
    | .imaginary => return namedLeaf "imaginary_literal" (← next)
    | .rune => return namedLeaf "rune_literal" (← next)
    | .string | .rawString => stringLiteral
    | .symbol =>
      match t.text with
      | "(" => parenthesized g place
      | "func" => functionLiteral g
      | "[" | "map" | "chan" | "<-" | "struct" | "interface" | "~" => typeLed g place
      | _ => failure

/-- One thing that follows an operand, if there is one. -/
def follow (g : Grammar) (place : Place) (e : Concrete) : Parser (Option Concrete) := do
  match ← peekOn place.stops with
  | none => return none
  | some t =>
    if t.kind != .symbol then return none
    match t.text with
    | "." => do
      if ← seesAll [".", "(", "type", ")"] then return none
      let dot ← symbol "."
      if ← sees "(" then
        let opening ← symbol "("
        let type ← g (.type false)
        return some (.joining "type_assertion_expression"
          [e.labelled "operand", dot, opening, type.labelled "type", ← symbol ")"])
      else
        let member ← name "field_identifier"
        return some (.joining "selector_expression"
          [e.labelled "operand", dot, member.labelled "field"])
    | "(" => do
      let args ← argumentList g
      return some (.joining "call_expression" [e.labelled "function", args.labelled "arguments"])
    | "[" => return some (← bracketed g place e)
    | "\x7b" =>
      match if place.literals then asTypeName? e else none with
      | some type => return some (← compositeLiteral g type)
      | none => return none
    | _ => return none

def primary (g : Grammar) (place : Place) (first : Parser Concrete) : Parser Concrete := do
  let e ← iterate (follow g place) (← first)
  if !place.leads then cutOperator ["++", "--", "<-"]
  return e

def unaryOperators : List String := ["+", "-", "!", "^", "*", "&", "<-"]

/-- An operand behind any number of operators. An arrow before a channel type belongs to it,
and so does a star before the type of a conversion. No operator of two characters but the
arrow can stand before an operand, and no step or arrow can follow one inside a statement, so
that such a token is really two there. -/
def unaryRule (g : Grammar) (place : Place) : Parser Concrete := do
  cutOperator ["++", "--", "&&", "&^"]
  if (← seesAny unaryOperators) && !(← seesAll ["<-", "chan"]) then
    match ← attempt? (do if ← sees "*" then builtConversion g place else failure) with
    | some converted => primary g place (pure converted)
    | none =>
      let op := leaf (← next)
      let inner ← g (.unary place)
      return .joining "unary_expression" [op.labelled "operator", inner.labelled "operand"]
  else
    primary g place (operand g place)

/-- The operators between operands, those that bind tightest first. -/
def binaryOperators : List (List String) :=
  [["*", "/", "%", "<<", ">>", "&", "&^"], ["+", "-", "|", "^"],
    ["==", "!=", "<", "<=", ">", ">="], ["&&"], ["||"]]

/-- Operands with operators between them, up to a level of precedence; operators of one
level group to the left. The levels are given from the loosest to the tightest. -/
def binary (g : Grammar) (place : Place) : List (List String) → Parser Concrete
  | [] => g (.unary place)
  | ops :: tighter => do
    let first ← binary g place tighter
    iterate (fun left => do
      if ← seesAny ops place.stops then
        let op := leaf (← next)
        let right ← binary g place tighter
        return some (.joining "binary_expression"
          [left.labelled "left", op.labelled "operator", right.labelled "right"])
      else
        return none) first

def expressionRule (g : Grammar) (place : Place) : Parser Concrete :=
  binary g place binaryOperators.reverse

end Lintel.Go.Grammar
