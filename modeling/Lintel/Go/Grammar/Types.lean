import Lintel.Go.Grammar.Parser

/-!
# Type expressions

The rules for types, for the fields of structs and interfaces, and for parameter lists.
In a parameter list and in a struct a name may be a type of its own or be followed by
one; a name before a bracket is read as a name with an array type if that is possible.
-/

namespace Lintel.Go.Grammar

open Lintel.Go.Parser

def startsSimpleType (t : Token) : Bool :=
  t.kind == .name
    || ["*", "[", "struct", "interface", "map", "chan", "<-", "func", "~"].any fun s => isSymbol s t

def typeElem (g : Grammar) (stops : Bool) (kind : String) : Parser Concrete := do
  let first ← g (.type stops)
  return .joining kind (← iterate (fun items => do
    if ← sees "|" stops then
      let bar ← symbol "|"
      return some (items ++ [bar, ← g (.type stops)])
    else
      return none) [first])

def typeArguments (g : Grammar) : Parser Concrete :=
  return .joining "type_arguments"
    (← between "[" "]" (commaTerminated (typeElem g false "type_elem") "]"))

def typeName (stops : Bool) : Parser Concrete := do
  let first ← next
  if first.kind != .name then failure
  if ← sees "." stops then
    let dot ← symbol "."
    let last ← name "type_identifier"
    return .joining "qualified_type"
      [(namedLeaf "package_identifier" first).labelled "package", dot, last.labelled "name"]
  else
    return namedLeaf "type_identifier" first

def namedType (g : Grammar) (stops : Bool) : Parser Concrete := do
  let base ← typeName stops
  if ← sees "[" stops then
    match ← attempt? (typeArguments g) with
    | some args =>
      return .joining "generic_type" [base.labelled "type", args.labelled "type_arguments"]
    | none => return base
  else
    return base

def arrayType (g : Grammar) (stops : Bool) : Parser Concrete := do
  let opening ← symbol "["
  if ← sees "]" then
    let closing ← symbol "]"
    return .joining "slice_type" [opening, closing, (← g (.type stops)).labelled "element"]
  else
    let length ← g (.expression .enclosed)
    let closing ← symbol "]"
    return .joining "array_type"
      [opening, length.labelled "length", closing, (← g (.type stops)).labelled "element"]

/-- A slice type, or an array type whose element stands on the line of the closing bracket. -/
def arrayTypeOnLine (g : Grammar) : Parser Concrete := do
  let opening ← symbol "["
  if ← sees "]" then
    let closing ← symbol "]"
    return .joining "slice_type" [opening, closing, (← g (.type true)).labelled "element"]
  else
    let length ← g (.expression .enclosed)
    let closing ← symbol "]"
    if (← peekOn true).isNone then failure
    return .joining "array_type"
      [opening, length.labelled "length", closing, (← g (.type true)).labelled "element"]

def stringLiteral : Parser Concrete := do
  let t ← next
  match t.kind with
  | .string => return namedLeaf "interpreted_string_literal" t
  | .rawString => return namedLeaf "raw_string_literal" t
  | _ => failure

def fieldTag : Parser (List Concrete) := do
  match ← peekOn true with
  | some t =>
    if t.kind == .string || t.kind == .rawString then
      return [(← stringLiteral).labelled "tag"]
    else
      return []
  | none => return []

/-- An embedded field: a type name, perhaps behind a star. -/
def embeddedField (g : Grammar) : Parser (List Concrete) := do
  if ← sees "*" then
    let star ← symbol "*"
    return [star, (← namedType g true).labelled "type"]
  else
    return [(← namedType g true).labelled "type"]

def namedField (g : Grammar) : Parser (List Concrete) := do
  let names ← commaSeparated (return (← name "field_identifier").labelled "name") true
  match ← peekOn true with
  | none => failure
  | some t =>
    let type ← if isSymbol "[" t then arrayTypeOnLine g else g (.type true)
    return names ++ [type.labelled "type"]

def fieldDeclaration (g : Grammar) : Parser Concrete := do
  let body ← namedField g <|> embeddedField g
  return .joining "field_declaration" (body ++ (← fieldTag))

def structType (g : Grammar) : Parser Concrete := do
  let word ← symbol "struct"
  let fields ← between "\x7b" "\x7d" (separatedItems (fieldDeclaration g) "\x7d")
  return .joining "struct_type" [word, .joining "field_declaration_list" fields]

/-- The result of a function: a parameter list or a single type, if there is one. -/
def result (g : Grammar) (stops : Bool) : Parser (List Concrete) := do
  match ← peekOn stops with
  | none => return []
  | some t =>
    if isSymbol "(" t then return [(← g .parameters).labelled "result"]
    else if startsSimpleType t then return [(← g (.type stops)).labelled "result"]
    else return []

def interfaceElem (g : Grammar) : Parser Concrete := do
  let method : Parser Concrete := do
    let word ← name "field_identifier"
    if !(← sees "(" true) then failure
    let params ← g .parameters
    return .joining "method_elem"
      ([word.labelled "name", params.labelled "parameters"] ++ (← result g true))
  method <|> typeElem g true "type_elem"

def interfaceType (g : Grammar) : Parser Concrete := do
  let word ← symbol "interface"
  return .joining "interface_type"
    (word :: (← between "\x7b" "\x7d" (separatedItems (interfaceElem g) "\x7d")))

def mapType (g : Grammar) (stops : Bool) : Parser Concrete := do
  let word ← symbol "map"
  let opening ← symbol "["
  let key ← g (.type false)
  let closing ← symbol "]"
  return .joining "map_type"
    [word, opening, key.labelled "key", closing, (← g (.type stops)).labelled "value"]

/-- A channel type. An arrow between two words for channels belongs to the second. -/
def channelType (g : Grammar) (stops : Bool) : Parser Concrete := do
  if ← sees "<-" then
    let arrow ← symbol "<-"
    let word ← symbol "chan"
    return .joining "channel_type" [arrow, word, (← g (.type stops)).labelled "value"]
  else
    let word ← symbol "chan"
    if (← sees "<-") && !(← seesAll ["<-", "chan"]) then
      let arrow ← symbol "<-"
      return .joining "channel_type" [word, arrow, (← g (.type stops)).labelled "value"]
    else
      return .joining "channel_type" [word, (← g (.type stops)).labelled "value"]

def functionType (g : Grammar) (stops : Bool) : Parser Concrete := do
  let word ← symbol "func"
  let params ← g .parameters
  return .joining "function_type" ([word, params.labelled "parameters"] ++ (← result g stops))

def typeRule (g : Grammar) (stops : Bool) : Parser Concrete := do
  match ← peek? with
  | none => failure
  | some t =>
    if t.kind == .name then namedType g stops
    else if t.kind != .symbol then failure
    else match t.text with
      | "(" => do
        let opening ← symbol "("
        let inner ← g (.type false)
        return .joining "parenthesized_type" [opening, inner, ← symbol ")"]
      | "*" => do
        let star ← symbol "*"
        return .joining "pointer_type" [star, ← g (.type stops)]
      | "~" => do
        let tilde ← symbol "~"
        return .joining "negated_type" [tilde, ← g (.type stops)]
      | "[" => arrayType g stops
      | "struct" => structType g
      | "interface" => interfaceType g
      | "map" => mapType g stops
      | "chan" | "<-" => channelType g stops
      | "func" => functionType g stops
      | _ => failure

/-! ### Parameters -/

def variadicParameter (g : Grammar) : Parser Concrete := do
  let names ← if ← seesName then pure [(← name "identifier").labelled "name"] else pure []
  let dots ← symbol "..."
  let type ← g (.type false)
  return .joining "variadic_parameter_declaration" (names ++ [dots, type.labelled "type"])

/-- Parameter names that share a type. The type does not start with a comma, a dot or a
closing parenthesis, which would make the last name a type. -/
def namedParameters (g : Grammar) : Parser Concrete := do
  let names ← commaSeparated (return (← name "identifier").labelled "name")
  if ← seesAny [",", ")", ".", "..."] then failure
  let type ← if ← sees "[" then arrayType g false else g (.type false)
  return .joining "parameter_declaration" (names ++ [type.labelled "type"])

def unnamedParameter (g : Grammar) : Parser Concrete :=
  return .joining "parameter_declaration" [(← g (.type false)).labelled "type"]

def parameter (g : Grammar) : Parser Concrete :=
  variadicParameter g <|> namedParameters g <|> unnamedParameter g

def parametersRule (g : Grammar) : Parser Concrete := do
  return .joining "parameter_list" (← between "(" ")" (do
    if ← sees ")" then return []
    else if ← sees "," then return [← symbol ","]
    else commaTerminated (parameter g) ")"))

def typeParameter (g : Grammar) : Parser Concrete := do
  let names ← commaSeparated (return (← name "identifier").labelled "name")
  let bound ← typeElem g false "type_constraint"
  return .joining "type_parameter_declaration" (names ++ [bound.labelled "type"])

def typeParameters (g : Grammar) : Parser Concrete :=
  return .joining "type_parameter_list" (← between "[" "]" (commaTerminated (typeParameter g) "]"))

end Lintel.Go.Grammar
