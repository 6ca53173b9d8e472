import Lintel.Go.Concrete
import Lintel.Go.Token

/-!
# Parsing over tokens

A parser reads tokens and either fails or goes on behind what it read; a failed
alternative reads nothing. Line breaks are kept with the token after them. A construct
that a line break can end looks at the next token only on its own line; everywhere
else a line break is white space.

The recursive rules of the grammar are reached through goals, so that each rule is a
function of its own: `Grammar` is what answers goals, at a bounded depth.
-/

namespace Lintel.Go

abbrev Parser := StateT (List Token) Option

/-- Where an expression stands: whether a line break may end it, whether a type name
before a brace starts a composite literal, and whether a simple statement may begin with
it, so that an arrow or a step may follow. -/
structure Place where
  stops : Bool
  literals : Bool
  leads : Bool
  deriving Repr

namespace Place

def enclosed : Place := ⟨false, true, false⟩

def plain : Place := ⟨true, true, false⟩

/-- The place in a header where the block may come next. -/
def beforeBlock : Place := ⟨false, false, false⟩

/-- The same place at the start of a simple statement. -/
def leading (place : Place) : Place :=
  { place with leads := true }

end Place

inductive Goal where
  | type (stops : Bool)
  | unary (place : Place)
  | expression (place : Place)
  | parameters
  | literalValue
  | block
  | statement
  | ifStatement

abbrev Grammar := Goal → Parser Concrete

namespace Parser

def peek? : Parser (Option Token) :=
  return (← get).head?

/-- The next token, unless a line break before it ends the construct. -/
def peekOn (stops : Bool) : Parser (Option Token) :=
  return (← get).head?.filter fun t => !(stops && t.newline.isSome)

def isSymbol (text : String) (t : Token) : Bool :=
  t.kind == .symbol && t.text == text

def sees (text : String) (stops : Bool := false) : Parser Bool :=
  return (← peekOn stops).any (isSymbol text)

def seesAny (texts : List String) (stops : Bool := false) : Parser Bool :=
  return (← peekOn stops).any fun t => texts.any fun text => isSymbol text t

def seesAll (texts : List String) : Parser Bool :=
  return (texts.zip (← get)).length == texts.length
    && ((texts.zip (← get)).all fun (text, t) => isSymbol text t)

def next : Parser Token := do
  match ← get with
  | [] => failure
  | t :: rest => set rest; return t

/-- Cuts the next token behind its first character, if it is one of some operators. -/
def cutOperator (texts : List String) : Parser Unit :=
  modify fun tokens =>
    match tokens with
    | [] => []
    | t :: rest =>
      match t.text.toList with
      | c :: tail =>
        if texts.any fun text => isSymbol text t then
          let middle := t.span.start + c.utf8Size
          ⟨.symbol, String.singleton c, ⟨t.span.start, middle⟩, t.newline⟩
            :: ⟨.symbol, String.ofList tail, ⟨middle, t.span.stop⟩, none⟩ :: rest
        else
          tokens
      | [] => tokens

def leaf (t : Token) : Concrete :=
  .node none t.text false false t.span []

def namedLeaf (kind : String) (t : Token) : Concrete :=
  .node none kind true false t.span []

def symbol (text : String) : Parser Concrete := do
  let t ← next
  if isSymbol text t then return leaf t else failure

def name (kind : String) : Parser Concrete := do
  let t ← next
  if t.kind == .name then return namedLeaf kind t else failure

def seesName (stops : Bool := false) : Parser Bool :=
  return (← peekOn stops).any fun t => t.kind == .name

/-- Tries a parser, and reads nothing when it fails. -/
def attempt? {α : Type} (p : Parser α) : Parser (Option α) :=
  (some <$> p) <|> pure none

/-- Repeats a step until it has nothing to add, a bounded number of times. -/
def iterateUpTo {α : Type} (step : α → Parser (Option α)) : Nat → α → Parser α
  | 0, a => pure a
  | n + 1, a => do
    match ← step a with
    | none => pure a
    | some b => iterateUpTo step n b

/-- Repeats a step until it has nothing to add. Every step reads a token, so the tokens
that remain bound the repetitions. -/
def iterate {α : Type} (step : α → Parser (Option α)) (a : α) : Parser α := do
  iterateUpTo step ((← get).length + 1) a

def commaSeparated (item : Parser Concrete) (stops : Bool := false) : Parser (List Concrete) := do
  let first ← item
  iterate (fun items => do
    if ← sees "," stops then
      let comma ← symbol ","
      return some (items ++ [comma, ← item])
    else
      return none) [first]

/-- Items with commas between them and perhaps one after them, before a closing symbol. -/
def commaTerminated (item : Parser Concrete) (close : String) : Parser (List Concrete) := do
  let first ← item
  iterate (fun items => do
    if ← sees "," then
      let comma ← symbol ","
      if ← sees close then return some (items ++ [comma])
      else return some (items ++ [comma, ← item])
    else
      return none) [first]

/-- Reads what ends a statement: a line break, a semicolon, or the end of the text. -/
def terminator : Parser Concrete := do
  match ← get with
  | [] => return .node none "" false false ⟨0, 0⟩ []
  | t :: rest =>
    match t.newline with
    | some offset =>
      set ({ t with newline := none } :: rest)
      return .node none "\n" false false ⟨offset, offset + 1⟩ []
    | none => if isSymbol ";" t || isSymbol "\x00" t then set rest; return leaf t else failure

def separatedItems (item : Parser Concrete) (close : String) : Parser (List Concrete) := do
  if ← sees close then return []
  let first ← item
  iterate (fun items => do
    match ← attempt? terminator with
    | none => return none
    | some ending =>
      if ← sees close then return some (items ++ [ending])
      else return some (items ++ [ending, ← item])) [first]

def terminatedItems (item : Parser Concrete) (close : String) : Parser (List Concrete) :=
  iterate (fun items => do
    if ← sees close then return none
    let one ← item
    return some (items ++ [one, ← terminator])) []

def between (first last : String) (inner : Parser (List Concrete)) : Parser (List Concrete) := do
  let a ← symbol first
  let middle ← inner
  let z ← symbol last
  return a :: middle ++ [z]

def expressionList (g : Grammar) (place : Place) : Parser Concrete :=
  return .joining "expression_list" (← commaSeparated (g (.expression place)) place.stops)

end Parser

end Lintel.Go
