import Lintel.Text.Quoted

/-!
# Data as text

Objects, lists, texts, numbers and truth values, written over several lines with an
indent of two spaces for every level. An empty object or list stays on its line.
-/

namespace Lintel.Text

inductive Json where
  | text (value : String)
  | number (value : Nat)
  | flag (value : Bool)
  | list (elems : List Json)
  | object (fields : List (String × Json))

namespace Json

def escapeChar (c : Char) : String :=
  if c = '"' then "\\\""
  else if c = '\\' then "\\\\"
  else if c = '\n' then "\\n"
  else if c = '\r' then "\\r"
  else if c = '\t' then "\\t"
  else if c = '\x08' then "\\b"
  else if c = '\x0c' then "\\f"
  else if c.toNat < 0x20 then
    let digits := hex c.toNat
    "\\u" ++ String.ofList (List.replicate (4 - digits.length) '0') ++ digits
  else c.toString

def quote (value : String) : String :=
  "\"" ++ String.join (value.toList.map escapeChar) ++ "\""

def indent (level : Nat) : String :=
  "\n" ++ String.ofList (List.replicate (2 * level) ' ')

/-- Pieces between brackets, each on a line of its own. -/
def bracketed (opening closing : String) (level : Nat) (pieces : List String) : String :=
  if pieces.isEmpty then
    opening ++ closing
  else
    opening ++ join "," (pieces.map fun piece => indent (level + 1) ++ piece)
      ++ indent level ++ closing
where
  /-- Joins texts with a separator. -/
  join (sep : String) (parts : List String) : String := String.intercalate sep parts

mutual

def prettyAt (level : Nat) : Json → String
  | .text value => quote value
  | .number value => toString value
  | .flag value => if value then "true" else "false"
  | .list elems => bracketed "[" "]" level (prettyElems (level + 1) elems)
  | .object fields => bracketed "\x7b" "\x7d" level (prettyFields (level + 1) fields)

def prettyElems (level : Nat) : List Json → List String
  | [] => []
  | elem :: rest => prettyAt level elem :: prettyElems level rest

def prettyFields (level : Nat) : List (String × Json) → List String
  | [] => []
  | (name, value) :: rest =>
    (quote name ++ ": " ++ prettyAt level value) :: prettyFields level rest

end

def pretty (value : Json) : String :=
  prettyAt 0 value

end Json

end Lintel.Text
