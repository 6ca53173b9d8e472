import Lintel.Toml.Reader

/-!
# Documents

A document is a list of sections, each with a header and keys with values. It is read
as one table. A table may be named by several headers and keys as long as none of
them defines it a second time; the origin of each table tells what may be added.
-/

namespace Lintel.Toml

open Reader

/-! ### Building tables -/

/-- How a table came to be: by a header or in braces, because a header names a table below
it, or because a dotted key does. -/
inductive Origin where
  | defined
  | implied
  | dotted
  deriving DecidableEq, Repr

/-- What a key of a table under construction stands for. -/
inductive Entry where
  | value (value : Value)
  | table (origin : Origin) (entries : List (String × Entry))
  | tables (elems : List (List (String × Entry)))

abbrev Entries := List (String × Entry)

mutual

def Entry.toValue : Entry → Value
  | .value v => v
  | .table _ entries => .table (entryValues entries)
  | .tables elems => .array (tableValues elems)

def entryValues : List (String × Entry) → List (String × Value)
  | [] => []
  | (key, entry) :: rest => (key, entry.toValue) :: entryValues rest

def tableValues : List (List (String × Entry)) → List Value
  | [] => []
  | entries :: rest => .table (entryValues entries) :: tableValues rest

end

def replaceEntry (key : String) (entry : Entry) (entries : Entries) : Entries :=
  entries.map fun (k, e) => if k == key then (k, entry) else (k, e)

/-- Changes the table at a path below a table. Tables that are missing on the way are made,
with the origin of the path. A dotted path may not lead through a defined table, and a
path that leads to a list of tables goes on in the last of them. -/
def changeAt (along : Origin) (change : Origin → Entries → Option Entries) :
    List String → Origin → Entries → Option Entries
  | [], here, entries => change here entries
  | key :: path, _, entries =>
    match entries.lookup key with
    | none => do
      let inner ← changeAt along change path along []
      return entries ++ [(key, .table along inner)]
    | some (.table origin inner) =>
      if along = .dotted ∧ origin = .defined then
        none
      else do
        let inner ← changeAt along change path origin inner
        return replaceEntry key (.table origin inner) entries
    | some (.tables elems) =>
      match elems.reverse with
      | [] => none
      | last :: earlier => do
        let inner ← changeAt along change path .defined last
        return replaceEntry key (.tables (inner :: earlier).reverse) entries
    | some (.value _) => none

structure Pair where
  path : List String
  key : String
  value : Value

/-- Adds a key with its value to a table. A dotted key may add only to tables that dotted
keys made. -/
def addPair (entries : Entries) (pair : Pair) : Option Entries :=
  changeAt .dotted (fun here inner =>
    if pair.path.isEmpty = (here == .dotted) then none
    else if (inner.lookup pair.key).isSome then none
    else some (inner ++ [(pair.key, .value pair.value)])) pair.path .defined entries

def addPairs (entries : Entries) (pairs : List Pair) : Option Entries :=
  pairs.foldlM addPair entries

/-- What starts a section: the header of a table, or of one more table in a list. -/
inductive Header where
  | table (path : List String) (key : String)
  | element (path : List String) (key : String)

def addSection (header : Header) (pairs : List Pair) (root : Entries) : Option Entries :=
  match header with
  | .table path key =>
    changeAt .implied (fun _ entries =>
      match entries.lookup key with
      | none => do return entries ++ [(key, .table .defined (← addPairs [] pairs))]
      | some (.table .implied inner) => do
        return replaceEntry key (.table .defined (← addPairs inner pairs)) entries
      | some _ => none) path .defined root
  | .element path key =>
    changeAt .implied (fun _ entries =>
      match entries.lookup key with
      | none => do return entries ++ [(key, .tables [← addPairs [] pairs])]
      | some (.tables elems) => do
        return replaceEntry key (.tables (elems ++ [← addPairs [] pairs])) entries
      | some _ => none) path .defined root

/-! ### Values and lines -/

def splitKey (parts : List String) : Reader (List String × String) :=
  match parts.reverse with
  | [] => failure
  | last :: path => return (path.reverse, last)

def pair (value : Reader Value) : Reader Pair := do
  let (path, last) ← splitKey (← key)
  word "="
  spaces
  return ⟨path, last, ← value⟩

def array (value : Reader Value) : Reader Value := do
  word "["
  blanks
  let elems ← optional (separated (word ",") (do
    blanks
    let elem ← value
    blanks
    return elem))
  if elems.isSome then
    let _ ← optional (word ",")
  blanks
  word "]"
  return .array (elems.getD [])

def inlineTable (value : Reader Value) : Reader Value := do
  word "\x7b"
  let pairs ← optional (separated (word ",") (do
    let found ← pair value
    spaces
    return found))
  spaces
  word "\x7d"
  match addPairs [] (pairs.getD []) with
  | some entries => return .table (entryValues entries)
  | none => failure

def valueWith (inner : Option (Reader Value)) : Reader Value := do
  match ← peek?, inner with
  | some '"', _ | some '\'', _ => return .text (← text)
  | some '[', some inner => array inner
  | some '\x7b', some inner => inlineTable inner
  | some 't', _ => do word "true"; return .boolean true
  | some 'f', _ => do word "false"; return .boolean false
  | _, _ =>
    (do return .datetime (← datetime))
      <|> (do return .float (← decimalFloat))
      <|> (do return .float (← specialFloat))
      <|> (do return .integer (← integer))

def valueUpTo : Nat → Reader Value
  | 0 => valueWith none
  | depth + 1 => valueWith (some (valueUpTo depth))

def value : Reader Value :=
  valueUpTo (depthLimit - 1)

inductive Line where
  | pair (pair : Pair)
  | header (header : Header)

/-- Reads the header of one more table in a list. -/
def elementHeader : Reader Header := do
  word "[["
  let (path, last) ← splitKey (← key)
  word "]]"
  return .element path last

def tableHeader : Reader Header := do
  word "["
  let (path, last) ← splitKey (← key)
  word "]"
  return .table path last

/-- Reads a line; some lines say nothing. -/
def line : Reader (Option Line) := do
  spaces
  let found ← match ← peek? with
    | none => failure
    | some '#' => pure none
    | some '\n' => pure none
    | some '\r' => pure none
    | some '[' => do pure (some (Line.header (← elementHeader <|> tableHeader)))
    | some _ => do pure (some (Line.pair (← pair value)))
  lineEnd
  return found

/-- Splits lines into the pairs before the first header and the sections. -/
def sections : List Line → List Pair × List (Header × List Pair)
  | [] => ([], [])
  | .pair found :: rest =>
    let (pairs, others) := sections rest
    (found :: pairs, others)
  | .header header :: rest =>
    let (pairs, others) := sections rest
    ([], (header, pairs) :: others)

def lines : Reader (List Line) := do
  let _ ← optional (word "\ufeff")
  let found ← many line
  spaces
  finished
  return found.filterMap fun line => line

def parse? (document : String) : Option (List (String × Value)) := do
  let (found, _) ← lines.run document.toList
  let (pairs, others) := sections found
  let root ← addPairs [] pairs
  let full ← others.foldlM (fun root (header, pairs) => addSection header pairs root) root
  return entryValues full

end Lintel.Toml
