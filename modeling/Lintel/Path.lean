import Lintel.Text.Chars

/-!
# File paths

Paths are texts whose parts are separated by slashes. Doubled slashes and `.`
parts carry no meaning, except for a `.` at the very start of a relative path.
Two paths are compared by their parts; a cut keeps the spelling of what remains.
-/

namespace Lintel.Path

open Lintel.Text

inductive Part where
  | root
  | here
  | up
  | name (text : String)
  deriving DecidableEq, Repr

/-- The parts of a path that does not start at the root, each with the text after it. -/
def innerSteps : List (List Char) → List (Part × List (List Char))
  | [] => []
  | piece :: rest =>
    if piece = [] ∨ piece = ['.'] then
      innerSteps rest
    else if piece = ['.', '.'] then
      (.up, rest) :: innerSteps rest
    else
      (.name (String.ofList piece), rest) :: innerSteps rest

def pieces (path : String) : List (List Char) :=
  splitAt (· == '/') path.toList

/-- The parts of a path, each with the pieces that follow it. -/
def steps (path : String) : List (Part × List (List Char)) :=
  match pieces path with
  | [] => []
  | [] :: rest => if path.isEmpty then [] else (.root, rest) :: innerSteps rest
  | ['.'] :: rest => (.here, rest) :: innerSteps rest
  | all => innerSteps all

def parts (path : String) : List Part :=
  (steps path).map (·.1)

def isAbsolute (path : String) : Bool :=
  startsWith "/" path

/-- Whether a piece of a path carries no meaning. -/
def isIdle (piece : List Char) : Bool :=
  piece.isEmpty || piece == ['.']

/-- Joins pieces by slashes, without the idle ones at both ends. -/
def spell (rest : List (List Char)) : String :=
  let inner := ((rest.dropWhile isIdle).reverse.dropWhile isIdle).reverse
  join "/" (inner.map String.ofList)

/-- Drops idle pieces at the end only. -/
def withoutTail (path : String) : String :=
  match (pieces path).reverse with
  | [] => path
  | last :: earlier =>
    let kept := ((last :: earlier).dropWhile isIdle).reverse
    if kept.isEmpty then
      String.ofList (path.toList.take 1)
    else
      join "/" (kept.map String.ofList)

def below? : List (Part × List (List Char)) → List Part → Option (List (List Char)) → Option (Option (List (List Char)))
  | _, [], rest => some rest
  | [], _ :: _, _ => none
  | (part, after) :: steps, want :: wants, _ =>
    if part = want then below? steps wants (some after) else none

def relativeTo? (base path : String) : Option String :=
  (below? (steps path) (parts base) none).map fun
    | some rest => spell rest
    | none => withoutTail path

/-- The path relative to a base, or the path itself when it does not lie below. -/
def relativeTo (base path : String) : String :=
  (relativeTo? base path).getD path

def fileName? (path : String) : Option String :=
  match (parts path).getLast? with
  | some (.name text) => some text
  | _ => none

def fileName (path : String) : String :=
  (fileName? path).getD ""

/-- The directory of a path, spelled as in the path; a path of one part is below the empty
path, and the root is below nothing. -/
def parent? (path : String) : Option String :=
  match (parts path).getLast? with
  | none | some .root => none
  | some .here => some ""
  | some _ =>
    match ((pieces path).reverse.dropWhile isIdle).tail.reverse with
    | [] => some ""
    | before => some (withoutTail (join "/" (before.map String.ofList) ++ "/"))

/-- What follows the last dot of the file name; a dot at its start counts as no dot. -/
def extension? (path : String) : Option String :=
  (fileName? path).bind fun name =>
    let last := lastPiece (· == '.') name.toList
    let before := name.length - last.length
    if before ≤ 1 then none else some (String.ofList last)

/-- Appends a path to a directory; an absolute path replaces it. -/
def join (directory path : String) : String :=
  if isAbsolute path || directory.isEmpty then path
  else if endsWith "/" directory then directory ++ path
  else directory ++ "/" ++ path

def Part.text : Part → String
  | .root => "/"
  | .here => "."
  | .up => ".."
  | .name text => text

def Part.rank : Part → Nat
  | .root => 0
  | .here => 1
  | .up => 2
  | .name _ => 3

instance : Ord Part where
  compare := compareLex (compareOn Part.rank) (compareOn Part.text)

def partTexts (path : String) : List String :=
  (parts path).map (·.text)

def same (a b : String) : Bool :=
  parts a == parts b

def precedes (a b : String) : Bool :=
  (List.compareLex compare (parts a) (parts b)).isLE

end Lintel.Path
