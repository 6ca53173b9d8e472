import Lintel.Search
import Lintel.Text.Slice
import Lintel.Text.Word

/-!
# Lines of a text

A line index holds the offset at which every line starts: zero, and the offset
after each newline. It turns offsets into lines and columns and back. Columns
count bytes, and both count from one.
-/

namespace Lintel.Text

/-- Offsets of line starts after the first, for a text that begins at `offset`. -/
def newlineEnds (offset : Nat) : List Char → List Nat
  | [] => []
  | c :: rest =>
    if c = '\n' then
      (offset + 1) :: newlineEnds (offset + 1) rest
    else
      newlineEnds (offset + c.utf8Size) rest

/-- The offsets at which the lines of a text start, in ascending order. -/
structure LineIndex where
  starts : Array Nat
  deriving DecidableEq, Repr

namespace LineIndex

def ofText (text : String) : LineIndex :=
  ⟨(0 :: newlineEnds 0 text.toList).toArray⟩

/-- The line and column of an offset. An offset past the end belongs to the last line. -/
def lineCol (lines : LineIndex) (offset : Nat) : Nat × Nat :=
  let line :=
    match search lines.starts (compare · offset) with
    | .found i => i
    | .gap i => i - 1
  (line + 1, offset - lines.starts.getD line 0 + 1)

/-- The line and column of an offset, the column in a word. -/
def place (overflow : Overflow) (lines : LineIndex) (offset : Nat) : Option (Nat × Nat) :=
  let (line, column) := lines.lineCol offset
  (overflow.word column).map fun column => (line, column)

def lineStart (lines : LineIndex) : Nat → Option Nat
  | 0 => none
  | line + 1 => lines.starts[line]?

end LineIndex

/-- The lines of a text without their terminators. A newline at the very end starts
no further line, and a carriage return before a newline belongs to the terminator. -/
def physicalLines : List Char → List (List Char)
  | [] => []
  | '\n' :: rest => [] :: physicalLines rest
  | '\r' :: '\n' :: rest => [] :: physicalLines rest
  | c :: rest =>
    match physicalLines rest with
    | [] => [[c]]
    | line :: lines => (c :: line) :: lines

end Lintel.Text
