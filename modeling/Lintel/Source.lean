import Lintel.Path
import Lintel.Text.Lines

/-!
# Source files

A source file is a text together with the path it was found at and its path below
the root of the analysis, which is the one that reports name.
-/

namespace Lintel

open Lintel.Text

/-- A text with its path and the index of its lines. -/
structure SourceFile where
  path : String
  relativePath : String
  content : String
  lines : LineIndex
  lines_eq : lines = LineIndex.ofText content := by rfl

namespace SourceFile

/-- The file at `path`, reported relative to `root` if it lies below it. -/
def ofText (path content root : String) : SourceFile where
  path := path
  relativePath := Path.relativeTo root path
  content := content
  lines := LineIndex.ofText content

def fileName (file : SourceFile) : String :=
  Path.fileName file.path

/-- Whether the file holds tests, by its name. -/
def isTest (file : SourceFile) : Bool :=
  endsWith "_test.go" file.fileName

def indentAt (file : SourceFile) (offset : Nat) : String :=
  let start := (file.lines.lineStart (file.lines.lineCol offset).1).getD 0
  let rest := (from? file.content start).getD ""
  String.ofList (rest.toList.takeWhile fun c => c == ' ' || c == '\t')

/-- The text of a range, or the empty text when the range does not fit. -/
def text (file : SourceFile) (start stop : Nat) : String :=
  (slice? file.content start stop).getD ""

end SourceFile

end Lintel
