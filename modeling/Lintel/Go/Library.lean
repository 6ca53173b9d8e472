import Lintel.Facts
import Lintel.Text.Chars

/-!
# The predeclared world

The predeclared types of Go, the results of some functions and methods of its standard
library, and the name under which an import is known in a file.
-/

namespace Lintel.Go

open Lintel.Text

def basicTypes : List String :=
  ["bool", "string", "int", "int8", "int16", "int32", "int64", "uint", "uint8", "uint16",
    "uint32", "uint64", "uintptr", "float32", "float64", "complex64", "complex128", "byte",
    "rune", "any"]

/-- The types of the results of a call; an unknown one is missing. -/
abbrev Results := List (Option GoType)

def libraryFunction (package name : String) : Results :=
  let of (owner type : String) : Option GoType := some (.named (some owner) type)
  let basic (type : String) : Option GoType := some (.basic type)
  match package, name with
  | "time", "Now" => [of "time" "Time"]
  | "time", "Since" | "time", "Until" => [of "time" "Duration"]
  | "time", "Unix" | "time", "UnixMilli" => [of "time" "Time"]
  | "errors", "New" | "fmt", "Errorf" => [some .error]
  | "errors", "Is" | "errors", "As" => [basic "bool"]
  | "errors", "Unwrap" | "errors", "Join" => [some .error]
  | "fmt", "Sprintf" | "fmt", "Sprint" | "fmt", "Sprintln" => [basic "string"]
  | "strconv", "Itoa" | "strconv", "FormatInt" => [basic "string"]
  | "strconv", "Atoi" => [basic "int", some .error]
  | "strconv", "ParseInt" => [basic "int64", some .error]
  | "context", "Background" | "context", "TODO" | "context", "WithValue" =>
    [of "context" "Context"]
  | "context", "WithCancel" | "context", "WithTimeout" | "context", "WithDeadline" =>
    [of "context" "Context", of "context" "CancelFunc"]
  | "encoding/json", "Marshal" | "encoding/json", "MarshalIndent" =>
    [some (.slice (.basic "byte")), some .error]
  | "encoding/json", "Unmarshal" => [some .error]
  | _, _ => []

def libraryMethod (package type method : String) : Results :=
  match package, type, method with
  | "time", "Time", "Unix" | "time", "Time", "UnixNano" | "time", "Time", "UnixMilli"
  | "time", "Time", "UnixMicro" => [some (.basic "int64")]
  | "time", "Time", "Format" | "time", "Time", "String" => [some (.basic "string")]
  | "time", "Time", "Add" | "time", "Time", "UTC" | "time", "Time", "Local"
  | "time", "Time", "Truncate" => [some (.named (some "time") "Time")]
  | "net/http", "Request", "Context" => [some (.named (some "context") "Context")]
  | "net/http", "Request", "WithContext" =>
    [some (.pointer (.named (some "net/http") "Request"))]
  | _, _, _ => []

/-- Whether a path segment is a version such as `v2`. -/
def isVersion : List Char → Bool
  | 'v' :: digits => !digits.isEmpty && digits.all (·.isDigit)
  | _ => false

def withoutVersion (segment : List Char) : List Char :=
  match cut? ".v".toList segment with
  | some (name, version) => if version.all (·.isDigit) then name else segment
  | none => segment

/-- The name of an import without an alias: the last segment of its path that is not a
version. -/
def defaultLocalName (path : String) : String :=
  match (splitAt (· == '/') path.toList).reverse with
  | [] => path
  | last :: earlier =>
    match isVersion last, earlier with
    | true, previous :: _ => String.ofList previous
    | _, _ => String.ofList (withoutVersion last)

end Lintel.Go
