import Lintel.Path
import Lintel.Text.Lines

/-!
# Stored files

A file system gives the texts of files and takes new ones; either may fail. A store is one
that holds the files of a project by their paths. Reading fails there for a path that is no
file and for bytes that are no text; writing fails for a file that may not be changed. A
failed access changes nothing. Directories exist as far as there are files below them.
-/

namespace Lintel

open Lintel.Text

/-- What a program can do with files. A write gives the files after it, and a text about an
error if it failed. -/
class FileSystem (σ : Type) where
  read : σ → String → Except String String
  write : σ → String → String → σ × Option String

/-- A file: its bytes, and whether they may be replaced. -/
structure StoredFile where
  bytes : ByteArray
  writable : Bool := true

structure Store where
  files : List (String × StoredFile)

inductive ReadError where
  | missing
  | directory
  | notText
  deriving DecidableEq, Repr

def ReadError.message : ReadError → String
  | .missing => "No such file or directory (os error 2)"
  | .directory => "Is a directory (os error 21)"
  | .notText => "stream did not contain valid UTF-8"

namespace Store

def empty : Store :=
  ⟨[]⟩

def file? (store : Store) (path : String) : Option StoredFile :=
  store.files.lookup path

def isFile (store : Store) (path : String) : Bool :=
  (store.file? path).isSome

def isDirectory (store : Store) (path : String) : Bool :=
  store.files.any fun (other, _) => startsWith (path ++ "/") other

def holds (store : Store) (path : String) : Bool :=
  store.isFile path || store.isDirectory path

def read (store : Store) (path : String) : Except ReadError String :=
  match store.file? path with
  | some file =>
    match String.fromUTF8? file.bytes with
    | some text => .ok text
    | none => .error .notText
  | none => .error (if store.isDirectory path then .directory else .missing)

def write? (store : Store) (path text : String) : Option Store :=
  let file : StoredFile := ⟨text.toUTF8, true⟩
  match store.file? path with
  | none =>
    if store.isDirectory path then none else some ⟨store.files ++ [(path, file)]⟩
  | some old =>
    if old.writable then
      some ⟨store.files.map fun entry => if entry.1 == path then (path, file) else entry⟩
    else
      none

instance : FileSystem Store where
  read store path := (store.read path).mapError ReadError.message
  write store path text :=
    match store.write? path text with
    | some after => (after, none)
    | none => (store, some "Permission denied (os error 13)")

/-- The lines of a text given by bytes, up to the first that is no text. -/
def textLines (bytes : ByteArray) : List String :=
  let pieces := splitOnNewline bytes.toList
  (pieces.map fun piece => String.fromUTF8? ⟨piece.toArray⟩).takeWhile (·.isSome)
    |>.filterMap fun line => line
where
  /-- The pieces between newline bytes. -/
  splitOnNewline : List UInt8 → List (List UInt8)
    | [] => [[]]
    | b :: rest =>
      match splitOnNewline rest with
      | [] => [[b]]
      | piece :: pieces => if b == 10 then [] :: piece :: pieces else (b :: piece) :: pieces

/-- The lines of a file as far as they are text; none if there is no such file. -/
def lines (store : Store) (path : String) : List String :=
  match store.file? path with
  | some file => textLines file.bytes
  | none => []

end Store

end Lintel
