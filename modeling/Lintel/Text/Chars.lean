/-!
# Scanning lists of characters

Small total functions on `List Char`: blanks and trimming, splitting at a marker,
and testing whether one text occurs in another. Texts are read as lists of
characters, so no cut can fall inside a character.
-/

namespace Lintel.Text

/-- White space in the sense of the Unicode property of that name. -/
def isBlank (c : Char) : Bool :=
  let n := c.toNat
  (9 ≤ n && n ≤ 13) || n == 32 || n == 0x85 || n == 0xA0 || n == 0x1680
    || (0x2000 ≤ n && n ≤ 0x200A) || n == 0x2028 || n == 0x2029 || n == 0x202F
    || n == 0x205F || n == 0x3000

def trimLeft (p : Char → Bool) (cs : List Char) : List Char :=
  cs.dropWhile p

def trimRight (p : Char → Bool) (cs : List Char) : List Char :=
  (cs.reverse.dropWhile p).reverse

def trimBoth (p : Char → Bool) (cs : List Char) : List Char :=
  trimRight p (trimLeft p cs)

def trim (cs : List Char) : List Char :=
  trimBoth isBlank cs

/-- What follows a required opening, if the text starts with it. -/
def after? : List Char → List Char → Option (List Char)
  | [], rest => some rest
  | _ :: _, [] => none
  | m :: marker, c :: rest => if m = c then after? marker rest else none

/-- The text before and after the first occurrence of a marker. -/
def cut? (marker : List Char) : List Char → Option (List Char × List Char)
  | [] => if marker.isEmpty then some ([], []) else none
  | c :: rest =>
    match after? marker (c :: rest) with
    | some tail => some ([], tail)
    | none => (cut? marker rest).map fun (before, tail) => (c :: before, tail)

def occursIn (marker cs : List Char) : Bool :=
  (cut? marker cs).isSome

/-- The pieces between the separators; there is always at least one. -/
def splitAt (sep : Char → Bool) : List Char → List (List Char)
  | [] => [[]]
  | c :: rest =>
    if sep c then
      [] :: splitAt sep rest
    else
      match splitAt sep rest with
      | [] => [[c]]
      | piece :: pieces => (c :: piece) :: pieces

def lastPiece (sep : Char → Bool) (cs : List Char) : List Char :=
  (cs.reverse.takeWhile fun c => !sep c).reverse

def mentions (marker text : String) : Bool :=
  occursIn marker.toList text.toList

def startsWith (marker text : String) : Bool :=
  (after? marker.toList text.toList).isSome

def beforeEnd? (marker text : String) : Option String :=
  (after? marker.toList.reverse text.toList.reverse).map fun cs => String.ofList cs.reverse

def endsWith (marker text : String) : Bool :=
  (beforeEnd? marker text).isSome

def join (sep : String) (parts : List String) : String :=
  String.intercalate sep parts

end Lintel.Text
