import Lintel.Toml.Binary64

/-!
# Configuration values

The values of a document: texts, numbers, truth values, dates and times, arrays and
tables. A date-time may lack its date, its time or its offset.
-/

namespace Lintel.Toml

structure Date where
  year : Nat
  month : Nat
  day : Nat
  deriving DecidableEq, Repr

structure Time where
  hour : Nat
  minute : Nat
  second : Nat
  nanosecond : Nat
  deriving DecidableEq, Repr

inductive Offset where
  | universal
  | minutes (count : Int)
  deriving DecidableEq, Repr

/-- A date, a time, or both, perhaps with an offset. -/
structure DateTime where
  date : Option Date
  time : Option Time
  offset : Option Offset
  deriving DecidableEq, Repr

def padded (width n : Nat) : String :=
  let digits := Nat.toDigits 10 n
  String.ofList (List.replicate (width - digits.length) '0' ++ digits)

def Date.display (d : Date) : String :=
  padded 4 d.year ++ "-" ++ padded 2 d.month ++ "-" ++ padded 2 d.day

def Time.fraction (t : Time) : String :=
  if t.nanosecond == 0 then ""
  else
    let digits := (padded 9 t.nanosecond).toList.reverse.dropWhile (· == '0')
    "." ++ String.ofList digits.reverse

def Time.display (t : Time) : String :=
  padded 2 t.hour ++ ":" ++ padded 2 t.minute ++ ":" ++ padded 2 t.second ++ t.fraction

def Offset.display : Offset → String
  | .universal => "Z"
  | .minutes count =>
    (if count < 0 then "-" else "+") ++ padded 2 (count.natAbs / 60) ++ ":"
      ++ padded 2 (count.natAbs % 60)

def DateTime.display (d : DateTime) : String :=
  (d.date.map (·.display)).getD ""
    ++ (if d.date.isSome && d.time.isSome then "T" else "")
    ++ (d.time.map (·.display)).getD ""
    ++ (d.offset.map (·.display)).getD ""

inductive Value where
  | text (value : String)
  | integer (value : Int)
  | float (value : Binary64)
  | boolean (value : Bool)
  | datetime (value : DateTime)
  | array (elems : List Value)
  | table (entries : List (String × Value))
  deriving Repr

end Lintel.Toml
