import Lintel.Text.Chars
import Lintel.Toml.Value

/-!
# Reading values

A reader takes characters from the front of a text and either fails or goes on with
the rest. Arrays and inline tables nest up to a fixed depth, and no text is read
twice without need: a value is known by its first character, except that dates, times
and numbers are tried in this order.
-/

namespace Lintel.Toml

open Lintel.Text

abbrev Reader := StateT (List Char) Option

namespace Reader

variable {α : Type}

def peek? : Reader (Option Char) :=
  return (← get).head?

def one (p : Char → Bool) : Reader Char := do
  match ← get with
  | c :: rest =>
    if p c then
      set rest
      return c
    else
      failure
  | [] => failure

def word (text : String) : Reader Unit := do
  match after? text.toList (← get) with
  | some rest => set rest
  | none => failure

def takeWhile (p : Char → Bool) : Reader (List Char) := do
  let (taken, rest) := (← get).span p
  set rest
  return taken

def manyUpTo (reader : Reader α) : Nat → Reader (List α)
  | 0 => return []
  | n + 1 => do
    match ← optional reader with
    | none => return []
    | some first =>
      let rest ← manyUpTo reader n
      return first :: rest

/-- Repeats a reader that takes at least one character while it succeeds. -/
def many (reader : Reader α) : Reader (List α) := do
  manyUpTo reader (← get).length

def separated (separator : Reader Unit) (reader : Reader α) : Reader (List α) := do
  let first ← reader
  let rest ← many (do separator; reader)
  return first :: rest

def finished : Reader Unit := do
  if (← get).isEmpty then return () else failure

end Reader

open Reader

/-! ### Spaces -/

def isSpace (c : Char) : Bool :=
  c == ' ' || c == '\t'

/-- Whether a character may stand in a comment or, but for its quotes, in a text. -/
def isPlain (c : Char) : Bool :=
  c == '\t' || (' ' ≤ c && c != '\x7f')

def spaces : Reader Unit := do
  let _ ← takeWhile isSpace

def lineBreak : Reader Unit :=
  word "\n" <|> word "\r\n"

def comment : Reader Unit := do
  word "#"
  let _ ← takeWhile isPlain

def blanks : Reader Unit := do
  let _ ← many ((do let _ ← one isSpace) <|> comment <|> lineBreak)

def lineEnd : Reader Unit := do
  spaces
  let _ ← optional comment
  lineBreak <|> finished

/-! ### Texts -/

def hexValue? (c : Char) : Option Nat :=
  if c.isDigit then some (c.toNat - '0'.toNat)
  else if 'a' ≤ c && c ≤ 'f' then some (c.toNat - 'a'.toNat + 10)
  else if 'A' ≤ c && c ≤ 'F' then some (c.toNat - 'A'.toNat + 10)
  else none

def hexDigits : Nat → Nat → Reader Nat
  | 0, value => return value
  | n + 1, value => do
    let c ← one fun c => (hexValue? c).isSome
    hexDigits n (value * 16 + (hexValue? c).getD 0)

def charCode (digits : Nat) : Reader Char := do
  let code ← hexDigits digits 0
  if code.isValidChar then return Char.ofNat code else failure

def escaped : Reader Char := do
  match ← one fun _ => true with
  | 'b' => return '\x08'
  | 'f' => return '\x0c'
  | 'n' => return '\n'
  | 'r' => return '\r'
  | 't' => return '\t'
  | '\\' => return '\\'
  | '"' => return '"'
  | 'u' => charCode 4
  | 'U' => charCode 8
  | _ => failure

def escape : Reader Char := do
  word "\\"
  escaped

def basicText : Reader String := do
  word "\""
  let body ← many ((one fun c => isPlain c && c != '"' && c != '\\') <|> escape)
  word "\""
  return String.ofList body

def literalText : Reader String := do
  word "'"
  let body ← takeWhile fun c => isPlain c && c != '\''
  word "'"
  return String.ofList body

/-- Reads one or two quotes, where they do not end a text of several lines. -/
def innerQuotes (quote : Char) : Reader (List Char) := do
  let quotes ← takeWhile (· == quote)
  if quotes.length == 1 || quotes.length == 2 then return quotes else failure

/-- Reads the quotes that end a text of several lines; up to two more belong to it. -/
def closingQuotes (quote : Char) : Reader (List Char) := do
  let quotes ← takeWhile (· == quote)
  if 3 ≤ quotes.length && quotes.length ≤ 5 then return quotes.drop 3 else failure

def joinedLines : Reader Unit := do
  word "\\"
  spaces
  lineBreak
  let _ ← many ((do let _ ← one isSpace) <|> lineBreak)

/-- Reads a text of several lines; `piece` reads what is no quote. -/
def longText (quote : Char) (piece : Reader (List Char)) : Reader String := do
  word (String.ofList [quote, quote, quote])
  let _ ← optional lineBreak
  let body ← many (piece <|> innerQuotes quote)
  let last ← closingQuotes quote
  return String.ofList (body.flatten ++ last)

def longBasicText : Reader String :=
  longText '"' ((do return [← one fun c => isPlain c && c != '"' && c != '\\'])
    <|> (do joinedLines; return [])
    <|> (do return [← escape])
    <|> (do lineBreak; return ['\n']))

def longLiteralText : Reader String :=
  longText '\'' ((do return [← one fun c => isPlain c && c != '\''])
    <|> (do lineBreak; return ['\n']))

def text : Reader String :=
  longBasicText <|> basicText <|> longLiteralText <|> literalText

/-! ### Keys -/

def isBareKey (c : Char) : Bool :=
  c.isAlphanum || c == '-' || c == '_'

def keyPart : Reader String :=
  basicText <|> literalText <|> do
    let name ← takeWhile isBareKey
    if name.isEmpty then failure else return String.ofList name

/-- How deep keys, arrays and tables may go. -/
def depthLimit : Nat := 80

def key : Reader (List String) := do
  let parts ← separated (word ".") (do
    spaces
    let part ← keyPart
    spaces
    return part)
  if parts.length < depthLimit then return parts else failure

/-! ### Numbers -/

/-- Reads digits of a class with underscores between them. -/
def digitRun (p : Char → Bool) : Reader (List Char) := do
  let first ← one p
  let rest ← many (one p <|> do word "_"; one p)
  return first :: rest

/-- Reads a sign, and tells whether it is the negative one. -/
def sign : Reader Bool := do
  return (← optional (one fun c => c == '+' || c == '-')) == some '-'

/-- Reads decimal digits; a zero at their start stands alone. -/
def decimalDigits : Reader (List Char) := do
  if (← peek?) == some '0' then
    return [← one Char.isDigit]
  else
    digitRun Char.isDigit

def numberOf (base : Nat) (digits : List Char) : Nat :=
  digits.foldl (fun value c => value * base + (hexValue? c).getD 0) 0

def exponentPart : Reader Int := do
  let _ ← one fun c => c == 'e' || c == 'E'
  let negative ← sign
  let size := numberOf 10 (← digitRun Char.isDigit)
  return if negative then -size else size

def fractionPart : Reader (List Char) := do
  word "."
  digitRun Char.isDigit

/-- Reads a number with a fraction or an exponent. What is too large is refused, but what
is too small counts as infinite. -/
def decimalFloat : Reader Binary64 := do
  let negative ← sign
  let whole ← decimalDigits
  let (fraction, exponent) ←
    (do return ([], ← exponentPart))
      <|> (do
        let fraction ← fractionPart
        return (fraction, (← optional exponentPart).getD 0))
  let value := Binary64.ofDecimal negative (numberOf 10 (whole ++ fraction))
    (exponent - fraction.length)
  if value = .infinite false then failure else return value

/-- Reads one of the words for what is no finite number. -/
def specialFloat : Reader Binary64 := do
  let negative ← sign
  (do word "inf"; return .infinite negative) <|> (do word "nan"; return .nan)

def fitsInteger (n : Int) : Bool :=
  decide (-Int.pow 2 63 ≤ n) && decide (n < Int.pow 2 63)

def markedInteger (mark : String) (base : Nat) : Reader Int := do
  word mark
  let digits ← digitRun fun c => (hexValue? c).any (· < base)
  return numberOf base digits

def decimalInteger : Reader Int := do
  let negative ← sign
  let size : Int := numberOf 10 (← decimalDigits)
  return if negative then -size else size

def integer : Reader Int := do
  let value ← markedInteger "0x" 16 <|> markedInteger "0o" 8 <|> markedInteger "0b" 2
    <|> decimalInteger
  if fitsInteger value then return value else failure

/-! ### Dates and times -/

/-- Reads a number of a fixed count of digits within bounds. -/
def fixedNumber (count least most : Nat) : Reader Nat := do
  let digits ← (List.replicate count ()).mapM fun _ => one Char.isDigit
  let value := numberOf 10 digits
  if least ≤ value && value ≤ most then return value else failure

def daysIn (year month : Nat) : Nat :=
  if month == 2 then
    if year % 4 == 0 && (year % 100 != 0 || year % 400 == 0) then 29 else 28
  else if month == 4 || month == 6 || month == 9 || month == 11 then 30
  else 31

def date : Reader Date := do
  let year ← fixedNumber 4 0 9999
  word "-"
  let month ← fixedNumber 2 1 12
  word "-"
  let day ← fixedNumber 2 1 (daysIn year month)
  return ⟨year, month, day⟩

/-- Reads the part of a second, to nine digits. -/
def nanoseconds : Reader Nat := do
  word "."
  let first ← one Char.isDigit
  let digits := (first :: (← takeWhile Char.isDigit)).take 9
  return numberOf 10 digits * Nat.pow 10 (9 - digits.length)

def time : Reader Time := do
  let hour ← fixedNumber 2 0 23
  word ":"
  let minute ← fixedNumber 2 0 59
  word ":"
  let second ← fixedNumber 2 0 60
  return ⟨hour, minute, second, (← optional nanoseconds).getD 0⟩

def offset : Reader Offset :=
  (do
    let _ ← one fun c => c == 'Z' || c == 'z'
    return .universal)
  <|> do
    let negative := (← one fun c => c == '+' || c == '-') == '-'
    let hours ← fixedNumber 2 0 23
    word ":"
    let minutes ← fixedNumber 2 0 59
    let total : Int := hours * 60 + minutes
    return .minutes (if negative then -total else total)

def timeOfDate : Reader (Time × Option Offset) := do
  let _ ← one fun c => c == 'T' || c == 't' || c == ' '
  let found ← time
  return (found, ← optional offset)

def datetime : Reader DateTime :=
  (do
    let day ← date
    match ← optional timeOfDate with
    | some (found, zone) => return ⟨some day, some found, zone⟩
    | none => return ⟨some day, none, none⟩)
  <|> (do return ⟨none, some (← time), none⟩)

end Lintel.Toml
