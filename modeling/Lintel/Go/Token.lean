import Lintel.Span
import Lintel.Text.Letter
import Lintel.Text.Slice

/-!
# Tokens of Go source

A text is cut into lexemes: names and keywords, literals, operators, comments, and
line breaks. Each lexeme is the longest one that starts where it stands. The tokens
are what remains without comments; a token keeps the place of the first line break
before it, since a line break can end a statement.
-/

namespace Lintel.Go

open Lintel.Text

/-- The kinds of tokens. A symbol is an operator, a bracket or a keyword. -/
inductive TokenKind where
  | name
  | symbol
  | int
  | float
  | imaginary
  | rune
  | string
  | rawString
  deriving DecidableEq, Repr

inductive LexemeKind where
  | token (kind : TokenKind)
  | lineComment
  | blockComment
  | newline
  | blank
  deriving DecidableEq, Repr

structure Lexeme where
  kind : LexemeKind
  text : String
  span : Span
  deriving Repr

/-- A token; `newline` is the offset of the first line break between it and the token
before it, comments aside. -/
structure Token where
  kind : TokenKind
  text : String
  span : Span
  newline : Option Nat
  deriving Repr

def keywords : List String :=
  ["break", "default", "func", "interface", "select", "case", "defer", "go", "map", "struct",
    "chan", "else", "goto", "package", "switch", "const", "fallthrough", "if", "range", "type",
    "continue", "for", "import", "return", "var"]

/-- Operators and brackets, longer ones before their beginnings. A zero character is a mark
that ends a statement, like a semicolon. -/
def operators : List (List Char) :=
  ["<<=", ">>=", "&^=", "...", "&&", "||", "<-", "++", "--", "==", "!=", "<=", ">=", ":=",
    "+=", "-=", "*=", "/=", "%=", "&=", "|=", "^=", "<<", ">>", "&^", "+", "-", "*", "/", "%",
    "&", "|", "^", "<", ">", "=", "!", "(", ")", "[", "]", "\x7b", "\x7d", ",", ";", ".", ":",
    "~", "\x00"].map String.toList

/-! ### Numbers

Every function gives the number of characters that a form takes at the start of a
text, and zero where the form does not occur. -/

def isDecimal (c : Char) : Bool := c.isDigit

def isBinary (c : Char) : Bool := c == '0' || c == '1'

def isOctal (c : Char) : Bool := '0' ≤ c && c ≤ '7'

def isHex (c : Char) : Bool :=
  c.isDigit || ('a' ≤ c && c ≤ 'f') || ('A' ≤ c && c ≤ 'F')

def moreDigits (digit : Char → Bool) : List Char → Nat
  | [] => 0
  | '_' :: c :: rest => if digit c then 2 + moreDigits digit rest else 0
  | c :: rest => if digit c then 1 + moreDigits digit rest else 0

def digits (digit : Char → Bool) : List Char → Nat
  | [] => 0
  | c :: rest => if digit c then 1 + moreDigits digit rest else 0

/-- Digits, perhaps after one underscore. -/
def underscoredDigits (digit : Char → Bool) (cs : List Char) : Nat :=
  match cs with
  | '_' :: rest =>
    match digits digit rest with
    | 0 => 0
    | n + 1 => n + 2
  | _ => digits digit cs

/-- Some characters and what follows them, if that is there at all. -/
def thenSome (lead follow : Nat) : Nat :=
  if follow = 0 then 0 else lead + follow

def intLength : List Char → Nat
  | '0' :: c :: rest =>
    let marked :=
      if c = 'x' ∨ c = 'X' then thenSome 2 (underscoredDigits isHex rest)
      else if c = 'b' ∨ c = 'B' then thenSome 2 (underscoredDigits isBinary rest)
      else if c = 'o' ∨ c = 'O' then thenSome 2 (underscoredDigits isOctal rest)
      else thenSome 1 (underscoredDigits isOctal (c :: rest))
    max 1 marked
  | ['0'] => 1
  | cs@(c :: _) => if c = '0' then 0 else digits isDecimal cs
  | [] => 0

def exponentLength (lower upper : Char) : List Char → Nat
  | c :: rest =>
    if c = lower ∨ c = upper then
      match rest with
      | '+' :: ds | '-' :: ds => thenSome 2 (digits isDecimal ds)
      | ds => thenSome 1 (digits isDecimal ds)
    else 0
  | [] => 0

def decimalFloatLength (cs : List Char) : Nat :=
  let whole := digits isDecimal cs
  match cs.drop whole with
  | '.' :: rest =>
    let fraction := digits isDecimal rest
    if whole = 0 ∧ fraction = 0 then 0
    else whole + 1 + fraction + exponentLength 'e' 'E' (rest.drop fraction)
  | rest => if whole = 0 then 0 else thenSome whole (exponentLength 'e' 'E' rest)

def hexFloatLength : List Char → Nat
  | '0' :: c :: rest =>
    if c = 'x' ∨ c = 'X' then
      let whole := underscoredDigits isHex rest
      let mantissa :=
        match rest.drop whole with
        | '.' :: after =>
          let fraction := digits isHex after
          if whole = 0 ∧ fraction = 0 then 0 else whole + 1 + fraction
        | _ => whole
      if mantissa = 0 then 0
      else thenSome (2 + mantissa) (exponentLength 'p' 'P' (rest.drop mantissa))
    else 0
  | _ => 0

def floatLength (cs : List Char) : Nat :=
  max (decimalFloatLength cs) (hexFloatLength cs)

def imaginaryAfter (cs : List Char) (n : Nat) : Nat :=
  if n ≠ 0 ∧ (cs.drop n).head? = some 'i' then n + 1 else 0

def imaginaryLength (cs : List Char) : Nat :=
  max (imaginaryAfter cs (digits isDecimal cs))
    (max (imaginaryAfter cs (intLength cs)) (imaginaryAfter cs (floatLength cs)))

/-! ### Texts and comments -/

def startsWithHex (n : Nat) (cs : List Char) : Bool :=
  (cs.take n).length == n && (cs.take n).all isHex

/-- The rest of an interpreted string up to and with its closing quote. -/
def stringRest : List Char → Option Nat
  | [] => none
  | '"' :: _ => some 1
  | '\n' :: _ => none
  | '\\' :: c :: rest =>
    let allowed :=
      if c = 'x' then startsWithHex 2 rest
      else if c = 'u' then startsWithHex 4 rest
      else if c = 'U' then startsWithHex 8 rest
      else true
    if allowed then (stringRest rest).map (· + 2) else none
  | '\\' :: [] => none
  | _ :: rest => (stringRest rest).map (· + 1)

def rawRest : List Char → Option Nat
  | [] => none
  | c :: rest => if c.toNat = 0x60 then some 1 else (rawRest rest).map (· + 1)

def runeRest : List Char → Option Nat
  | '\\' :: c :: rest =>
    let length :=
      if c = 'x' then (if startsWithHex 2 rest then 4 else 0)
      else if c = 'u' then (if startsWithHex 4 rest then 6 else 0)
      else if c = 'U' then (if startsWithHex 8 rest then 10 else 0)
      else if isOctal c then (if (rest.take 2).length = 2 ∧ (rest.take 2).all isOctal then 4 else 0)
      else if "abfnrtv\\'\"".toList.contains c then 2
      else 0
    if length ≠ 0 ∧ (rest.drop (length - 2)).head? = some '\'' then some (length + 1) else none
  | '\'' :: _ => none
  | _ :: '\'' :: _ => some 2
  | _ => none

def commentRest : List Char → Option Nat
  | [] => none
  | '*' :: '/' :: _ => some 2
  | _ :: rest => (commentRest rest).map (· + 1)

/-! ### Lexemes -/

def scanNumber (cs : List Char) : Option (LexemeKind × Nat) :=
  let int := intLength cs
  let float := floatLength cs
  let imaginary := imaginaryLength cs
  if imaginary > int ∧ imaginary > float then some (.token .imaginary, imaginary)
  else if float > int then some (.token .float, float)
  else if int > 0 then some (.token .int, int)
  else none

def isGap (c : Char) : Bool :=
  c == ' ' || (9 ≤ c.toNat && c.toNat ≤ 13)

def scanOperator (cs : List Char) : Option (LexemeKind × Nat) :=
  (operators.find? (·.isPrefixOf cs)).map fun op => (.token .symbol, op.length)

def scanLexeme : List Char → Option (LexemeKind × Nat)
  | [] => none
  | c :: rest =>
    if c = '\n' then some (.newline, 1)
    else if isGap c then some (.blank, 1)
    else if isNameStart c then
      let word := c :: rest.takeWhile isNamePart
      some (.token (if keywords.contains (String.ofList word) then .symbol else .name), word.length)
    else if c.isDigit then scanNumber (c :: rest)
    else if c = '"' then (stringRest rest).map fun n => (.token .string, n + 1)
    else if c.toNat = 0x60 then (rawRest rest).map fun n => (.token .rawString, n + 1)
    else if c = '\'' then (runeRest rest).map fun n => (.token .rune, n + 1)
    else if c = '/' ∧ rest.head? = some '/' then
      some (.lineComment, 1 + (rest.takeWhile (· != '\n')).length)
    else if c = '/' ∧ rest.head? = some '*' then
      (commentRest (rest.drop 1)).map fun n => (.blockComment, n + 2)
    else if c = '.' then
      (scanNumber (c :: rest)).or (scanOperator (c :: rest))
    else scanOperator (c :: rest)

def byteCount (cs : List Char) : Nat :=
  cs.foldl (fun count c => count + c.utf8Size) 0

/-- Cuts a text that begins at an offset into lexemes. -/
def lexFrom (offset : Nat) : List Char → Option (List Lexeme)
  | [] => some []
  | c :: rest =>
    match scanLexeme (c :: rest) with
    | none | some (_, 0) => none
    | some (kind, n + 1) =>
      let word := c :: rest.take n
      let stop := offset + byteCount word
      (lexFrom stop (rest.drop n)).map (⟨kind, String.ofList word, ⟨offset, stop⟩⟩ :: ·)
termination_by cs => cs.length
decreasing_by simp only [List.length_drop, List.length_cons]; omega

/-- The mark that may stand at the very start of a text and counts as nothing. -/
def byteOrderMark : Char := '\ufeff'

/-- Cuts a text into lexemes, after a byte-order mark. -/
def lex (text : String) : Option (List Lexeme) :=
  match text.toList with
  | c :: rest => if c = byteOrderMark then lexFrom c.utf8Size rest else lexFrom 0 (c :: rest)
  | [] => some []

/-- The tokens among lexemes; `newline` is the first line break seen since the last token. -/
def tokensOf (newline : Option Nat) : List Lexeme → List Token
  | [] => []
  | l :: rest =>
    match l.kind with
    | .token kind => ⟨kind, l.text, l.span, newline⟩ :: tokensOf none rest
    | .newline => tokensOf (newline.or (some l.span.start)) rest
    | _ => tokensOf newline rest

/-- The offset of the first lexeme that is not white space, or the end of the text. -/
def contentStart (text : String) (lexemes : List Lexeme) : Nat :=
  match lexemes.find? fun l => l.kind != .newline && l.kind != .blank with
  | some l => l.span.start
  | none => byteLength text

end Lintel.Go
