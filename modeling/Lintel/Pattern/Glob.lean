import Lintel.Text.Chars

/-!
# Glob patterns

Patterns over whole paths. A question mark stands for one character and a star for any
run of them, slashes included. Two stars stand for whole parts of a path and must not
share a part with anything else. Brackets name the characters of one place.
-/

namespace Lintel.Pattern

structure CharRange where
  low : Char
  high : Char
  deriving DecidableEq, Repr

def CharRange.contains (range : CharRange) (c : Char) : Bool :=
  range.low ≤ c && c ≤ range.high

inductive GlobToken where
  | char (c : Char)
  | anyChar
  | anyRun
  | anyParts
  | within (ranges : List CharRange)
  | except (ranges : List CharRange)
  deriving DecidableEq, Repr

structure Glob where
  tokens : List GlobToken
  deriving DecidableEq, Repr

/-- What is wrong with a pattern, with the place in characters. -/
inductive GlobError where
  | wildcards (position : Nat)
  | recursiveWildcards (position : Nat)
  | range (position : Nat)
  deriving DecidableEq, Repr

namespace GlobError

def position : GlobError → Nat
  | .wildcards position | .recursiveWildcards position | .range position => position

def reason : GlobError → String
  | .wildcards _ => "wildcards are either regular `*` or recursive `**`"
  | .recursiveWildcards _ => "recursive wildcards must form a single path component"
  | .range _ => "invalid range pattern"

def message (e : GlobError) : String :=
  s!"Pattern syntax error near position {e.position}: {e.reason}"

end GlobError

/-! ### Reading patterns -/

def charRanges : List Char → List CharRange
  | low :: '-' :: high :: rest => ⟨low, high⟩ :: charRanges rest
  | c :: rest => ⟨c, c⟩ :: charRanges rest
  | [] => []

/-- The text up to the first closing bracket after its first character, and what follows. -/
def bracketBody? : List Char → Option (List Char × List Char)
  | [] => none
  | first :: rest =>
    let (inner, tail) := rest.span (· != ']')
    match tail with
    | [] => none
    | _ :: after => some (first :: inner, after)

def bracketSet? : List Char → Option (GlobToken × List Char)
  | '!' :: rest => (bracketBody? rest).map fun (body, after) => (.except (charRanges body), after)
  | rest => (bracketBody? rest).map fun (body, after) => (.within (charRanges body), after)

/-- Reads two stars; `before` is the character before them. -/
def partsToken (position : Nat) (before : Option Char) (rest : List Char) :
    Except GlobError (List Char) :=
  if before.all (· == '/') then
    match rest with
    | [] => .ok []
    | '/' :: after => .ok after
    | _ => .error (.recursiveWildcards (position + 2))
  else
    .error (.recursiveWildcards (position - 1))

def nextToken (position : Nat) (before : Option Char) :
    List Char → Except GlobError (Option GlobToken × List Char)
  | [] => .ok (none, [])
  | '?' :: rest => .ok (some .anyChar, rest)
  | '*' :: '*' :: '*' :: _ => .error (.wildcards (position + 2))
  | '*' :: '*' :: rest => do return (some .anyParts, ← partsToken position before rest)
  | '*' :: rest => .ok (some .anyRun, rest)
  | '[' :: rest =>
    match bracketSet? rest with
    | some (token, after) => .ok (some token, after)
    | none => .error (.range position)
  | c :: rest => .ok (some (.char c), rest)

/-- Reads pieces to the end, at most a number of them. -/
def readTokens : Nat → Nat → Option Char → List Char → Except GlobError (List GlobToken)
  | 0, _, _, _ => .ok []
  | steps + 1, position, before, cs => do
    match ← nextToken position before cs with
    | (none, _) => return []
    | (some token, rest) =>
      let taken := cs.length - rest.length
      let others ← readTokens steps (position + taken) ((cs.take taken).getLast?) rest
      return token :: others

def Glob.ofText (text : String) : Except GlobError Glob := do
  return ⟨← readTokens (text.length + 1) 0 none text.toList⟩

/-! ### Matching -/

/-- How an attempt to match ended; a text that ran out cannot be matched by skipping more
of it. -/
inductive GlobMatch where
  | matched
  | failed
  | exhausted
  deriving DecidableEq, Repr

def GlobToken.accepts : GlobToken → Char → Bool
  | .char c, d => c == d
  | .within ranges, d => ranges.any (·.contains d)
  | .except ranges, d => !ranges.any (·.contains d)
  | .anyChar, _ | .anyRun, _ | .anyParts, _ => true

/-- Tries the rest of a pattern after every run of characters, the shortest first; with
`parts` only runs that end with a slash or with the text count. -/
def skipRuns (next : List Char → GlobMatch) (parts : Bool) : List Char → GlobMatch
  | [] => next []
  | c :: rest =>
    if parts && c != '/' then
      skipRuns next parts rest
    else
      match next rest with
      | .failed => skipRuns next parts rest
      | answer => answer

/-- Tries the rest of a pattern at once, and then after every run of characters. -/
def tryRuns (next : List Char → GlobMatch) (parts : Bool) (cs : List Char) : GlobMatch :=
  match next cs with
  | .failed => skipRuns next parts cs
  | answer => answer

def matchTokens : List GlobToken → List Char → GlobMatch
  | [], cs => if cs.isEmpty then .matched else .failed
  | .anyRun :: tokens, cs => tryRuns (matchTokens tokens) false cs
  | .anyParts :: tokens, cs => tryRuns (matchTokens tokens) true cs
  | _ :: _, [] => .exhausted
  | token :: tokens, c :: cs => if token.accepts c then matchTokens tokens cs else .failed

def Glob.matchesText (glob : Glob) (text : String) : Bool :=
  matchTokens glob.tokens text.toList == .matched

end Lintel.Pattern
