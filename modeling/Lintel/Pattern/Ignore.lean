import Lintel.Pattern.Glob

/-!
# Ignore files

An ignore file holds one pattern a line, for paths below its directory. A later line
overrides an earlier one, a line after an exclamation mark takes paths back in, and a
slash at its end restricts it to directories. Stars and question marks do not match a
slash; two stars between slashes stand for any directories. Lines that make no sense
say nothing.
-/

namespace Lintel.Pattern

open Lintel.Text

inductive PathToken where
  | char (c : Char)
  | anyChar
  | anyRun
  | anyStart
  | anyMiddle
  | anyEnd
  | oneOf (negated : Bool) (ranges : List CharRange)
  deriving DecidableEq, Repr

structure IgnoreRule where
  tokens : List PathToken
  includes : Bool
  directories : Bool
  deriving DecidableEq, Repr

/-! ### Reading patterns -/

def stretchLast (ranges : List CharRange) (c : Char) : Option (List CharRange) :=
  match ranges.reverse with
  | [] => none
  | last :: earlier => if c < last.low then none else some ((⟨last.low, c⟩ :: earlier).reverse)

/-- Reads the characters of a set up to its closing bracket. A closing bracket or a dash in
the first place stands for itself, and so does a dash in the last place. -/
def readSet (first dashed : Bool) (ranges : List CharRange) :
    List Char → Option (List CharRange × List Char)
  | [] => none
  | c :: rest =>
    if c == ']' && !first then
      some (if dashed then ranges ++ [⟨'-', '-'⟩] else ranges, rest)
    else if c == '-' && !first && !dashed then
      readSet false true ranges rest
    else if dashed then do
      readSet false false (← stretchLast ranges c) rest
    else
      readSet false false (ranges ++ [⟨c, c⟩]) rest

def readOneOf : List Char → Option (PathToken × List Char)
  | '!' :: rest | '^' :: rest =>
    (readSet true false [] rest).map fun (ranges, after) => (.oneOf true ranges, after)
  | rest => (readSet true false [] rest).map fun (ranges, after) => (.oneOf false ranges, after)

/-- Reads two stars after the pieces before them, the last first, and the character before
them. The slash on either side of the stars belongs to them. -/
def readStars (done : List PathToken) (before : Option Char) (rest : List Char) :
    List PathToken × List Char :=
  match done, before, rest with
  | [], _, [] => ([.anyStart], [])
  | [], _, '/' :: after => ([.anyStart], after)
  | .anyStart :: _, some '/', [] | .anyEnd :: _, some '/', [] => (done, [])
  | .anyStart :: _, some '/', '/' :: after | .anyEnd :: _, some '/', '/' :: after => (done, after)
  | _ :: earlier, some '/', [] => (.anyEnd :: earlier, [])
  | _ :: earlier, some '/', '/' :: after => (.anyMiddle :: earlier, after)
  | _, _, _ => (.anyRun :: .anyRun :: done, rest)

/-- Reads pieces to the end, at most a number of them; `done` holds the ones before, the
last first. -/
def readPath : Nat → List PathToken → Option Char → List Char → Option (List PathToken)
  | 0, done, _, _ => some done.reverse
  | steps + 1, done, before, cs =>
    match cs with
    | [] => some done.reverse
    | '?' :: rest => readPath steps (.anyChar :: done) (some '?') rest
    | '*' :: '*' :: rest =>
      let (tokens, after) := readStars done before rest
      let last := if after.length < rest.length then '/' else '*'
      readPath steps tokens (some last) after
    | '*' :: rest => readPath steps (.anyRun :: done) (some '*') rest
    | '[' :: rest => do
      let (token, after) ← readOneOf rest
      readPath steps (token :: done) (some ']') after
    | '\\' :: c :: rest => readPath steps (.char c :: done) (some c) rest
    | '\\' :: [] => none
    | c :: rest => readPath steps (.char c :: done) (some c) rest

def pathTokens? (cs : List Char) : Option (List PathToken) :=
  readPath (cs.length + 1) [] none cs

/-- The alternatives between braces, each followed by the rest; braces must be closed and
may not be nested. -/
def branches : Nat → List Char → Option (List (List Char))
  | 0, _ => none
  | steps + 1, cs =>
    let (plain, rest) := cs.span fun c => c != '\x7b' && c != '\x7d' && c != '\\'
    match rest with
    | [] => some [plain]
    | '\\' :: c :: after => do
      return (← branches steps after).map fun tail => plain ++ '\\' :: c :: tail
    | '\x7b' :: after => do
      let (inner, close) := after.span fun c => c != '\x7b' && c != '\x7d'
      match close with
      | '\x7d' :: last =>
        let tails ← branches steps last
        return (splitAt (· == ',') inner).flatMap fun choice =>
          tails.map fun tail => plain ++ choice ++ tail
      | _ => none
    | _ => none

/-- Spaces at the end do not count, unless the last one is escaped. -/
def withoutTrailing (line : List Char) : List Char :=
  match line.reverse with
  | ' ' :: '\\' :: _ => line
  | _ => trimRight isBlank line

/-- Whether a pattern is free to match below any directory already. -/
def startsAnywhere (cs : List Char) : Bool :=
  cs == ['*', '*'] || (after? ['*', '*', '/'] cs).isSome

/-- The pattern that a line stands for: it may match below any directory unless it has a
slash, and what ends with two stars means what is inside a directory. -/
def completed (anchored : Bool) (cs : List Char) : List Char :=
  let placed :=
    if !anchored && !cs.contains '/' && !startsAnywhere cs then ['*', '*', '/'] ++ cs else cs
  if (after? ['*', '*', '/'] placed.reverse).isSome then placed ++ ['/', '*'] else placed

/-- A slash at the end of a pattern, taken off with the backslash before it. -/
def withoutSlash (cs : List Char) : List Char × Bool :=
  match cs.reverse with
  | '/' :: '\\' :: rest => (rest.reverse, true)
  | '/' :: rest => (rest.reverse, true)
  | _ => (cs, false)

/-- The marks at the start of a line: whether it takes paths back in, whether it is bound
to the directory of the file, and what follows. -/
def lineMarks : List Char → Bool × Bool × List Char
  | '\\' :: '!' :: rest => (false, false, '!' :: rest)
  | '\\' :: '#' :: rest => (false, false, '#' :: rest)
  | '!' :: '/' :: rest => (true, true, rest)
  | '!' :: rest => (true, false, rest)
  | '/' :: rest => (false, true, rest)
  | cs => (false, false, cs)

/-- The rules of a line: one for every alternative, and none for a line that says nothing. -/
def IgnoreRule.ofLine (line : List Char) : List IgnoreRule :=
  let line := withoutTrailing line
  if line.isEmpty || line.head? == some '#' then
    []
  else
    let (includes, anchored, rest) := lineMarks line
    let (body, directories) := withoutSlash rest
    let texts := branches (body.length + 1) (completed anchored body)
    match texts.bind fun texts => texts.mapM pathTokens? with
    | some found => found.map fun tokens => ⟨tokens, includes, directories⟩
    | none => []

def IgnoreRule.ofLines (lines : List String) : List IgnoreRule :=
  lines.flatMap fun line => ofLine line.toList

/-! ### Matching -/

def afterSlash (test : List Char → Bool) : List Char → Bool
  | [] => false
  | c :: rest => (c == '/' && test rest) || afterSlash test rest

def someEnd (test : List Char → Bool) : List Char → Bool
  | [] => test []
  | c :: rest => test (c :: rest) || someEnd test rest

/-- Whether a test holds for an end of a text that leaves out no slash. -/
def skipName (test : List Char → Bool) : List Char → Bool
  | [] => test []
  | c :: rest => test (c :: rest) || (c != '/' && skipName test rest)

def matchPath : List PathToken → List Char → Bool
  | [], cs => cs.isEmpty
  | .anyRun :: tokens, cs => skipName (matchPath tokens) cs
  | .anyStart :: tokens, cs => matchPath tokens cs || afterSlash (matchPath tokens) cs
  | _ :: _, [] => false
  | .char c :: tokens, d :: cs => c == d && matchPath tokens cs
  | .anyChar :: tokens, c :: cs => c != '/' && matchPath tokens cs
  | .oneOf negated ranges :: tokens, c :: cs =>
    (ranges.any (·.contains c) != negated) && matchPath tokens cs
  | .anyMiddle :: tokens, c :: cs =>
    c == '/' && (matchPath tokens cs || afterSlash (matchPath tokens) cs)
  | .anyEnd :: tokens, c :: cs => c == '/' && someEnd (matchPath tokens) cs

/-- Whether a rule is about a path; two stars alone mean every path. -/
def IgnoreRule.appliesTo (rule : IgnoreRule) (path : String) (isDirectory : Bool) : Bool :=
  (rule.tokens == [.anyStart] || matchPath rule.tokens path.toList)
    && (!rule.directories || isDirectory)

/-- What rules say about a path below their directory: whether it is ignored or taken back
in. The last rule that matches decides. -/
def ignoreVerdict? (rules : List IgnoreRule) (path : String) (isDirectory : Bool) : Option Bool :=
  (rules.reverse.find? fun rule => rule.appliesTo path isDirectory).map (!·.includes)

end Lintel.Pattern
