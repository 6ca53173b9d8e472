/-!
# Machine words

Offsets are kept in words of 64 bits. A sum of words may be none. A build that checks its sums
stops there, and one that does not goes on with what is left of the sum.
-/

namespace Lintel

def wordCount : Nat :=
  UInt64.size

/-- What a build does about a sum that is no word. -/
inductive Overflow where
  | stops
  | wraps
  deriving DecidableEq, Repr

/-- The word that a build has for a sum, if it goes on. -/
def Overflow.word (overflow : Overflow) (sum : Nat) : Option Nat :=
  if sum < wordCount then
    some sum
  else
    match overflow with
    | .stops => none
    | .wraps => some (sum % wordCount)

@[simp] theorem Overflow.word_of_lt (overflow : Overflow) {sum : Nat} (h : sum < wordCount) :
    overflow.word sum = some sum :=
  if_pos h

end Lintel
