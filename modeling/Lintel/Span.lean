/-!
# Byte ranges

A half-open range of byte offsets into a source. Nothing forces the ends into
order: a range whose start lies after its stop is empty.
-/

namespace Lintel

/-- The bytes from `start` up to, but without, `stop`. -/
structure Span where
  start : Nat
  stop : Nat
  deriving DecidableEq, Repr, Inhabited

namespace Span

def length (s : Span) : Nat :=
  s.stop - s.start

def isEmpty (s : Span) : Bool :=
  s.length == 0

def contains (s other : Span) : Bool :=
  s.start ≤ other.start && other.stop ≤ s.stop

end Span

end Lintel
