/-!
# Byte offsets in texts

Offsets into a source count the bytes of its UTF-8 form. A cut is only possible at
an offset where a character begins or the text ends, and every function here
refuses any other offset.
-/

namespace Lintel.Text

abbrev byteLength (text : String) : Nat :=
  text.utf8ByteSize

/-- Whether an offset lies at the start of a character or at the end of the text. -/
def isBoundary (text : String) (offset : Nat) : Bool :=
  decide (String.Pos.Raw.IsValid text ⟨offset⟩)

/-- The text between two offsets, if they are boundaries in order. -/
def slice? (text : String) (start stop : Nat) : Option String :=
  if h : start ≤ stop ∧ String.Pos.Raw.IsValid text ⟨start⟩ ∧ String.Pos.Raw.IsValid text ⟨stop⟩ then
    some (text.extract ⟨⟨start⟩, h.2.1⟩ ⟨⟨stop⟩, h.2.2⟩)
  else
    none

def upTo? (text : String) (stop : Nat) : Option String :=
  slice? text 0 stop

def from? (text : String) (start : Nat) : Option String :=
  slice? text start (byteLength text)

end Lintel.Text
