import Lintel.Go.Concrete
import Lintel.Proofs.Tree.Placed

/-!
# Where concrete syntax stands

What is asked of a parser: the nodes of a concrete tree lie in the text, children lie in
their parents and in order, a block begins and ends with a brace, and a body is a block.
-/

namespace Lintel

open Lintel.Text

namespace Go

/-- A token that is a brace at an offset. -/
structure Concrete.IsBrace (text brace : String) (offset : Nat) (c : Concrete) : Prop where
  token : c.named = false
  span : c.span = ⟨offset, offset + 1⟩
  text : slice? text offset (offset + 1) = some brace

instance (text brace : String) (offset : Nat) (c : Concrete) :
    Decidable (c.IsBrace text brace offset) :=
  decidable_of_iff (c.named = false ∧ c.span = ⟨offset, offset + 1⟩ ∧
      slice? text offset (offset + 1) = some brace)
    ⟨fun ⟨h, hs, ht⟩ => ⟨h, hs, ht⟩, fun ⟨h, hs, ht⟩ => ⟨h, hs, ht⟩⟩

/-- A node that stands as it should over its children. -/
structure Seated (text kind : String) (span : Span) (children : List Concrete) : Prop where
  fits : span.Fits text
  inside : ∀ c ∈ children, span.contains c.span = true
  ordered : children.Pairwise fun a b => a.span.stop ≤ b.span.start
  opening : kind = "block" → ∃ c ∈ children.head?.toList, c.IsBrace text "\x7b" span.start
  closing : kind = "block" → ∃ c ∈ children.getLast?.toList, c.IsBrace text "\x7d" (span.stop - 1)
  bodies : kind ≠ "composite_literal" → ∀ c ∈ children, c.label = some "body" → c.kind = "block"

instance (text kind : String) (span : Span) (children : List Concrete) :
    Decidable (Seated text kind span children) :=
  decidable_of_iff (span.Fits text ∧ (∀ c ∈ children, span.contains c.span = true) ∧
      (children.Pairwise fun a b => a.span.stop ≤ b.span.start) ∧
      (kind = "block" → ∃ c ∈ children.head?.toList, c.IsBrace text "\x7b" span.start) ∧
      (kind = "block" → ∃ c ∈ children.getLast?.toList, c.IsBrace text "\x7d" (span.stop - 1)) ∧
      (kind ≠ "composite_literal" →
        ∀ c ∈ children, c.label = some "body" → c.kind = "block"))
    ⟨fun ⟨h, hi, ho, hopen, hclose, hb⟩ => ⟨h, hi, ho, hopen, hclose, hb⟩,
      fun ⟨h, hi, ho, hopen, hclose, hb⟩ => ⟨h, hi, ho, hopen, hclose, hb⟩⟩

mutual

/-- A concrete tree whose nodes all stand as they should. -/
def Concrete.Placed (text : String) : Concrete → Prop
  | .node _ kind _ _ span children => Seated text kind span children ∧ AllPlaced text children

def AllPlaced (text : String) : List Concrete → Prop
  | [] => True
  | c :: rest => c.Placed text ∧ AllPlaced text rest

end

mutual

instance Concrete.decidablePlaced (text : String) : (c : Concrete) → Decidable (c.Placed text)
  | .node _ kind _ _ span children =>
    have := decidableAllPlaced text children
    inferInstanceAs (Decidable (Seated text kind span children ∧ AllPlaced text children))

instance decidableAllPlaced (text : String) : (cs : List Concrete) → Decidable (AllPlaced text cs)
  | [] => .isTrue trivial
  | c :: rest =>
    have := c.decidablePlaced text
    have := decidableAllPlaced text rest
    inferInstanceAs (Decidable (c.Placed text ∧ AllPlaced text rest))

end

end Go

end Lintel
