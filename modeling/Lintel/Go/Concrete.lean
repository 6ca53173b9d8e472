import Lintel.Span

/-!
# Concrete syntax

A concrete syntax tree keeps every node and token of the grammar. A node has the name
that the grammar gives it, and a label when it plays a part in its parent. Unnamed
nodes are mere tokens, and extra nodes, such as comments, may stand anywhere.
-/

namespace Lintel.Go

/-- A node of a concrete syntax tree with the label it has in its parent. -/
inductive Concrete where
  | node (label : Option String) (kind : String) (named extra : Bool) (span : Span)
    (children : List Concrete)
  deriving Inhabited, Repr

namespace Concrete

def label : Concrete → Option String
  | .node label _ _ _ _ _ => label

def kind : Concrete → String
  | .node _ kind _ _ _ _ => kind

def named : Concrete → Bool
  | .node _ _ named _ _ _ => named

def extra : Concrete → Bool
  | .node _ _ _ extra _ _ => extra

def span : Concrete → Span
  | .node _ _ _ _ span _ => span

def children : Concrete → List Concrete
  | .node _ _ _ _ _ children => children

def labelled (name : String) : Concrete → Concrete
  | .node _ kind named extra span children => .node (some name) kind named extra span children

def renamed (kind : String) : Concrete → Concrete
  | .node label _ named extra span children => .node label kind named extra span children

def spanOf (children : List Concrete) : Span :=
  match children.head?, children.getLast? with
  | some first, some last => ⟨first.span.start, last.span.stop⟩
  | _, _ => ⟨0, 0⟩

def joining (kind : String) (children : List Concrete) : Concrete :=
  .node none kind true false (spanOf children) children

end Concrete

end Lintel.Go
