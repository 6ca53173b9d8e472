import Lintel.Tree.Basic

/-!
# Walking a tree

A walk visits nodes in pre-order with a stack of pending nodes, so that nesting
costs no call depth. The visitor carries a state and says of each node whether the
walk goes on below it. A second walk also keeps the path of enclosing nodes: each
pending node remembers its depth, and the path is cut back to it on arrival.
-/

namespace Lintel

def total : List Nat → Nat
  | [] => 0
  | n :: rest => n + total rest

@[simp] private theorem total_append (a b : List Nat) : total (a ++ b) = total a + total b := by
  induction a with
  | nil => simp [total]
  | cons n a ih => simp only [List.cons_append, total, ih, Nat.add_assoc]

namespace Tree

variable {σ : Type}

/-- Number of visits that a full walk from a node takes. -/
def weight (t : Tree) (id : Nat) : Nat :=
  1 + total ((t.children id).attach.map fun ⟨child, _⟩ => weight t child)
termination_by id
decreasing_by exact lt_of_mem_children (by assumption)

theorem weight_eq (t : Tree) (id : Nat) :
    t.weight id = 1 + total ((t.children id).map t.weight) := by
  rw [weight, List.attach_map_val (f := t.weight)]

def walkStack (t : Tree) (visit : σ → Nat → σ × Bool) (state : σ) : List Nat → σ
  | [] => state
  | id :: pending =>
    match visit state id with
    | (next, true) => walkStack t visit next (t.children id ++ pending)
    | (next, false) => walkStack t visit next pending
termination_by pending => total (pending.map t.weight)
decreasing_by
  · simp only [List.map_append, total_append, List.map_cons, total, weight_eq t id]
    omega
  · simp only [List.map_cons, total, weight_eq t id]
    omega

/-- Visits the nodes below and including `id` in pre-order; the visitor answers whether
to go on below a node. -/
def walk (t : Tree) (visit : σ → Nat → σ × Bool) (state : σ) (id : Nat) : σ :=
  t.walkStack visit state [id]

/-- The nodes that a walk visits when it goes on below the nodes of a class. -/
def visited (t : Tree) (descend : Nat → Bool) (id : Nat) : List Nat :=
  (t.walk (fun seen n => (n :: seen, descend n)) [] id).reverse

/-- The nodes below and including `id` that satisfy a test, in pre-order. -/
def findAll (t : Tree) (test : Nat → Bool) (id : Nat) : List Nat :=
  (t.visited (fun _ => true) id).filter test

def descendants (t : Tree) (id : Nat) : List Nat :=
  t.findAll (fun n => n != id) id

/-- Visits pending nodes, each with its depth; the path holds the enclosing nodes of the
last visited node and perhaps more, the nearest first. -/
def walkStackWithPath (t : Tree) (visit : σ → Nat → List Nat → σ × Bool) (state : σ)
    (path : List Nat) : List (Nat × Nat) → σ
  | [] => state
  | (id, depth) :: pending =>
    let enclosing := path.drop (path.length - depth)
    match visit state id enclosing with
    | (next, true) =>
      walkStackWithPath t visit next (id :: enclosing)
        ((t.children id).map (fun child => (child, depth + 1)) ++ pending)
    | (next, false) => walkStackWithPath t visit next enclosing pending
termination_by pending => total (pending.map fun p => t.weight p.1)
decreasing_by
  · have drop_depth : ((t.children id).map fun child => (child, depth + 1)).map
        (fun p => t.weight p.1) = (t.children id).map t.weight := by simp [Function.comp_def]
    simp only [List.map_append, total_append, List.map_cons, total, drop_depth,
      weight_eq t id]
    omega
  · simp only [List.map_cons, total, weight_eq t id]
    omega

/-- Visits like `walk` and passes the enclosing nodes, the nearest first. -/
def walkWithPath (t : Tree) (visit : σ → Nat → List Nat → σ × Bool) (state : σ)
    (id : Nat) : σ :=
  t.walkStackWithPath visit state [] [(id, 0)]

def nearest (test : Nat → Bool) (path : List Nat) : Option Nat :=
  path.find? test

def enclosingFunction (t : Tree) (path : List Nat) : Option Nat :=
  nearest (fun id => [.funcDecl, .funcLit].contains (t.tag id)) path

def enclosingBlock (t : Tree) (path : List Nat) : Option Nat :=
  nearest (fun id => t.tag id == .block) path

def enclosingDeclaration (t : Tree) (path : List Nat) : Option Nat :=
  nearest (fun id => [.funcDecl, .typeDecl, .typeSpec, .constDecl, .varDecl].contains (t.tag id)) path

end Tree

end Lintel
