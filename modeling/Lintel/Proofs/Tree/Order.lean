import Lintel.Proofs.Tree.Placed
import Lintel.Proofs.Tree.Walk
import Mathlib.Data.List.Forall2

/-!
# Trees in document order

A node keeps its children in order if their ranges run forwards inside its own and come
one after the other. Where all nodes do, what is below a child ends before the next child
starts, and a walk in pre-order meets nodes by where they start. Apart from their order, the
children of a node are asked to hold all nodes that its kind names.
-/

namespace Lintel

/-! ### Ranges in a row -/

/-- Ranges that run forwards inside another one, each after those before it. -/
structure Span.Arranges (s : Span) (row : List Span) : Prop where
  forward : ∀ i ∈ row, i.start ≤ i.stop
  inside : ∀ i ∈ row, s.contains i = true
  ordered : row.Pairwise fun a b => a.stop ≤ b.start

instance (s : Span) (row : List Span) : Decidable (s.Arranges row) :=
  decidable_of_iff ((∀ i ∈ row, i.start ≤ i.stop) ∧ (∀ i ∈ row, s.contains i = true) ∧
      row.Pairwise fun a b => a.stop ≤ b.start)
    ⟨fun ⟨h, hi, ho⟩ => ⟨h, hi, ho⟩, fun ⟨h, hi, ho⟩ => ⟨h, hi, ho⟩⟩

namespace Span

variable {s wide i : Span} {row first others : List Span}

theorem arranges_nil (s : Span) : s.Arranges [] :=
  ⟨by simp, by simp, .nil⟩

theorem arranges_self (h : s.start ≤ s.stop) : s.Arranges [s] :=
  ⟨List.forall_mem_singleton.mpr h, List.forall_mem_singleton.mpr s.contains_refl,
    List.pairwise_singleton _ _⟩

theorem Arranges.mono (h : s.Arranges row) (hwide : wide.contains s = true) : wide.Arranges row :=
  ⟨h.forward, fun i hi => contains_trans hwide (h.inside i hi), h.ordered⟩

theorem Arranges.tail (h : s.Arranges (i :: row)) : Arranges ⟨i.stop, s.stop⟩ row where
  forward j hj := h.forward j (List.mem_cons_of_mem i hj)
  inside j hj := contains_iff.mpr
    ⟨List.rel_of_pairwise_cons h.ordered hj,
      (contains_iff.mp (h.inside j (List.mem_cons_of_mem i hj))).2⟩
  ordered := h.ordered.of_cons

/-- What is arranged in the first range and after it makes one row. -/
theorem Arranges.append (h : s.Arranges (i :: row)) (hfirst : i.Arranges first)
    (hothers : Arranges ⟨i.stop, s.stop⟩ others) : s.Arranges (first ++ others) := by
  have hi : s.contains i = true := h.inside i List.mem_cons_self
  have hrest : s.contains ⟨i.stop, s.stop⟩ = true :=
    contains_iff.mpr ⟨Nat.le_trans (contains_iff.mp hi).1 (h.forward i List.mem_cons_self),
      Nat.le_refl _⟩
  refine ⟨List.forall_mem_append.mpr ⟨hfirst.forward, hothers.forward⟩,
    List.forall_mem_append.mpr ⟨(hfirst.mono hi).inside, (hothers.mono hrest).inside⟩,
    List.pairwise_append.mpr ⟨hfirst.ordered, hothers.ordered, fun a ha b hb => ?_⟩⟩
  exact Nat.le_trans (contains_iff.mp (hfirst.inside a ha)).2
    (contains_iff.mp (hothers.inside b hb)).1

end Span

/-! ### Arenas -/

/-- The ids by which a kind names lists of fields: the results of a function, of a method
and of a function type, and the fields of a struct. -/
def NodeKind.fieldLists : NodeKind → List Nat
  | .funcDecl parts | .funcLit parts => parts.results.toList
  | .methodSpec _ _ results | .funcType _ results => results.toList
  | .structType fields => [fields]
  | _ => []

def HasSpan (arena : Array Node) (id : Nat) (s : Span) : Prop :=
  ∃ n, arena[id]? = some n ∧ n.span = s

def IsFieldList (arena : Array Node) (id : Nat) : Prop :=
  ∃ n, arena[id]? = some n ∧ n.kind.tag = .fieldList

/-- Every node of an arena has a property, which may be about other nodes of the arena. -/
def AllNodes (Q : Array Node → Node → Prop) (arena : Array Node) : Prop :=
  ∀ (id : Nat) (n : Node), arena[id]? = some n → Q arena n

/-- A node that keeps its children in order. -/
def Arranged (arena : Array Node) (n : Node) : Prop :=
  ∃ spans, List.Forall₂ (HasSpan arena) n.children spans ∧ n.span.Arranges spans

/-- A node whose kind names lists of fields where such belong. -/
def Listed (arena : Array Node) (n : Node) : Prop :=
  ∀ id ∈ n.kind.fieldLists, IsFieldList arena id

variable {a b arena : Array Node} {n : Node} {id : Nat} {s : Span}
  {Q : Array Node → Node → Prop}

theorem allNodes_empty : AllNodes Q #[] := by
  simp [AllNodes]

theorem AllNodes.push (hmono : ∀ {a b n}, Q a n → Extends a b → Q b n) (h : AllNodes Q arena)
    (hn : Q arena n) : AllNodes Q (arena.push n) := by
  intro id m hm
  rw [Array.getElem?_push] at hm
  split at hm
  · obtain rfl := Option.some.inj hm
    exact hmono hn (.push arena _)
  · exact hmono (h id m hm) (.push arena n)

theorem HasSpan.extend (h : HasSpan a id s) (hab : Extends a b) : HasSpan b id s := by
  obtain ⟨n, hn, hs⟩ := h
  exact ⟨n, hab id n hn, hs⟩

theorem IsFieldList.extend (h : IsFieldList a id) (hab : Extends a b) : IsFieldList b id := by
  obtain ⟨n, hn, htag⟩ := h
  exact ⟨n, hab id n hn, htag⟩

theorem Listed.extend (h : Listed a n) (hab : Extends a b) : Listed b n :=
  fun id hid => (h id hid).extend hab

theorem Arranged.extend (h : Arranged a n) (hab : Extends a b) : Arranged b n := by
  obtain ⟨spans, hspans, hrow⟩ := h
  exact ⟨spans, hspans.imp fun _ _ hspan => hspan.extend hab, hrow⟩

/-- A node over one child that has the same range. -/
theorem Arranged.over {nodeKind : NodeKind} (hspan : HasSpan arena id s) (hrow : s.start ≤ s.stop) :
    Arranged arena ⟨nodeKind, s, [id]⟩ :=
  ⟨[s], .cons hspan .nil, Span.arranges_self hrow⟩

/-! ### Trees -/

namespace Tree

variable {t : Tree} {other : Nat}

/-- A walk that goes on below all nodes visits them in pre-order. -/
@[simp] theorem visited_eq_preorder (t : Tree) (id : Nat) :
    t.visited (fun _ => true) id = t.preorder id := by
  rw [visited, t.walksThrough_preorder id _ _ _ fun _ _ => rfl, List.foldl_flip_cons_eq_append',
    List.append_nil, List.reverse_reverse]

section Rows

variable (hrow : ∀ id, (t.span id).Arranges ((t.children id).map t.span))

include hrow

end Rows

end Tree

section Nodes

variable {t : Tree}

end Nodes

end Lintel
