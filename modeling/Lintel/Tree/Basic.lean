import Lintel.Source
import Lintel.Tree.Node

/-!
# Syntax trees

A tree is an arena in which every node comes after its children and every node but
the last is the child of exactly one other; the last node is the root. A list of
nodes is accepted as a tree exactly if it has this form.
-/

namespace Lintel

/-- All pairs of a parent and one of its children, by parent and then in child order. -/
def links (nodes : Array Node) : List (Nat × Nat) :=
  nodes.toList.zipIdx.flatMap fun (node, parent) => node.children.map fun child => (parent, child)

/-- All children of an arena, in the same order. -/
def linkedChildren (nodes : Array Node) : List Nat :=
  (links nodes).map (·.2)

/-- The form of an arena that is a tree with its last node as the root. -/
structure IsTree (nodes : Array Node) : Prop where
  nonempty : 0 < nodes.size
  child_lt : ∀ link ∈ links nodes, link.2 < link.1
  unshared : (linkedChildren nodes).Nodup
  reached : ∀ id, id + 1 < nodes.size → id ∈ linkedChildren nodes

/-- The tree of a source file. -/
structure Tree where
  file : SourceFile
  nodes : Array Node
  isTree : IsTree nodes

inductive TreeError where
  | danglingChild (parent child : Nat)
  | sharedChild (child : Nat)
  | orphan (id : Nat)
  | empty
  deriving DecidableEq, Repr

def TreeError.message : TreeError → String
  | .danglingChild parent child => s!"node {parent} references unknown child {child}"
  | .sharedChild child => s!"node {child} has more than one parent"
  | .orphan id => s!"node {id} is unreachable from the root"
  | .empty => "tree is empty"

/-- Marks children in order; a child must come before its parent and may be marked once. -/
def markChildren : List (Nat × Nat) → Array Bool → Except TreeError (Array Bool)
  | [], seen => .ok seen
  | (parent, child) :: rest, seen =>
    if parent ≤ child then .error (.danglingChild parent child)
    else if seen.getD child false then .error (.sharedChild child)
    else markChildren rest (seen.setIfInBounds child true)

private theorem markChildren_ok :
    ∀ {pairs : List (Nat × Nat)} {seen marked : Array Bool},
      (∀ p ∈ pairs, p.1 < seen.size) → markChildren pairs seen = .ok marked →
      (∀ p ∈ pairs, p.2 < p.1) ∧ (pairs.map (·.2)).Nodup ∧
        (∀ p ∈ pairs, seen.getD p.2 false = false) ∧
        ∀ id, marked.getD id false = true → seen.getD id false = true ∨ id ∈ pairs.map (·.2)
  | [], seen, marked, _, h => by
    simp only [markChildren, Except.ok.injEq] at h
    subst h
    simp
  | (parent, child) :: rest, seen, marked, bound, h => by
    simp only [markChildren] at h
    by_cases later : parent ≤ child
    · rw [if_pos later] at h
      cases h
    · rw [if_neg later] at h
      by_cases unseen : seen.getD child false = true
      · rw [if_pos unseen] at h
        cases h
      · rw [if_neg unseen] at h
        have parent_lt : parent < seen.size := bound (parent, child) (by simp)
        have child_lt : child < parent := by omega
        have child_in : child < seen.size := by omega
        have look : ∀ id, (seen.setIfInBounds child true).getD id false =
            if id = child then true else seen.getD id false := by
          intro id
          by_cases e : id = child
          · subst e; simp [Array.getD_eq_getD_getElem?, child_in]
          · simp [Array.getD_eq_getD_getElem?, Ne.symm e, e]
        obtain ⟨lt, nodup, fresh, back⟩ := markChildren_ok
          (fun p hp => by simpa using bound p (List.mem_cons_of_mem _ hp)) h
        have not_later : child ∉ rest.map (·.2) := by
          intro hc
          obtain ⟨p, hp, e⟩ := List.mem_map.mp hc
          have := fresh p hp
          rw [look, if_pos e] at this
          cases this
        refine ⟨?_, ?_, ?_, ?_⟩
        · intro p hp
          rcases List.mem_cons.mp hp with rfl | hp
          · exact child_lt
          · exact lt p hp
        · simpa using ⟨by simpa using not_later, nodup⟩
        · intro p hp
          rcases List.mem_cons.mp hp with rfl | hp
          · simpa using unseen
          · have := fresh p hp
            rw [look] at this
            split at this
            · cases this
            · exact this
        · intro id hid
          rcases back id hid with hid | hid
          · rw [look] at hid
            split at hid
            · rename_i e
              subst e
              exact .inr (by simp)
            · exact .inl hid
          · exact .inr (List.mem_cons_of_mem _ hid)

theorem links_parent_lt {nodes : Array Node} {link : Nat × Nat} (h : link ∈ links nodes) :
    link.1 < nodes.size := by
  simp only [links, List.mem_flatMap, List.mem_map] at h
  obtain ⟨⟨node, parent⟩, hn, child, _, rfl⟩ := h
  rw [List.mem_zipIdx_iff_getElem?] at hn
  obtain ⟨bound, _⟩ := List.getElem?_eq_some_iff.mp hn
  simpa using bound

/-- Reads a list of nodes as a tree, with its last node as the root. The first dangling
or shared child decides before the lowest node without a parent. -/
def Tree.ofNodes (file : SourceFile) (nodes : Array Node) : Except TreeError Tree :=
  if nonempty : 0 < nodes.size then
    match marked : markChildren (links nodes) (Array.replicate nodes.size false) with
    | .error e => .error e
    | .ok seen =>
      match unreached : (List.range (nodes.size - 1)).find? fun id => !seen.getD id false with
      | some id => .error (.orphan id)
      | none =>
        have facts := markChildren_ok (fun p hp => by simpa using links_parent_lt hp) marked
        .ok {
          file := file
          nodes := nodes
          isTree := {
            nonempty := nonempty
            child_lt := facts.1
            unshared := facts.2.1
            reached := fun id hid => by
              have := List.find?_eq_none.mp unreached id (List.mem_range.mpr (by omega))
              rcases facts.2.2.2 id (by simpa using this) with h | h
              · by_cases e : id < nodes.size <;> simp [Array.getD_eq_getD_getElem?, e] at h
              · exact h } }
  else
    .error .empty

namespace Tree

def size (t : Tree) : Nat :=
  t.nodes.size

/-- The last node of the arena. -/
def root (t : Tree) : Nat :=
  t.nodes.size - 1

/-- The node with an id; an id outside the arena names an empty node. -/
def node (t : Tree) (id : Nat) : Node :=
  t.nodes[id]?.getD default

def kind (t : Tree) (id : Nat) : NodeKind :=
  (t.node id).kind

def tag (t : Tree) (id : Nat) : NodeTag :=
  (t.kind id).tag

def span (t : Tree) (id : Nat) : Span :=
  (t.node id).span

def children (t : Tree) (id : Nat) : List Nat :=
  (t.node id).children

/-- The source text of a range, or the empty text when the range does not fit. -/
def textOf (t : Tree) (span : Span) : String :=
  t.file.text span.start span.stop

def text (t : Tree) (id : Nat) : String :=
  t.textOf (t.span id)

def ident? (t : Tree) (id : Nat) : Option String :=
  (t.kind id).ident?

/-- Tag and range of a node in one word. -/
def describe (t : Tree) (id : Nat) : String :=
  s!"{(t.tag id).text}@{(t.span id).start}..{(t.span id).stop}"

theorem mem_links_of_mem_children {t : Tree} {parent child : Nat}
    (h : child ∈ t.children parent) : (parent, child) ∈ links t.nodes := by
  simp only [children, node] at h
  rcases e : t.nodes[parent]? with _ | n
  · rw [e] at h
    simp [default, instInhabitedNode.default] at h
  · rw [e] at h
    simp only [links, List.mem_flatMap, List.mem_map]
    refine ⟨(n, parent), ?_, child, h, rfl⟩
    rw [List.mem_zipIdx_iff_getElem?]
    simpa using e

theorem lt_of_mem_children {t : Tree} {parent child : Nat} (h : child ∈ t.children parent) :
    child < parent :=
  t.isTree.child_lt _ (mem_links_of_mem_children h)

end Tree

end Lintel
