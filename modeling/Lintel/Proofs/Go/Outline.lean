import Lintel.Proofs.Go.Arena
import Mathlib.Data.List.Forall2

/-!
# What a lowered tree is made of

In pre-order a lowered tree holds one node for every node of the concrete syntax that is
kept, in document order and with its range, and besides only what is made for a bare result
and for an embedded pointer. The outline of concrete syntax says both in one list, and is
followed through lowering along with the arena, of which the tree only ever has more.
-/

namespace Lintel.Go

/-! ### Kept nodes -/

/-- Whether a node is lowered to its text. -/
def isLeaf (kind : String) : Bool :=
  (leafKind? kind "").isSome

theorem isSome_leafKind? (kind text : String) : (leafKind? kind text).isSome = isLeaf kind := by
  unfold isLeaf leafKind?
  split <;> rfl

mutual

/-- The kept nodes of concrete syntax below a node of a kind, in document order: those that
are named, no extras and no comments; a spliced node stands for what is below it, and below
a leaf nothing is kept. -/
def kept (parent : String) : Concrete → List Concrete
  | .node label kind named extra span cs =>
    if !named || extra || kind == "comment" then []
    else if isSpliced parent kind then keptAll kind cs
    else .node label kind named extra span cs :: if isLeaf kind then [] else keptAll kind cs

def keptAll (parent : String) : List Concrete → List Concrete
  | [] => []
  | c :: rest => kept parent c ++ keptAll parent rest

end

/-- The root and the kept nodes below it. -/
def Concrete.keptNodes (root : Concrete) : List Concrete :=
  root :: if isLeaf root.kind then [] else keptAll root.kind root.children

/-! ### Outlines -/

/-- What a node of a lowered tree comes from: from a node of concrete syntax; or it is the
field list, or the field in it, that is made for a bare result; or it is the pointer type
that is made for an embedded field. -/
inductive Origin where
  | node (c : Concrete)
  | resultList (span : Span)
  | resultField (span : Span)
  | pointer (span : Span)

def Origin.concrete? : Origin → Option Concrete
  | .node c => some c
  | _ => none

def Origin.Makes : Origin → Node → Prop
  | .node c, n => n.span = c.span
  | .resultList span, n => n.span = span ∧ n.kind = .fieldList ∧ ∃ field, n.children = [field]
  | .resultField span, n =>
    n.span = span ∧ ∃ type, n.kind = .field [] type none ∧ n.children = [type]
  | .pointer span, n => n.span = span ∧ ∃ elem, n.kind = .pointerType elem ∧ n.children = [elem]

/-- A child as its parent sees it: its label, its kind and range, and the origins of what is
below and including it in pre-order. -/
structure Outline where
  label : Option String
  kind : String
  span : Span
  origins : List Origin

def Outline.isBareResult (o : Outline) : Bool :=
  o.label == some "result" && o.kind != "parameter_list"

def Outline.isType (o : Outline) : Bool :=
  o.label == some "type"

def wrapFirst (test : Outline → Bool) (made : Outline → List Origin) : List Outline → List Outline
  | [] => []
  | o :: rest =>
    if test o then { o with origins := made o ++ o.origins } :: rest
    else o :: wrapFirst test made rest

/-- The outlines of the children of a node: a bare result of a function is wrapped, and so
is the type of an embedded field behind a star. -/
def wrapOutlines (kind : String) (tokens : List Concrete) (below : List Outline) : List Outline :=
  if hasResult kind then
    wrapFirst Outline.isBareResult (fun o => [.resultList o.span, .resultField o.span]) below
  else if kind == "field_declaration" then
    match tokens.head? with
    | some star =>
      if star.kind == "*" then
        wrapFirst Outline.isType (fun o => [.pointer ⟨star.span.start, o.span.stop⟩]) below
      else below
    | none => below
  else below

def originsOver (c : Concrete) (below : List Outline) : List Origin :=
  .node c :: if isLeaf c.kind then [] else (wrapOutlines c.kind c.children below).flatMap (·.origins)

mutual

/-- The outlines of what takes the place of a concrete node among the children of its
parent. -/
def outline (parent : String) (inherited : Option String) : Concrete → List Outline
  | .node label kind named extra span cs =>
    if !named || extra || kind == "comment" then []
    else if isSpliced parent kind then outlines kind (label.or inherited) cs
    else [⟨label.or inherited, kind, span,
      originsOver (.node label kind named extra span cs) (outlines kind none cs)⟩]

def outlines (parent : String) (inherited : Option String) : List Concrete → List Outline
  | [] => []
  | c :: rest => outline parent inherited c ++ outlines parent inherited rest

end

/-- The origins of the nodes of a lowered tree, in pre-order. -/
def Concrete.origins (root : Concrete) : List Origin :=
  originsOver root (outlines root.kind none root.children)

/-! ### Outlines hold what is kept -/

def concretes (below : List Outline) : List Concrete :=
  (below.flatMap (·.origins)).filterMap Origin.concrete?

@[simp] private theorem concretes_cons (o : Outline) (rest : List Outline) :
    concretes (o :: rest) = o.origins.filterMap Origin.concrete? ++ concretes rest := by
  rw [concretes, List.flatMap_cons, List.filterMap_append, concretes]

@[simp] private theorem concretes_append (first second : List Outline) :
    concretes (first ++ second) = concretes first ++ concretes second := by
  rw [concretes, List.flatMap_append, List.filterMap_append, concretes, concretes]

private theorem concretes_wrapFirst (test : Outline → Bool) {made : Outline → List Origin}
    (hmade : ∀ o, (made o).filterMap Origin.concrete? = []) (below : List Outline) :
    concretes (wrapFirst test made below) = concretes below := by
  induction below with
  | nil => rfl
  | cons o rest ih =>
    rw [wrapFirst]
    split
    · rw [concretes_cons, concretes_cons, List.filterMap_append, hmade, List.nil_append]
    · rw [concretes_cons, concretes_cons, ih]

@[simp] private theorem concretes_wrapOutlines (kind : String) (tokens : List Concrete)
    (below : List Outline) :
    concretes (wrapOutlines kind tokens below) = concretes below := by
  unfold wrapOutlines
  split
  · exact concretes_wrapFirst _ (fun _ => rfl) below
  · split
    · split
      · split
        · exact concretes_wrapFirst _ (fun _ => rfl) below
        · rfl
      · rfl
    · rfl

private theorem filterMap_originsOver (c : Concrete) (below : List Outline) :
    (originsOver c below).filterMap Origin.concrete? =
      c :: if isLeaf c.kind then [] else concretes below := by
  have hfirst : Origin.concrete? (.node c) = some c := rfl
  rw [originsOver, List.filterMap_cons_some hfirst]
  split
  · rfl
  · rw [← concretes_wrapOutlines c.kind c.children below, concretes]

mutual

@[simp] private theorem concretes_outline (parent : String) (inherited : Option String) :
    ∀ c : Concrete, concretes (outline parent inherited c) = kept parent c
  | .node label kind named extra span cs => by
    rw [outline, kept]
    split
    · rfl
    · split
      · exact concretes_outlines kind (label.or inherited) cs
      · rw [concretes_cons, filterMap_originsOver, concretes_outlines kind none cs]
        exact List.append_nil _

@[simp] private theorem concretes_outlines (parent : String) (inherited : Option String) :
    ∀ cs : List Concrete, concretes (outlines parent inherited cs) = keptAll parent cs
  | [] => by
    rw [outlines, keptAll]
    rfl
  | c :: rest => by
    rw [outlines, keptAll, concretes_append, concretes_outline parent inherited c,
      concretes_outlines parent inherited rest]

end

private theorem filterMap_origins (root : Concrete) :
    root.origins.filterMap Origin.concrete? = root.keptNodes := by
  rw [Concrete.origins, filterMap_originsOver, concretes_outlines, Concrete.keptNodes]

/-! ### Outlines of lowered trees -/

section Trees

variable {t : Tree} {arena : Array Node} {n : Node} {children : List Lowered}
  {below : List Outline} {l c replacement : Lowered} {o : Outline}

def Come (t : Tree) : List Nat → List Origin → Prop :=
  List.Forall₂ fun id origin => origin.Makes (t.node id)

/-- What is below and including a lowered child comes from the origins of an outline. -/
def Holds (t : Tree) (l : Lowered) (o : Outline) : Prop :=
  Come t (t.preorder l.id) o.origins

/-- A lowered child is as an outline says. -/
structure Outlined (t : Tree) (l : Lowered) (o : Outline) : Prop where
  label : l.label = o.label
  kind : l.kind = o.kind
  span : l.span = o.span
  holds : Holds t l o

/-- In a tree that has all of an arena, each child is related to the outline in its place. -/
def Shows (t : Tree) (Related : Lowered → Outline → Prop) (r : List Lowered × Array Node)
    (below : List Outline) : Prop :=
  Extends r.2 t.nodes → List.Forall₂ Related r.1 below

theorem Shows.holds {r : List Lowered × Array Node} (h : Shows t (Outlined t) r below) :
    Shows t (Holds t) r below :=
  fun hext => (h hext).imp fun _ _ hrel => hrel.holds

theorem node_of_push (h : Extends (arena.push n) t.nodes) : t.node arena.size = n :=
  Tree.node_eq_of_getElem? (h arena.size n Array.getElem?_push_size)

theorem preorder_of_push (h : Extends (arena.push n) t.nodes) :
    t.preorder arena.size = arena.size :: n.children.flatMap t.preorder := by
  rw [Tree.preorder_eq, Tree.children, node_of_push h]

/-- A node that is made over one other comes before what is below it. -/
theorem come_made {nodeKind : NodeKind} {span : Span} {id : Nat} {origin : Origin}
    {origins : List Origin} (hext : Extends (arena.push ⟨nodeKind, span, [id]⟩) t.nodes)
    (hmade : origin.Makes ⟨nodeKind, span, [id]⟩) (hcome : Come t (t.preorder id) origins) :
    Come t (t.preorder arena.size) (origin :: origins) := by
  rw [preorder_of_push hext, List.flatMap_singleton]
  exact .cons (by rw [node_of_push hext]; exact hmade) hcome

section Wrapping

variable {test : Lowered → Bool} {testOutline : Outline → Bool} {made : Outline → List Origin}

private theorem wrapFirst_of_find?_eq_none (h : List.Forall₂ (Outlined t) children below)
    (htest : ∀ l o, Outlined t l o → test l = testOutline o) (hnone : children.find? test = none) :
    wrapFirst testOutline made below = below := by
  induction h with
  | nil => rfl
  | @cons l o _ _ hfirst _ ih =>
    rw [List.find?_cons] at hnone
    rw [wrapFirst, ← htest l o hfirst]
    cases hl : test l with
    | true =>
      rw [hl] at hnone
      cases hnone
    | false =>
      rw [hl] at hnone
      rw [ih hnone, if_neg (by simp)]

private theorem holds_replaceFirst (h : List.Forall₂ (Outlined t) children below)
    (htest : ∀ l o, Outlined t l o → test l = testOutline o) (hc : children.find? test = some c)
    (hcome : ∀ o, Outlined t c o → Come t (t.preorder replacement.id) (made o ++ o.origins)) :
    List.Forall₂ (Holds t) (replaceFirst test replacement children)
      (wrapFirst testOutline made below) := by
  induction h with
  | nil => cases hc
  | @cons l o _ _ hfirst hrest ih =>
    rw [List.find?_cons] at hc
    rw [replaceFirst, wrapFirst, ← htest l o hfirst]
    cases hl : test l with
    | true =>
      rw [hl] at hc
      obtain rfl := Option.some.inj hc
      rw [if_pos rfl, if_pos rfl]
      exact .cons (hcome o hfirst) (hrest.imp fun _ _ hrel => hrel.holds)
    | false =>
      rw [hl] at hc
      rw [if_neg (by simp), if_neg (by simp)]
      exact .cons hfirst.holds (ih hc)

theorem Outlined.bare (h : Outlined t l o) :
    (l.label == some "result" && l.kind != "parameter_list") = o.isBareResult := by
  rw [h.label, h.kind, Outline.isBareResult]

theorem Outlined.type (h : Outlined t l o) : (l.label == some "type") = o.isType := by
  rw [h.label, Outline.isType]

theorem Shows.wrapResult (h : Shows t (Outlined t) (children, arena) below) :
    Shows t (Holds t) (wrapResult children arena)
      (wrapFirst Outline.isBareResult (fun o => [.resultList o.span, .resultField o.span]) below) := by
  unfold Go.wrapResult
  dsimp only
  split
  · rename_i hnone
    intro hext
    rw [wrapFirst_of_find?_eq_none (h hext) (fun _ _ hrel => hrel.bare) hnone]
    exact h.holds hext
  · rename_i c hc
    intro hext
    have hfield : Extends (arena.push ⟨.field [] c.id none, c.span, [c.id]⟩) t.nodes :=
      (Extends.push _ _).trans hext
    refine holds_replaceFirst (h ((Extends.push _ _).trans hfield)) (fun _ _ hrel => hrel.bare) hc
      fun o hrel => ?_
    exact come_made hext ⟨hrel.span, rfl, arena.size, rfl⟩
      (come_made hfield ⟨hrel.span, c.id, rfl, rfl⟩ hrel.holds)

theorem Shows.wrapPointer (tokens : List Concrete)
    (h : Shows t (Outlined t) (children, arena) below) :
    Shows t (Holds t) (wrapPointer tokens children arena)
      (match tokens.head? with
        | some star =>
          if star.kind == "*" then
            wrapFirst Outline.isType (fun o => [.pointer ⟨star.span.start, o.span.stop⟩]) below
          else below
        | none => below) := by
  unfold Go.wrapPointer
  dsimp only
  cases hstar : tokens.head? with
  | none => exact h.holds
  | some star =>
    cases hc : children.find? fun c => c.label == some "type" with
    | none =>
      intro hext
      dsimp only
      rw [wrapFirst_of_find?_eq_none (h hext) (fun _ _ hrel => hrel.type) hc, ite_self]
      exact h.holds hext
    | some c =>
      dsimp only
      split
      · intro hext
        refine holds_replaceFirst (h ((Extends.push _ _).trans hext)) (fun _ _ hrel => hrel.type) hc
          fun o hrel => ?_
        exact come_made hext ⟨by rw [hrel.span], c.id, rfl, rfl⟩ hrel.holds
      · exact h.holds

theorem Shows.wrapChildren (kind : String) (tokens : List Concrete)
    (h : Shows t (Outlined t) (children, arena) below) :
    Shows t (Holds t) (wrapChildren kind tokens children arena)
      (wrapOutlines kind tokens below) := by
  unfold Go.wrapChildren wrapOutlines
  split
  · exact h.wrapResult
  · split
    · exact h.wrapPointer tokens
    · exact h.holds

end Wrapping

/-- A node over outlined children comes from the node of concrete syntax. -/
theorem Shows.addNode (file : SourceFile) (root : Concrete) (label : Option String)
    (hleaf : isLeaf root.kind = false) (h : Shows t (Outlined t) (children, arena) below) :
    Shows t (Outlined t)
      ([⟨label, root.kind, root.span,
          (addNode file root.kind root.span root.children children arena).1⟩],
        (addNode file root.kind root.span root.children children arena).2)
      [⟨label, root.kind, root.span, originsOver root below⟩] := by
  have hwrapped := h.wrapChildren root.kind root.children
  unfold Go.addNode
  generalize Go.wrapChildren root.kind root.children children arena = r at hwrapped ⊢
  obtain ⟨wrapped, grown⟩ := r
  intro hext
  have hbelow := List.rel_flatMap (hwrapped ((Extends.push _ _).trans hext)) fun _ _ hholds => hholds
  refine .cons ⟨rfl, rfl, rfl, ?_⟩ .nil
  rw [Holds, preorder_of_push hext, originsOver, hleaf, List.flatMap_map]
  exact .cons (by rw [node_of_push hext]; rfl) hbelow

private theorem shows_leaf (arena : Array Node) (root : Concrete) (label : Option String)
    (leaf : NodeKind) (below : List Outline) (hleaf : isLeaf root.kind = true) :
    Shows t (Outlined t)
      ([⟨label, root.kind, root.span, arena.size⟩], arena.push ⟨leaf, root.span, []⟩)
      [⟨label, root.kind, root.span, originsOver root below⟩] := by
  intro hext
  refine .cons ⟨rfl, rfl, rfl, ?_⟩ .nil
  rw [Holds, preorder_of_push hext, originsOver, hleaf]
  exact .cons (by rw [node_of_push hext]; rfl) .nil

mutual

private theorem lowerNode_shows (file : SourceFile) (parent : String) (inherited : Option String) :
    ∀ (c : Concrete) (arena : Array Node),
      Shows t (Outlined t) (lowerNode file parent inherited c arena) (outline parent inherited c)
  | .node label kind named extra span tokens, arena => by
    rw [lowerNode, outline]
    split
    · exact fun _ => .nil
    · split
      · exact lowerNodes_shows file kind (label.or inherited) tokens arena
      · have hleaf := isSome_leafKind? kind (file.text span.start span.stop)
        split
        · rename_i leaf hfound
          rw [hfound] at hleaf
          exact shows_leaf arena (.node label kind named extra span tokens) _ leaf _ hleaf.symm
        · rename_i hfound
          rw [hfound] at hleaf
          exact (lowerNodes_shows file kind none tokens arena).addNode file
            (.node label kind named extra span tokens) (label.or inherited) hleaf.symm

theorem lowerNodes_shows (file : SourceFile) (parent : String) (inherited : Option String) :
    ∀ (cs : List Concrete) (arena : Array Node),
      Shows t (Outlined t) (lowerNodes file parent inherited cs arena)
        (outlines parent inherited cs)
  | [], arena => by
    rw [lowerNodes, outlines]
    exact fun _ => .nil
  | c :: rest, arena => by
    rw [lowerNodes, outlines]
    intro hext
    have hfirst := lowerNode_shows file parent inherited c arena
      ((lowerNodes_adds file parent inherited rest _).grows.trans hext)
    exact List.rel_append hfirst (lowerNodes_shows file parent inherited rest _ hext)

end

theorem size_addNode (file : SourceFile) (kind : String) (span : Span) (tokens : List Concrete)
    (children : List Lowered) (arena : Array Node) :
    (addNode file kind span tokens children arena).2.size =
      (addNode file kind span tokens children arena).1 + 1 := by
  rw [addNode, Array.size_push]

private theorem come_arenaOf (file : SourceFile) :
    ∀ root : Concrete, t.nodes = arenaOf file root → Come t (t.preorder t.root) root.origins
  | .node label kind named extra span tokens, hnodes => by
    have hleaf := isSome_leafKind? kind (file.text span.start span.stop)
    rw [arenaOf] at hnodes
    split at hnodes
    · rename_i leaf hfound
      rw [hfound] at hleaf
      have hshows := shows_leaf #[] (.node label kind named extra span tokens) label leaf
        (outlines kind none tokens) hleaf.symm (by rw [hnodes]; exact .refl _)
      rw [Tree.root, hnodes]
      exact (List.forall₂_cons.mp hshows).1.holds
    · rename_i hfound
      rw [hfound] at hleaf
      change t.nodes = (addNode file kind span tokens (lowerNodes file kind none tokens #[]).1
        (lowerNodes file kind none tokens #[]).2).2 at hnodes
      have hshows := (lowerNodes_shows file kind none tokens #[]).addNode file
        (.node label kind named extra span tokens) label hleaf.symm (by rw [hnodes]; exact .refl _)
      have hroot : t.root = (addNode file kind span tokens (lowerNodes file kind none tokens #[]).1
          (lowerNodes file kind none tokens #[]).2).1 := by
        rw [Tree.root, hnodes, size_addNode, Nat.add_sub_cancel]
      rw [hroot]
      exact (List.forall₂_cons.mp hshows).1.holds

end Trees

/-- Whatever concrete syntax is read, there is a tree of it. Its nodes in pre-order, which
are all of the arena, come from the kept nodes in document order, with their ranges, and
from what is made for bare results and embedded pointers. -/
theorem arenaOf_keeps (file : SourceFile) (root : Concrete) :
    ∃ t, Tree.ofNodes file (arenaOf file root) = .ok t ∧ t.nodes = arenaOf file root ∧
      (∀ read, read file.content = some root → parseWith read file = .ok t) ∧
      (t.preorder t.root).Perm (List.range (arenaOf file root).size) ∧
      List.Forall₂ (fun id origin => origin.Makes (t.node id)) (t.preorder t.root) root.origins ∧
      root.origins.filterMap Origin.concrete? = root.keptNodes := by
  obtain ⟨t, hok, hnodes, hparse⟩ := exists_ofNodes_arenaOf file root
  refine ⟨t, hok, hnodes, hparse, ?_, come_arenaOf file root hnodes, filterMap_origins root⟩
  have hperm := t.preorder_root_perm
  rwa [Tree.size, hnodes] at hperm

end Lintel.Go
