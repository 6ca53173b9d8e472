import Lintel.Proofs.Go.Lowering

/-!
# Lowering makes trees

Whatever concrete syntax is lowered, the arena is a tree. While it grows, each of its nodes
is either the child of one node that comes later or waits for a parent, and lowering
answers with the nodes that it leaves waiting. A node that is added takes the waiting ones
it is put over as its children and waits itself, so that only the root is left at the end.
-/

namespace Lintel

variable {a b arena nodes : Array Node} {waiting others : List Nat} {n : Node}

/-- Nodes of an arena wait for a parent: they and the children in the arena are all of its
nodes, each once, and children come before their parents. -/
structure Awaits (arena : Array Node) (waiting : List Nat) : Prop where
  once : (waiting ++ arena.toList.flatMap (·.children)).Perm (List.range arena.size)
  below : ∀ (parent : Nat) (n : Node), arena[parent]? = some n → ∀ child ∈ n.children, child < parent

private theorem awaits_empty : Awaits #[] [] :=
  ⟨by simp, by simp⟩

theorem Awaits.perm (h : Awaits arena waiting) (hperm : waiting.Perm others) :
    Awaits arena others :=
  ⟨(hperm.symm.append_right _).trans h.once, h.below⟩

theorem Awaits.lt_size (h : Awaits arena waiting) {id : Nat} (hid : id ∈ waiting) :
    id < arena.size :=
  List.mem_range.mp (h.once.subset (List.mem_append_left _ hid))

/-- A node takes waiting ones as its children and waits in their place. -/
theorem Awaits.push (h : Awaits arena (waiting ++ n.children)) :
    Awaits (arena.push n) (waiting ++ [arena.size]) := by
  constructor
  · have hstart : (waiting ++ [arena.size] ++ (arena.push n).toList.flatMap (·.children)).Perm
        (waiting ++ n.children ++ arena.toList.flatMap (·.children) ++ [arena.size]) := by
      rw [Array.toList_push, List.flatMap_append, List.flatMap_singleton]
      refine List.perm_iff_count.mpr fun id => ?_
      simp only [List.count_append]
      omega
    rw [Array.size_push, List.range_succ]
    exact hstart.trans (h.once.append_right [arena.size])
  · intro parent m hm child hchild
    rw [Array.getElem?_push] at hm
    split at hm
    · rename_i hlast
      obtain rfl := Option.some.inj hm
      rw [hlast]
      exact h.lt_size (List.mem_append_right waiting hchild)
    · exact h.below parent m hm child hchild

/-- An arena in which only the last node waits has the form of a tree. -/
theorem Awaits.formsTree (h : Awaits nodes [nodes.size - 1]) : FormsTree nodes := by
  have hpos : 0 < nodes.size := Nat.zero_lt_of_lt (h.lt_size List.mem_cons_self)
  have hcount : ∀ id < nodes.size,
      [nodes.size - 1].count id + (nodes.toList.flatMap (·.children)).count id = 1 := by
    intro id hid
    rw [← List.count_append, h.once.count_eq]
    exact List.count_eq_one_of_mem List.nodup_range (List.mem_range.mpr hid)
  refine ⟨hpos, h.below, fun id hid => ?_, ?_⟩
  · have hother : [nodes.size - 1].count id = 0 :=
      List.count_eq_zero.mpr (by rw [List.mem_singleton]; omega)
    have hone := hcount id (by omega)
    rwa [hother, Nat.zero_add] at hone
  · have hone := hcount (nodes.size - 1) (by omega)
    rw [List.count_singleton_self] at hone
    omega

private theorem exists_ofNodes (file : SourceFile) (h : FormsTree nodes) :
    ∃ t, Tree.ofNodes file nodes = .ok t ∧ t.file = file ∧ t.nodes = nodes := by
  rcases ofNodes_cases file nodes with hok | ⟨e, -, hrefused⟩
  · exact hok
  · exact absurd (formsTree_iff_isTree.mp h) hrefused.not_isTree

namespace Go

/-- Lowering keeps the nodes that are there and leaves waiting what it answers. -/
structure Adds (before : Array Node) (r : List Lowered × Array Node) : Prop where
  grows : Extends before r.2
  awaits : ∀ waiting, Awaits before waiting → Awaits r.2 (waiting ++ r.1.map (·.id))

theorem adds_nothing (arena : Array Node) : Adds arena ([], arena) :=
  ⟨.refl arena, fun waiting h => by simpa using h⟩

section Steps

variable {before : Array Node} {children : List Lowered} {c l : Lowered}

theorem Adds.append {first others : List Lowered} {after : Array Node}
    (hfirst : Adds before (first, arena)) (hothers : Adds arena (others, after)) :
    Adds before (first ++ others, after) := by
  refine ⟨hfirst.grows.trans hothers.grows, fun waiting h => ?_⟩
  have hall := hothers.awaits _ (hfirst.awaits waiting h)
  simpa using hall

/-- A node over all that waits is what is left. -/
theorem Adds.single (h : Adds before (children, arena)) (hn : n.children = children.map (·.id))
    (hid : l.id = arena.size) : Adds before ([l], arena.push n) := by
  refine ⟨h.grows.trans (.push arena n), fun waiting hwaiting => ?_⟩
  rw [List.map_singleton, hid]
  exact .push (hn ▸ h.awaits waiting hwaiting)

/-- One waiting child is taken by a new node that waits in its place. -/
theorem replaceFirst_perm {test : Lowered → Bool} (hc : children.find? test = some c)
    (replacement : Lowered) :
    ∃ rest, (children.map (·.id)).Perm (rest ++ [c.id]) ∧
      ((replaceFirst test replacement children).map (·.id)).Perm (rest ++ [replacement.id]) := by
  induction children with
  | nil => cases hc
  | cons first others ih =>
    rw [replaceFirst]
    rw [List.find?_cons] at hc
    split at hc
    · rename_i htest
      obtain rfl := Option.some.inj hc
      rw [if_pos htest, List.map_cons, List.map_cons]
      exact ⟨others.map (·.id), (List.perm_append_singleton _ _).symm,
        (List.perm_append_singleton _ _).symm⟩
    · rename_i htest
      obtain ⟨rest, hbefore, hafter⟩ := ih hc
      rw [if_neg (by simp [htest])]
      exact ⟨first.id :: rest, hbefore.cons first.id, hafter.cons first.id⟩

theorem Adds.wrapResult (h : Adds before (children, arena)) :
    Adds before (wrapResult children arena) := by
  unfold Go.wrapResult
  dsimp only
  split
  · exact h
  · rename_i c hc
    refine ⟨(h.grows.trans (.push arena _)).trans (.push _ _), fun waiting hwaiting => ?_⟩
    obtain ⟨rest, hbefore, hafter⟩ := replaceFirst_perm hc
      { c with kind := "parameter_list", id := (arena.push ⟨.field [] c.id none, c.span, [c.id]⟩).size }
    have hopen := (h.awaits waiting hwaiting).perm (hbefore.append_left waiting)
    rw [← List.append_assoc] at hopen
    have hfield : Awaits (arena.push ⟨.field [] c.id none, c.span, [c.id]⟩)
        (waiting ++ rest ++ [arena.size]) := hopen.push
    have hlist := Awaits.push (n := ⟨.fieldList, c.span, [arena.size]⟩) hfield
    exact hlist.perm (by rw [List.append_assoc]; exact (hafter.append_left waiting).symm)

theorem Adds.wrapPointer (tokens : List Concrete) (h : Adds before (children, arena)) :
    Adds before (wrapPointer tokens children arena) := by
  unfold Go.wrapPointer
  dsimp only
  split
  · rename_i star c hstar hc
    split
    · refine ⟨h.grows.trans (.push arena _), fun waiting hwaiting => ?_⟩
      obtain ⟨rest, hbefore, hafter⟩ := replaceFirst_perm hc
        { c with kind := "pointer_type", span := ⟨star.span.start, c.span.stop⟩, id := arena.size }
      have hopen := (h.awaits waiting hwaiting).perm (hbefore.append_left waiting)
      rw [← List.append_assoc] at hopen
      have hpointer : Awaits
          (arena.push ⟨.pointerType c.id, ⟨star.span.start, c.span.stop⟩, [c.id]⟩)
          (waiting ++ rest ++ [arena.size]) := hopen.push
      exact hpointer.perm (by rw [List.append_assoc]; exact (hafter.append_left waiting).symm)
    · exact h
  · exact h

theorem Adds.wrapChildren (kind : String) (tokens : List Concrete)
    (h : Adds before (children, arena)) : Adds before (wrapChildren kind tokens children arena) := by
  unfold Go.wrapChildren
  split
  · exact h.wrapResult
  · split
    · exact h.wrapPointer tokens
    · exact h

theorem Adds.addNode (file : SourceFile) (kind : String) (span : Span) (tokens : List Concrete)
    (label : Option String) (h : Adds before (children, arena)) :
    Adds before ([⟨label, kind, span, (addNode file kind span tokens children arena).1⟩],
      (addNode file kind span tokens children arena).2) := by
  have hwrapped := h.wrapChildren kind tokens
  unfold Go.addNode
  generalize Go.wrapChildren kind tokens children arena = r at hwrapped ⊢
  exact hwrapped.single rfl rfl

end Steps

mutual

/-- Lowering a node leaves waiting what it answers. -/
theorem lowerNode_adds (file : SourceFile) (parent : String) (inherited : Option String) :
    ∀ (c : Concrete) (arena : Array Node), Adds arena (lowerNode file parent inherited c arena)
  | .node label kind named extra span tokens, arena => by
    rw [lowerNode]
    split
    · exact adds_nothing arena
    · split
      · exact lowerNodes_adds file kind (label.or inherited) tokens arena
      · split
        · exact (adds_nothing arena).single rfl rfl
        · exact (lowerNodes_adds file kind none tokens arena).addNode file kind span tokens
            (label.or inherited)

theorem lowerNodes_adds (file : SourceFile) (parent : String) (inherited : Option String) :
    ∀ (cs : List Concrete) (arena : Array Node), Adds arena (lowerNodes file parent inherited cs arena)
  | [], arena => by
    rw [lowerNodes]
    exact adds_nothing arena
  | c :: rest, arena => by
    rw [lowerNodes]
    exact (lowerNode_adds file parent inherited c arena).append
      (lowerNodes_adds file parent inherited rest _)

end

/-- Lowering makes a tree of any concrete syntax. -/
theorem arenaOf_formsTree (file : SourceFile) :
    ∀ root : Concrete, FormsTree (arenaOf file root)
  | .node label kind named extra span tokens => by
    rw [arenaOf]
    split
    · rename_i leaf hleaf
      have hadds : Adds #[] ([⟨label, kind, span, 0⟩], #[].push ⟨leaf, span, []⟩) :=
        (adds_nothing #[]).single rfl rfl
      exact Awaits.formsTree (hadds.awaits [] awaits_empty)
    · have hadds := (lowerNodes_adds file kind none tokens #[]).addNode file kind span tokens label
      have hwaits := hadds.awaits [] awaits_empty
      refine Awaits.formsTree ?_
      simpa [Go.addNode] using hwaits

/-- Whatever concrete syntax is read, there is a tree of it. -/
theorem exists_ofNodes_arenaOf (file : SourceFile) (root : Concrete) :
    ∃ t, Tree.ofNodes file (arenaOf file root) = .ok t ∧ t.nodes = arenaOf file root ∧
      ∀ read, read file.content = some root → parseWith read file = .ok t := by
  obtain ⟨t, hok, -, hnodes⟩ := exists_ofNodes file (arenaOf_formsTree file root)
  refine ⟨t, hok, hnodes, fun read hread => ?_⟩
  rw [parseWith, hread]
  dsimp only
  rw [hok]

end Go

end Lintel
