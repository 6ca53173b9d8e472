import Lintel.Proofs.Go.Linked
import Lintel.Proofs.Go.Outline

/-!
# Imports of a lowered tree

The imports of a lowered tree, in pre-order, are those of the concrete syntax in document order,
whether they stand alone or in a group, each with its range and with its path without quotes.
Nothing else that lowering adds is an import. This is followed through lowering along with the
arena, as what is below a lowered child depends only on the nodes that are there.
-/

namespace Lintel

def Node.import? (n : Node) : Option (Span × String) :=
  match n.kind with
  | .importSpec path _ => some (n.span, path)
  | _ => none

theorem Node.import?_eq_some_iff {n : Node} {found : Span × String} :
    n.import? = some found ↔
      n.span = found.1 ∧ ∃ localName, n.kind = .importSpec found.2 localName := by
  unfold Node.import?
  cases n.kind <;> simp [Prod.ext_iff]

def Tree.imports (t : Tree) (id : Nat) : List (Span × String) :=
  (t.preorder id).filterMap fun id => (t.node id).import?

namespace Go

/-- The range and the path of an import in concrete syntax: the path is the text of its first
child of that label, without the quotes. -/
def Concrete.import? (file : SourceFile) (c : Concrete) : Option (Span × String) :=
  if c.kind = "import_spec" then
    ((outlines c.kind none c.children).find? fun o => o.label == some "path").map fun o =>
      (c.span, unquote (file.text o.span.start o.span.stop))
  else
    none

theorem Concrete.span_of_import? {file : SourceFile} {c : Concrete} {found : Span × String}
    (h : c.import? file = some found) : found.1 = c.span := by
  unfold Concrete.import? at h
  split at h
  · obtain ⟨o, -, rfl⟩ := Option.map_eq_some_iff.mp h
    rfl
  · cases h

section Imports

variable {t : Tree} {file : SourceFile} {arena : Array Node} {n : Node} {children : List Lowered}
  {c replacement : Lowered}

/-! ### Kinds -/

private theorem leafKind?_import {kind text : String} {leaf : NodeKind} {span : Span}
    {ids : List Nat}
    (h : leafKind? kind text = some leaf) : (⟨leaf, span, ids⟩ : Node).import? = none := by
  unfold leafKind? at h
  split at h <;> cases h <;> rfl

/-- Only the specification of an import is lowered to an import. -/
theorem kind_of_kindOf?_import {kind path : String} {operator localName : Option String}
    (h : kindOf? file kind operator children = some (.importSpec path localName)) :
    kind = "import_spec" := by
  unfold kindOf? at h
  split at h
  all_goals try simp only [Option.map_eq_some_iff, Option.bind_eq_bind, Option.bind_eq_some_iff,
    Option.pure_def, Option.some.injEq] at h
  all_goals grind

private theorem import?_of_kind_ne {kind : String} (hkind : kind ≠ "import_spec")
    (operator : Option String) (span : Span) (ids : List Nat) :
    (⟨(kindOf? file kind operator children).getD (.other kind), span, ids⟩ : Node).import? =
      none := by
  cases hfound : kindOf? file kind operator children with
  | none => rfl
  | some found =>
    cases found with
    | importSpec path localName => exact absurd (kind_of_kindOf?_import hfound) hkind
    | _ => rfl

/-- The children with a label have the ranges of the outlines with it. -/
theorem find?_label_span {below : List Outline} (h : List.Forall₂ (Outlined t) children below)
    (label : String) : (children.find? fun l => l.label == some label).map (·.span) =
      (below.find? fun o => o.label == some label).map (·.span) := by
  induction h with
  | nil => rfl
  | @cons l o _ _ hfirst _ ih =>
    rw [List.find?_cons, List.find?_cons, hfirst.label]
    split
    · exact congrArg some hfirst.span
    · exact ih

private theorem import?_of_kind_eq {root : Concrete} (hkind : root.kind = "import_spec")
    (h : List.Forall₂ (Outlined t) children (outlines root.kind none root.children))
    (operator : Option String) (ids : List Nat) :
    (⟨(kindOf? file root.kind operator children).getD (.other root.kind), root.span, ids⟩ :
      Node).import? = root.import? file := by
  have hpath : labelledText? file children "path" =
      ((outlines root.kind none root.children).find? fun o => o.label == some "path").map fun o =>
        file.text o.span.start o.span.stop := by
    have hspan := congrArg (Option.map fun s : Span => file.text s.start s.stop)
      (find?_label_span h "path")
    rw [Option.map_map, Option.map_map] at hspan
    exact hspan
  have hfound : kindOf? file root.kind operator children =
      (labelledText? file children "path").map fun path =>
        .importSpec (unquote path) (labelledText? file children "name") := by
    rw [hkind]
    rfl
  rw [hfound, hpath, Concrete.import?, if_pos hkind]
  cases (outlines root.kind none root.children).find? fun o => o.label == some "path" <;> rfl

/-! ### Wrapping -/

theorem filterMap_cons_toList {α β : Type} (f : α → Option β) (a : α) (as : List α) :
    (a :: as).filterMap f = (f a).toList ++ as.filterMap f := by
  rw [List.filterMap_cons]
  cases f a <;> rfl

theorem imports_of_push (h : Extends (arena.push n) t.nodes) :
    t.imports arena.size = n.import?.toList ++ n.children.flatMap t.imports := by
  rw [Tree.imports, preorder_of_push h, filterMap_cons_toList, node_of_push h,
    List.filterMap_flatMap]
  rfl

private theorem flatMap_replaceFirst {test : Lowered → Bool} (hc : children.find? test = some c)
    (hsame : t.imports replacement.id = t.imports c.id) :
    (replaceFirst test replacement children).flatMap (fun l => t.imports l.id) =
      children.flatMap fun l => t.imports l.id := by
  induction children with
  | nil => cases hc
  | cons l rest ih =>
    rw [List.find?_cons] at hc
    rw [replaceFirst]
    split at hc
    · rename_i htest
      obtain rfl := Option.some.inj hc
      rw [if_pos htest, List.flatMap_cons, List.flatMap_cons, hsame]
    · rename_i htest
      rw [if_neg (by simp [htest]), List.flatMap_cons, List.flatMap_cons, ih hc]

/-- In a tree that has all of an arena, lowered children have these imports below them. -/
def HasImports (t : Tree) (r : List Lowered × Array Node) (found : List (Span × String)) : Prop :=
  Extends r.2 t.nodes → r.1.flatMap (fun l => t.imports l.id) = found

variable {found : List (Span × String)}

theorem HasImports.wrapResult (h : HasImports t (children, arena) found) :
    HasImports t (wrapResult children arena) found := by
  unfold Go.wrapResult
  dsimp only
  split
  · exact h
  · rename_i c hc
    intro hext
    have hinner := (Extends.push arena ⟨.field [] c.id none, c.span, [c.id]⟩).trans
      ((Extends.push _ _).trans hext)
    have hfield := imports_of_push ((Extends.push _ _).trans hext)
    have hlist := imports_of_push hext
    rw [← h hinner]
    refine flatMap_replaceFirst hc ?_
    simpa [Node.import?, hfield] using hlist

theorem HasImports.wrapPointer (tokens : List Concrete) (h : HasImports t (children, arena) found) :
    HasImports t (wrapPointer tokens children arena) found := by
  unfold Go.wrapPointer
  dsimp only
  split
  · rename_i star c hstar hc
    split
    · intro hext
      have hpointer := imports_of_push hext
      rw [← h ((Extends.push _ _).trans hext)]
      refine flatMap_replaceFirst hc ?_
      simpa [Node.import?] using hpointer
    · exact h
  · exact h

theorem HasImports.wrapChildren (kind : String) (tokens : List Concrete)
    (h : HasImports t (children, arena) found) :
    HasImports t (wrapChildren kind tokens children arena) found := by
  unfold Go.wrapChildren
  split
  · exact h.wrapResult
  · split
    · exact h.wrapPointer tokens
    · exact h

/-! ### Lowering -/

/-- A node over outlined children has its own import before theirs. -/
theorem HasImports.addNode (root : Concrete) (label : Option String)
    (hshows : Shows t (Outlined t) (children, arena) (outlines root.kind none root.children))
    (h : HasImports t (children, arena) found) :
    HasImports t
      ([⟨label, root.kind, root.span,
          (addNode file root.kind root.span root.children children arena).1⟩],
        (addNode file root.kind root.span root.children children arena).2)
      ((root.import? file).toList ++ found) := by
  have hwrapped := h.wrapChildren root.kind root.children
  unfold Go.addNode
  generalize hr : Go.wrapChildren root.kind root.children children arena = r at hwrapped ⊢
  obtain ⟨wrapped, grown⟩ := r
  intro hext
  have hgrown : Extends grown t.nodes := (Extends.push _ _).trans hext
  have hnode : (⟨(kindOf? file root.kind (operatorText? file root.children) wrapped).getD
      (.other root.kind), root.span, wrapped.map (·.id)⟩ : Node).import? = root.import? file := by
    by_cases hkind : root.kind = "import_spec"
    · -- the children of an import are not wrapped
      have hsame : Go.wrapChildren root.kind root.children children arena = (children, arena) := by
        rw [hkind]
        rfl
      obtain ⟨rfl, rfl⟩ := Prod.mk.inj (hsame.symm.trans hr)
      exact import?_of_kind_eq hkind (hshows hgrown) _ _
    · rw [import?_of_kind_ne hkind, Concrete.import?, if_neg hkind]
  have hpush := imports_of_push hext
  rw [hnode, List.flatMap_map, hwrapped hgrown] at hpush
  rw [List.flatMap_singleton]
  exact hpush

private theorem hasImports_leaf (file : SourceFile) (arena : Array Node) (root : Concrete)
    (label : Option String) {leaf : NodeKind} {text : String} (hleaf : leafKind? root.kind text = some leaf) :
    HasImports t ([⟨label, root.kind, root.span, arena.size⟩], arena.push ⟨leaf, root.span, []⟩)
      (root.import? file).toList := by
  intro hext
  have hkind : root.kind ≠ "import_spec" := by
    intro heq
    rw [heq] at hleaf
    cases hleaf
  have hnone : root.import? file = none := if_neg hkind
  have hnode := imports_of_push hext
  rw [leafKind?_import hleaf] at hnode
  rw [hnone]
  simpa using hnode

mutual

private theorem lowerNode_hasImports (file : SourceFile) (parent : String)
    (inherited : Option String) :
    ∀ (c : Concrete) (arena : Array Node), HasImports t (lowerNode file parent inherited c arena)
      ((kept parent c).filterMap (Concrete.import? file))
  | .node label kind named extra span tokens, arena => by
    rw [lowerNode, kept]
    split
    · exact fun _ => rfl
    · split
      · exact lowerNodes_hasImports file kind (label.or inherited) tokens arena
      · have hleaf := isSome_leafKind? kind (file.text span.start span.stop)
        rw [filterMap_cons_toList]
        split
        · rename_i leaf hfound
          rw [hfound] at hleaf
          rw [← hleaf, if_pos Option.isSome_some, List.filterMap_nil, List.append_nil]
          exact hasImports_leaf file arena (.node label kind named extra span tokens) _ hfound
        · rename_i hfound
          rw [hfound] at hleaf
          rw [← hleaf, if_neg (by simp)]
          exact HasImports.addNode (.node label kind named extra span tokens) _
            (lowerNodes_shows file kind none tokens arena)
            (lowerNodes_hasImports file kind none tokens arena)

private theorem lowerNodes_hasImports (file : SourceFile) (parent : String)
    (inherited : Option String) :
    ∀ (cs : List Concrete) (arena : Array Node),
      HasImports t (lowerNodes file parent inherited cs arena)
        ((keptAll parent cs).filterMap (Concrete.import? file))
  | [], arena => by
    rw [lowerNodes, keptAll]
    exact fun _ => rfl
  | c :: rest, arena => by
    rw [lowerNodes, keptAll, List.filterMap_append]
    intro hext
    have hfirst := lowerNode_hasImports file parent inherited c arena
      ((lowerNodes_adds file parent inherited rest _).grows.trans hext)
    rw [List.flatMap_append, hfirst, lowerNodes_hasImports file parent inherited rest _ hext]

end

/-- The imports of a lowered tree are those among the kept nodes. -/
theorem imports_arenaOf (file : SourceFile) :
    ∀ root : Concrete, t.nodes = arenaOf file root →
      t.imports t.root = root.keptNodes.filterMap (Concrete.import? file)
  | .node label kind named extra span tokens, hnodes => by
    have hleaf := isSome_leafKind? kind (file.text span.start span.stop)
    change _ = List.filterMap _ (_ :: if isLeaf kind then [] else keptAll kind tokens)
    rw [filterMap_cons_toList]
    rw [arenaOf] at hnodes
    split at hnodes
    · rename_i leaf hfound
      rw [hfound] at hleaf
      have himports := hasImports_leaf file #[] (.node label kind named extra span tokens) label
        hfound (by rw [hnodes]; exact .refl _)
      rw [List.flatMap_singleton] at himports
      rw [← hleaf, if_pos Option.isSome_some, List.filterMap_nil, List.append_nil, Tree.root,
        hnodes]
      exact himports
    · rename_i hfound
      rw [hfound] at hleaf
      have himports := HasImports.addNode (t := t) (.node label kind named extra span tokens) label
        (lowerNodes_shows file kind none tokens #[])
        (lowerNodes_hasImports file kind none tokens #[]) (by rw [hnodes]; exact .refl _)
      have hroot : t.root = (addNode file kind span tokens (lowerNodes file kind none tokens #[]).1
          (lowerNodes file kind none tokens #[]).2).1 := by
        rw [Tree.root, hnodes]
        exact congrArg (· - 1) (size_addNode file kind span tokens _ _)
      rw [List.flatMap_singleton] at himports
      rw [← hleaf, if_neg (by simp), hroot]
      exact himports

/-- The imports of a file that is read are those of its concrete syntax. -/
theorem imports_of_parseWith {read : String → Option Concrete}
    (hread : parseWith read file = .ok t) : ∃ root, read file.content = some root ∧
      t.nodes = arenaOf file root ∧
      t.imports t.root = root.keptNodes.filterMap (Concrete.import? file) := by
  obtain ⟨root, hroot, -, hnodes⟩ := exists_root_of_parseWith hread
  exact ⟨root, hroot, hnodes, imports_arenaOf file root hnodes⟩

end Imports

end Go

end Lintel
