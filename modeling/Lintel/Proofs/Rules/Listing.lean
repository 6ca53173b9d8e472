import Lintel.Proofs.Rules.Declarations
import Lintel.Proofs.Rules.Indexes
import Lintel.Proofs.Tree.Accept

/-!
# What the two index rules publish

The index of nodes divides a tree among the tags: every node is listed once, under its own tag, and
under each tag the nodes stand in pre-order. So what the index of declarations reads off two of these
lists are all declarations of the tree. Nothing more is needed of a tree than that its kinds name
nodes of it.
-/

namespace Lintel

/-! ### The size of an index -/

namespace NodeIndex

private theorem total_addTo (tag : NodeTag) (id : Nat) (groups : List (NodeTag × Array Nat)) :
    total ((addTo tag id groups).map fun group => group.2.size) =
      total (groups.map fun group => group.2.size) + 1 := by
  induction groups with
  | nil => rfl
  | cons group groups ih =>
    obtain ⟨first, ids⟩ := group
    rw [addTo]
    split
    · simp only [List.map_cons, total, Array.size_push]
      omega
    · simp only [List.map_cons, total, ih]
      omega

@[simp] private theorem size_add (index : NodeIndex) (tag : NodeTag) (id : Nat) :
    (index.add tag id).size = index.size + 1 :=
  total_addTo tag id index.groups

@[simp] private theorem size_foldl_add (t : Tree) (ids : List Nat) (index : NodeIndex) :
    (ids.foldl (fun index id => index.add (t.tag id) id) index).size = index.size + ids.length := by
  induction ids generalizing index with
  | nil => rfl
  | cons id ids ih =>
    rw [List.foldl_cons, ih, size_add, List.length_cons]
    omega

@[simp] private theorem size_ofTree (t : Tree) : (ofTree t).size = t.size := by
  rw [ofTree_eq_foldl, size_foldl_add, t.preorder_root_perm.length_eq, List.length_range]
  exact Nat.zero_add _

/-- A node is listed under its own tag only, and there once. -/
theorem count_nodes_ofTree (t : Tree) (tag : NodeTag) (id : Nat) :
    ((ofTree t).nodes tag).count id = if id < t.size ∧ t.tag id = tag then 1 else 0 := by
  rw [nodes_ofTree]
  by_cases htag : t.tag id = tag
  · rw [List.count_filter (by simpa using htag)]
    by_cases hid : id < t.size
    · rw [Tree.count_preorder_root hid, if_pos ⟨hid, htag⟩]
    · rw [if_neg fun h => hid h.1, List.count_eq_zero, t.preorder_root_perm.mem_iff, List.mem_range]
      exact hid
  · rw [if_neg fun h => htag h.2, List.count_eq_zero, List.mem_filter]
    exact fun h => htag (by simpa using h.2)

end NodeIndex

/-! ### What is published -/

/-- An index divides the nodes of a tree among their tags. -/
structure NodeIndex.Divides (index : NodeIndex) (t : Tree) : Prop where
  once : ∀ tag id, (index.nodes tag).count id = if id < t.size ∧ t.tag id = tag then 1 else 0
  size : index.size = t.size
  ordered : ∀ tag, index.nodes tag = (t.preorder t.root).filter fun id => t.tag id == tag

/-- An index lists the declarations of types and functions with a name that a tree has, in
pre-order. -/
structure Declarations.Lists (decls : Declarations) (t : Tree) : Prop where
  types : ∀ decl, decl ∈ decls.types ↔ DeclaresType t decl
  types_ordered : (decls.types.map (·.spec)).Sublist (t.preorder t.root)
  funcs : ∀ func name, (func, name) ∈ decls.funcs.map (fun decl => (decl.node, decl.name)) ↔
    DeclaresFunc t func name
  funcs_ordered : (decls.funcs.map (·.node)).Sublist (t.preorder t.root)

private theorem divides_ofTree (t : Tree) : (NodeIndex.ofTree t).Divides t :=
  ⟨NodeIndex.count_nodes_ofTree t, NodeIndex.size_ofTree t, NodeIndex.nodes_ofTree t⟩

private theorem lists_ofIndex {t : Tree} {decls : Declarations} (h : t.Contained)
    (hdecls : Declarations.ofIndex t (.ofTree t) = .ok decls) : decls.Lists t := by
  have hfuncs := funcs_ofIndex_map hdecls
  refine ⟨fun decl => mem_types_iff h hdecls, h.types_sublist hdecls, fun func name => ?_, ?_⟩
  · rw [hfuncs]
    exact mem_declaredFuncs_iff
  · have hnodes : decls.funcs.map (·.node) = (declaredFuncs t).map (·.1) := by
      rw [← hfuncs, List.map_map]
      rfl
    rw [hnodes]
    exact declaredFuncs_sublist t

/-- If the kinds of a tree name nodes of it only, then the first rule publishes an index that
divides its nodes among their tags, and the second one, given this index, lists its
declarations. -/
theorem indexes_list_tree {unit : SourceUnit} (h : unit.tree.Contained)
    (results : List (String × Published)) : ∃ index decls,
    treeIndex.run ⟨unit, treeIndex.info, results⟩ = .ok (.publish (.nodes index)) ∧
    index.Divides unit.tree ∧
    declIndex.run ⟨unit, declIndex.info, (treeIndex.name, .nodes index) :: results⟩ =
      .ok (.publish (.declarations decls)) ∧
    decls.Lists unit.tree := by
  obtain ⟨decls, hdecls⟩ := h.exists_ofIndex (.ofTree unit.tree)
  refine ⟨.ofTree unit.tree, decls, rfl, divides_ofTree _, ?_, lists_ofIndex h hdecls⟩
  exact bind_eq_ok.mpr ⟨.ofTree unit.tree, rfl, bind_eq_ok.mpr ⟨decls, hdecls, rfl⟩⟩

def laterTypeFile : SourceFile :=
  .ofText "sample.go" "package sample\ntype Runner interface\x7b\x7d\nfunc run()" ""

/-- A specification that names the type behind it, so that its tree is not grounded, and a
function. -/
def laterTypeNodes : Array Node :=
  #[⟨.ident "Runner", ⟨20, 26⟩, []⟩, ⟨.typeSpec 0 2, ⟨20, 38⟩, [0]⟩,
    ⟨.interfaceType [], ⟨27, 38⟩, []⟩, ⟨.typeDecl, ⟨15, 38⟩, [1, 2]⟩,
    ⟨.ident "run", ⟨44, 47⟩, []⟩, ⟨.fieldList, ⟨47, 49⟩, []⟩,
    ⟨.funcDecl ⟨some 4, none, 5, none, none⟩, ⟨39, 49⟩, [4, 5]⟩, ⟨.file, ⟨0, 49⟩, [3, 6]⟩]

theorem indexes_list_tree_laterType : ∃ t,
    Tree.ofNodes laterTypeFile laterTypeNodes = .ok t ∧ t.Contained ∧ ¬ t.Grounded ∧
    ∃ index decls,
      treeIndex.run ⟨⟨t, .empty, none⟩, treeIndex.info, []⟩ = .ok (.publish (.nodes index)) ∧
      index.Divides t ∧
      declIndex.run ⟨⟨t, .empty, none⟩, declIndex.info, [(treeIndex.name, .nodes index)]⟩ =
        .ok (.publish (.declarations decls)) ∧
      decls.Lists t ∧ ⟨"Runner", .interface, 1, 0, 2⟩ ∈ decls.types := by
  obtain ⟨t, ht⟩ : ∃ t, Tree.ofNodes laterTypeFile laterTypeNodes = .ok t := ⟨_, rfl⟩
  obtain ⟨-, hnodes⟩ := Tree.ofNodes_spec ht
  have hcontained : t.Contained := Tree.contained_of_nodes (by rw [hnodes]; decide)
  have hnames : 2 ∈ (t.kind 1).refs := by
    rw [Tree.kind, Tree.node, hnodes]
    decide
  have hnot : ¬ t.Grounded := fun hgrounded => absurd (hgrounded 1 2 hnames) (by decide)
  obtain ⟨index, decls, hindex, hdivides, hdecls, hlists⟩ :=
    @indexes_list_tree ⟨t, .empty, none⟩ hcontained []
  obtain ⟨hname, hspec, htype⟩ : t.kind 0 = .ident "Runner" ∧ t.kind 1 = .typeSpec 0 2 ∧
      t.kind 2 = .interfaceType [] := by
    simp only [Tree.kind, Tree.node, hnodes]
    exact ⟨rfl, rfl, rfl⟩
  have hrunner : DeclaresType t ⟨"Runner", .interface, 1, 0, 2⟩ := ⟨hspec, hname, by rw [htype]⟩
  exact ⟨t, ht, hcontained, hnot, index, decls, hindex, hdivides, hdecls, hlists,
    (hlists.types _).mpr hrunner⟩

end Lintel
