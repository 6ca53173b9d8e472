import Lintel.Rules.Index
import Lintel.Proofs.Except
import Lintel.Proofs.Tree.Grounded
import Lintel.Proofs.Tree.Hollow

/-!
# What the indexes list

The index of nodes lists the nodes of a tag in pre-order, and the index of declarations
those of them that declare something. Of the nodes below another one, the pre-order keeps
its children in their order.
-/

namespace Lintel

/-! ### Nodes by tag -/

namespace NodeIndex

private theorem lookup_addTo (tag key : NodeTag) (id : Nat) (groups : List (NodeTag × Array Nat)) :
    ((addTo tag id groups).lookup key).getD #[] =
      if key = tag then ((groups.lookup key).getD #[]).push id else (groups.lookup key).getD #[] := by
  induction groups with
  | nil =>
    rw [addTo, List.lookup_cons]
    by_cases h : key = tag
    · simp [h]
    · rw [if_neg h, beq_eq_false_iff_ne.mpr h]
  | cons group groups ih =>
    obtain ⟨first, ids⟩ := group
    rw [addTo]
    by_cases hkey : key = first
    · -- this group is the one that is looked up
      by_cases htag : first = tag
      · simp [hkey, htag]
      · simp [hkey, htag]
    · by_cases htag : first = tag
      · have hne : key ≠ tag := fun heq => hkey (heq.trans htag.symm)
        rw [if_pos htag, if_neg hne, List.lookup_cons, List.lookup_cons,
          beq_eq_false_iff_ne.mpr hkey]
      · rw [if_neg htag, List.lookup_cons, List.lookup_cons, beq_eq_false_iff_ne.mpr hkey]
        exact ih

@[simp] private theorem nodes_add (index : NodeIndex) (tag key : NodeTag) (id : Nat) :
    (index.add tag id).nodes key = index.nodes key ++ if key = tag then [id] else [] := by
  rw [add, nodes, nodes, lookup_addTo]
  split
  · exact Array.toList_push
  · exact (List.append_nil _).symm

theorem ofTree_eq_foldl (t : Tree) :
    ofTree t = (t.preorder t.root).foldl (fun index id => index.add (t.tag id) id) .empty :=
  t.walksThrough_preorder t.root _ _ _ fun _ _ => rfl

theorem nodes_ofTree (t : Tree) (tag : NodeTag) :
    (ofTree t).nodes tag = (t.preorder t.root).filter fun id => t.tag id == tag := by
  have hfold : ∀ (ids : List Nat) (index : NodeIndex),
      (ids.foldl (fun index id => index.add (t.tag id) id) index).nodes tag =
        index.nodes tag ++ ids.filter fun id => t.tag id == tag := by
    intro ids
    induction ids with
    | nil => exact fun index => (List.append_nil _).symm
    | cons id ids ih =>
      intro index
      rw [List.foldl_cons, ih, nodes_add, List.append_assoc, List.filter_cons]
      by_cases h : t.tag id = tag
      · simp [h]
      · simp [h, Ne.symm h]
  rw [ofTree_eq_foldl, hfold]
  rfl

end NodeIndex

/-! ### Children in pre-order -/

namespace Tree

variable {t : Tree} {id : Nat}

theorem preorder_filter_children (t : Tree) (id : Nat) :
    (t.preorder id).filter (· ∈ t.children id) = t.children id := by
  have hself : id ∉ t.children id := fun h => Nat.lt_irrefl _ (lt_of_mem_children h)
  -- below a child no other child is met, since its parent would be below itself
  have hbelow : ∀ child ∈ t.children id,
      (t.preorder child).filter (· ∈ t.children id) = [child] := by
    intro child hchild
    have hdeeper : ((t.children child).flatMap t.preorder).filter (· ∈ t.children id) = [] := by
      refine List.filter_eq_nil_iff.mpr fun other hother => ?_
      obtain ⟨start, hstart, hmem⟩ := List.mem_flatMap.mp hother
      rw [decide_eq_true_eq]
      intro hchildToo
      have hparent : ∃ parent ∈ t.preorder child, other ∈ t.children parent := by
        cases mem_preorder_iff.mp hmem with
        | refl => exact ⟨child, mem_preorder_iff.mpr .refl, hstart⟩
        | tail hpath hlast =>
          exact ⟨_, mem_preorder_iff.mpr (.head hstart hpath), hlast⟩
      obtain ⟨parent, hmemParent, hlink⟩ := hparent
      obtain rfl := parent_unique hlink hchildToo
      exact Nat.lt_irrefl _ (Nat.lt_of_le_of_lt (le_of_mem_preorder hmemParent)
        (lt_of_mem_children hchild))
    rw [preorder_eq, List.filter_cons, if_pos (by simpa using hchild), hdeeper]
  rw [preorder_eq, List.filter_cons, if_neg (by simpa using hself), List.filter_flatMap,
    List.flatMap_congr hbelow, List.flatMap_singleton']

end Tree

/-! ### Nodes of a tree -/

namespace Tree

variable {t : Tree} {id : Nat}

/-- A node of another kind than that of nothing is in the tree. -/
theorem mem_preorder_root (h : t.kind id ≠ .file) : id ∈ t.preorder t.root := by
  refine t.preorder_root_perm.mem_iff.mpr (List.mem_range.mpr ?_)
  exact Nat.lt_of_not_le fun hle => h (kind_eq_file_of_size_le hle)

end Tree

/-- What is made of some entries, each of which can be told from what is made of it, are these entries
in their order. -/
theorem map_filterMap_sublist {α β : Type} {f : α → Option β} {key : β → α}
    (h : ∀ a b, f a = some b → key b = a) (as : List α) :
    ((as.filterMap f).map key).Sublist as := by
  induction as with
  | nil => exact .slnil
  | cons a as ih =>
    rw [List.filterMap_cons]
    cases hf : f a with
    | none => exact ih.cons a
    | some b =>
      obtain rfl := h a b hf
      exact ih.cons_cons (key b)

/-! ### Declarations of functions -/

/-- A node declares a function with a name. -/
def DeclaresFunc (t : Tree) (func : Nat) (name : String) : Prop :=
  ∃ parts node, t.kind func = .funcDecl parts ∧ parts.name = some node ∧ t.kind node = .ident name

def Tree.declaredName? (t : Tree) (id : Nat) : Option String :=
  match t.kind id with
  | .funcDecl parts => parts.name.bind t.ident?
  | _ => none

def declaredFuncs (t : Tree) : List (Nat × String) :=
  (t.preorder t.root).filterMap fun id => (t.declaredName? id).map (id, ·)

section Functions

variable {t : Tree} {func : Nat} {name : String} {decls : Declarations}

private theorem declaredName?_eq_some_iff :
    t.declaredName? func = some name ↔ DeclaresFunc t func name := by
  unfold Tree.declaredName? DeclaresFunc
  cases t.kind func <;> simp [Option.bind_eq_some_iff, Tree.ident?_eq_some_iff]

theorem mem_declaredFuncs_iff : (func, name) ∈ declaredFuncs t ↔ DeclaresFunc t func name := by
  simp only [declaredFuncs, List.mem_filterMap, Option.map_eq_some_iff, declaredName?_eq_some_iff,
    Prod.mk.injEq]
  constructor
  · rintro ⟨_, -, _, h, rfl, rfl⟩
    exact h
  · intro h
    obtain ⟨parts, node, hkind, -⟩ := id h
    exact ⟨func, Tree.mem_preorder_root (by simp [hkind]), name, h, rfl, rfl⟩

theorem declaredFuncs_sublist (t : Tree) :
    ((declaredFuncs t).map (·.1)).Sublist (t.preorder t.root) := by
  apply map_filterMap_sublist
  intro id p hp
  obtain ⟨name, -, rfl⟩ := Option.map_eq_some_iff.mp hp
  rfl

theorem funcs_ofIndex (h : Declarations.ofIndex t (.ofTree t) = .ok decls) :
    ∃ found, List.Forall₂ (fun id decl => t.funcDecl? id = .ok decl)
        ((t.preorder t.root).filter fun id => t.tag id == .funcDecl) found ∧
      decls.funcs = found.filterMap id := by
  obtain ⟨types, -, hrest⟩ := bind_eq_ok.mp h
  obtain ⟨found, hfound, hdecls⟩ := bind_eq_ok.mp hrest
  refine ⟨found, ?_, ?_⟩
  · rw [NodeIndex.nodes_ofTree] at hfound
    exact mapM_eq_ok_iff.mp hfound
  · cases hdecls
    rfl

/-- The node and the name that the index keeps of a function are those of its declaration. -/
theorem map_funcDecl? {found : Option FuncDecl} (h : t.funcDecl? func = .ok found)
    (htag : t.tag func = .funcDecl) :
    found.map (fun decl => (decl.node, decl.name)) = (t.declaredName? func).map (func, ·) := by
  unfold Tree.funcDecl? at h
  cases hkind : t.kind func with
  | funcDecl parts =>
    have hname : t.declaredName? func = parts.name.bind t.ident? := by
      simp only [Tree.declaredName?, hkind]
    rw [hname]
    simp only [hkind, NodeKind.funcParts?] at h
    cases hnode : parts.name with
    | none =>
      simp only [hnode] at h
      cases h
      rfl
    | some node =>
      simp only [hnode] at h
      obtain ⟨other, hfollow, hfound⟩ := bind_eq_ok.mp h
      obtain ⟨-, rfl⟩ := Tree.follow_eq_ok_iff.mp hfollow
      rw [Option.bind_some]
      cases hident : t.ident? other with
      | none =>
        simp only [hident] at hfound
        cases hfound
        rfl
      | some word =>
        simp only [hident] at hfound
        cases hreceiver : parts.receiver with
        | none =>
          simp only [hreceiver] at hfound
          cases hfound
          rfl
        | some list =>
          simp only [hreceiver] at hfound
          obtain ⟨_, -, hrest⟩ := bind_eq_ok.mp hfound
          obtain ⟨_, -, hlast⟩ := bind_eq_ok.mp hrest
          cases hlast
          rfl
  | _ => simp [Tree.tag, hkind, NodeKind.tag] at htag

theorem funcs_ofIndex_map (h : Declarations.ofIndex t (.ofTree t) = .ok decls) :
    decls.funcs.map (fun decl => (decl.node, decl.name)) = declaredFuncs t := by
  obtain ⟨found, hfound, hdecls⟩ := funcs_ofIndex h
  have hmap : ∀ {ids : List Nat} {found : List (Option FuncDecl)},
      List.Forall₂ (fun id decl => t.funcDecl? id = .ok decl)
        (ids.filter fun id => t.tag id == .funcDecl) found →
      (found.filterMap id).map (fun decl => (decl.node, decl.name)) =
        ids.filterMap fun id => (t.declaredName? id).map (id, ·) := by
    intro ids
    induction ids with
    | nil =>
      intro found hfound
      cases hfound
      rfl
    | cons id ids ih =>
      intro found hfound
      rw [List.filter_cons] at hfound
      rw [List.filterMap_cons]
      by_cases htag : t.tag id = .funcDecl
      · rw [if_pos (beq_iff_eq.mpr htag)] at hfound
        obtain ⟨decl, rest, hdecl, hrest, rfl⟩ := List.forall₂_cons_left_iff.mp hfound
        rw [← map_funcDecl? hdecl htag, List.filterMap_cons, ← ih hrest]
        cases decl <;> rfl
      · rw [if_neg (by simpa using htag)] at hfound
        have hnone : t.declaredName? id = none := by
          unfold Tree.declaredName?
          split
          · rename_i hkind
            exact absurd (by rw [Tree.tag, hkind]; rfl) htag
          · rfl
        rw [hnone, ih hfound]
        rfl
  rw [hdecls]
  exact hmap hfound

end Functions

/-! ### Declarations of types -/

/-- A specification declares a type with a name, and the expression behind the name tells the
shape of the type. -/
structure DeclaresType (t : Tree) (decl : TypeDecl) : Prop where
  spec : t.kind decl.spec = .typeSpec decl.nameNode decl.type
  name : t.kind decl.nameNode = .ident decl.name
  shape : match t.kind decl.type with
    | .structType _ => decl.shape = .struct
    | .interfaceType _ => decl.shape = .interface
    | _ => decl.shape = .other

theorem DeclaresType.shape_eq {t : Tree} {decl : TypeDecl} (h : DeclaresType t decl) :
    decl.shape = .ofKind (t.kind decl.type) := by
  have hshape := h.shape
  cases hkind : t.kind decl.type <;> exact (by rwa [hkind] at hshape)

def Tree.declaredType? (t : Tree) (spec : Nat) : Option TypeDecl :=
  match t.kind spec with
  | .typeSpec name type =>
    (t.ident? name).map fun word => ⟨word, .ofKind (t.kind type), spec, name, type⟩
  | _ => none

section Types

variable {t : Tree} {spec : Nat} {decl : TypeDecl} {decls : Declarations}

private theorem declaredType?_eq_some_iff :
    t.declaredType? spec = some decl ↔ decl.spec = spec ∧ DeclaresType t decl := by
  unfold Tree.declaredType?
  constructor
  · intro h
    split at h
    · rename_i name type hkind
      obtain ⟨word, hword, rfl⟩ := Option.map_eq_some_iff.mp h
      refine ⟨rfl, hkind, Tree.ident?_eq_some_iff.mp hword, ?_⟩
      cases htype : t.kind type <;> exact rfl
    · cases h
  · rintro ⟨rfl, h⟩
    rw [h.spec]
    dsimp only
    rw [Tree.ident?_eq_some_iff.mpr h.name, ← h.shape_eq]
    rfl

private theorem typeDecl?_eq (h : t.Contained) (spec : Nat) :
    t.typeDecl? spec = .ok (t.declaredType? spec) := by
  unfold Tree.typeDecl? Tree.declaredType?
  cases hkind : t.kind spec with
  | typeSpec name type =>
    have hname : t.follow name = .ok name := h.follow spec (by simp [hkind, NodeKind.refs])
    have htype : t.follow type = .ok type := h.follow spec (by simp [hkind, NodeKind.refs])
    cases hident : t.ident? name <;> simp [hname, htype, hident, bind, Except.bind, pure, Except.pure]
  | _ => rfl

/-- The index lists the types that are declared, in pre-order of their specifications. -/
theorem types_ofIndex (h : t.Contained) (hdecls : Declarations.ofIndex t (.ofTree t) = .ok decls) :
    decls.types = (t.preorder t.root).filterMap t.declaredType? := by
  obtain ⟨types, htypes, hrest⟩ := bind_eq_ok.mp hdecls
  obtain ⟨found, -, hfound⟩ := bind_eq_ok.mp hrest
  have hall : types = ((NodeIndex.ofTree t).nodes .typeSpec).map t.declaredType? := by
    rw [← List.forall₂_eq_eq_eq, List.forall₂_map_right_iff]
    refine (mapM_eq_ok_iff.mp htypes).flip.imp fun found spec hspec => ?_
    exact (Except.ok.inj ((typeDecl?_eq h spec).symm.trans hspec)).symm
  cases hfound
  rw [hall, NodeIndex.nodes_ofTree, List.filterMap_map, List.filterMap_filter]
  refine List.filterMap_congr fun spec _ => ?_
  unfold Tree.declaredType?
  cases hkind : t.kind spec <;> simp [Tree.tag, hkind, NodeKind.tag]

theorem mem_types_iff (h : t.Contained) (hdecls : Declarations.ofIndex t (.ofTree t) = .ok decls) :
    decl ∈ decls.types ↔ DeclaresType t decl := by
  rw [types_ofIndex h hdecls, List.mem_filterMap]
  constructor
  · rintro ⟨spec, -, hspec⟩
    exact (declaredType?_eq_some_iff.mp hspec).2
  · intro hdecl
    refine ⟨decl.spec, Tree.mem_preorder_root ?_, declaredType?_eq_some_iff.mpr ⟨rfl, hdecl⟩⟩
    simp [hdecl.spec]

/-- A specification declares one type only. -/
theorem Tree.Contained.types_sublist (h : t.Contained)
    (hdecls : Declarations.ofIndex t (.ofTree t) = .ok decls) :
    (decls.types.map (·.spec)).Sublist (t.preorder t.root) := by
  rw [types_ofIndex h hdecls]
  exact map_filterMap_sublist (fun _ _ hdecl => (declaredType?_eq_some_iff.mp hdecl).1) _

theorem types_sublist (h : t.Grounded) (hdecls : Declarations.ofIndex t (.ofTree t) = .ok decls) :
    (decls.types.map (·.spec)).Sublist (t.preorder t.root) :=
  h.contained.types_sublist hdecls

theorem mem_structs_iff (h : t.Grounded) (hdecls : Declarations.ofIndex t (.ofTree t) = .ok decls) :
    decl ∈ decls.structs ↔ DeclaresType t decl ∧ ∃ fields, t.kind decl.type = .structType fields := by
  rw [Declarations.structs, List.mem_filter, mem_types_iff h.contained hdecls]
  refine and_congr_right fun hdecl => ?_
  rw [hdecl.shape_eq]
  cases t.kind decl.type <;> simp [TypeShape.ofKind]

theorem mem_interfaces_iff (h : t.Grounded)
    (hdecls : Declarations.ofIndex t (.ofTree t) = .ok decls) : decl ∈ decls.interfaces ↔
      DeclaresType t decl ∧ ∃ elems, t.kind decl.type = .interfaceType elems := by
  rw [Declarations.interfaces, List.mem_filter, mem_types_iff h.contained hdecls]
  refine and_congr_right fun hdecl => ?_
  rw [hdecl.shape_eq]
  cases t.kind decl.type <;> simp [TypeShape.ofKind]

end Types

end Lintel
