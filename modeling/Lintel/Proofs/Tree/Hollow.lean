import Lintel.Proofs.Tree.Order

/-!
# Trees with an emptied scope

A block or a function literal is emptied if all that is below it becomes empty statements,
while every node keeps its id. What is outside then stays as it was: the children of a node
outside are outside too, unless the node is the emptied one, and in a tree whose kinds name
what they should the same goes for the ids that kinds name. In pre-order the nodes below and
including a node stand together.
-/

namespace Lintel

private theorem links_eq_of_children {a b : Array Node}
    (h : a.toList.map (·.children) = b.toList.map (·.children)) : links a = links b := by
  have hlinks : ∀ nodes : Array Node, links nodes =
      (nodes.toList.map (·.children)).zipIdx.flatMap fun p =>
        p.1.map fun child => (p.2, child) := by
    intro nodes
    rw [List.zipIdx_map, List.flatMap_map]
    rfl
  rw [hlinks, hlinks, h]

theorem IsTree.of_children {a b : Array Node} (ha : IsTree a)
    (h : a.toList.map (·.children) = b.toList.map (·.children)) : IsTree b := by
  have hsize : a.size = b.size := by simpa using congrArg List.length h
  have hlinks := links_eq_of_children h
  refine ⟨hsize ▸ ha.nonempty, hlinks ▸ ha.child_lt, ?_, fun id hid => ?_⟩
  · rw [linkedChildren, ← hlinks]
    exact ha.unshared
  · rw [linkedChildren, ← hlinks]
    exact ha.reached id (hsize ▸ hid)

namespace Tree

variable {t : Tree} {id other parent child scope : Nat}

/-! ### Below a node -/

theorem mem_preorder_of_below (h : t.Below id other) : other ∈ t.preorder id := by
  induction h with
  | refl =>
    rw [preorder_eq]
    exact List.mem_cons_self
  | tail _ hchild ih =>
    exact (t.preorder_perm id).mem_iff.mpr
      (List.mem_cons_of_mem id (List.mem_flatMap.mpr ⟨_, ih, hchild⟩))

theorem mem_preorder_iff : other ∈ t.preorder id ↔ t.Below id other :=
  ⟨fun h => below_of_mem_visited (by rwa [visited_eq_preorder]), mem_preorder_of_below⟩

theorem mem_descendants_iff : other ∈ t.descendants id ↔ t.Below id other ∧ other ≠ id := by
  rw [descendants, findAll, visited_eq_preorder, List.mem_filter, mem_preorder_iff, bne_iff_ne]

theorem mem_preorder_iff_descendants :
    other ∈ t.preorder id ↔ other = id ∨ other ∈ t.descendants id := by
  rw [mem_preorder_iff, mem_descendants_iff]
  by_cases h : other = id
  · simp [h, Below, Relation.ReflTransGen.refl]
  · simp [h]

theorem not_mem_descendants_self (t : Tree) (id : Nat) : id ∉ t.descendants id :=
  fun h => (mem_descendants_iff.mp h).2 rfl

/-- What is below a node inside is inside. -/
theorem mem_descendants_of_mem_children (hparent : parent = scope ∨ parent ∈ t.descendants scope)
    (hchild : child ∈ t.children parent) : child ∈ t.descendants scope := by
  have hbelow : t.Below scope parent := by
    rcases hparent with rfl | hparent
    · exact .refl
    · exact (mem_descendants_iff.mp hparent).1
  have hle := le_of_mem_preorder (mem_preorder_of_below hbelow)
  have hlt := lt_of_mem_children hchild
  exact mem_descendants_iff.mpr ⟨hbelow.tail hchild, by omega⟩

/-- The children of a node outside are outside, unless the node is the emptied one. -/
theorem not_mem_descendants_of_mem_children (hne : parent ≠ scope)
    (hparent : parent ∉ t.descendants scope) (hchild : child ∈ t.children parent) :
    child ∉ t.descendants scope := by
  intro hinside
  obtain ⟨hbelow, hself⟩ := mem_descendants_iff.mp hinside
  rcases hbelow.cases_tail with rfl | ⟨other, hother, hlast⟩
  · exact hself rfl
  · obtain rfl := parent_unique hchild hlast
    exact hparent (mem_descendants_iff.mpr ⟨hother, hne⟩)

private theorem root_not_mem_descendants (t : Tree) (scope : Nat) :
    t.root ∉ t.descendants scope := by
  intro h
  obtain ⟨hbelow, hne⟩ := mem_descendants_iff.mp h
  rcases hbelow.cases_tail with heq | ⟨parent, -, hchild⟩
  · exact hne heq
  · exact Nat.lt_irrefl _ (lt_root_of_mem_children hchild)

/-! ### Pre-order -/

theorem nodup_preorder_root (t : Tree) : (t.preorder t.root).Nodup :=
  t.preorder_root_perm.nodup_iff.mpr List.nodup_range

/-- The pre-order of a node stands in one piece in that of a node above it. -/
theorem preorder_infix (h : t.Below id other) : t.preorder other <:+: t.preorder id := by
  induction h with
  | refl => exact List.infix_rfl
  | @tail parent child _ hchild ih =>
    refine List.IsInfix.trans ?_ ih
    obtain ⟨before, after, hsplit⟩ := List.append_of_mem hchild
    rw [t.preorder_eq parent, hsplit, List.flatMap_append, List.flatMap_cons]
    exact ⟨parent :: before.flatMap t.preorder, after.flatMap t.preorder, by simp⟩

/-! ### Emptied nodes -/

/-- The tree in which all that is below a node are empty statements. -/
def hollow (t : Tree) (scope : Nat) : Tree where
  file := t.file
  nodes := t.nodes.mapIdx fun id n =>
    if id ∈ t.descendants scope then { n with kind := .other "empty_statement" } else n
  isTree := t.isTree.of_children (List.ext_getElem (by simp) fun id _ _ => by
    simp only [List.getElem_map, Array.getElem_toList, Array.getElem_mapIdx]
    split <;> rfl)

@[simp] theorem size_hollow (t : Tree) (scope : Nat) : (t.hollow scope).size = t.size := by
  simp [hollow, size]

@[simp] theorem root_hollow (t : Tree) (scope : Nat) : (t.hollow scope).root = t.root :=
  congrArg (· - 1) (t.size_hollow scope)

@[simp] theorem children_hollow (t : Tree) (scope id : Nat) :
    (t.hollow scope).children id = t.children id := by
  simp only [children, node, hollow, Array.getElem?_mapIdx]
  cases t.nodes[id]? with
  | none => rfl
  | some n =>
    simp only [Option.map_some, Option.getD_some]
    split <;> rfl

theorem kind_hollow (h : id ∉ t.descendants scope) : (t.hollow scope).kind id = t.kind id := by
  simp only [kind, node, hollow, Array.getElem?_mapIdx, if_neg h, Option.map_id_fun', id_eq]

theorem kind_hollow_of_mem (h : id ∈ t.descendants scope) :
    (t.hollow scope).kind id = .other "empty_statement" := by
  obtain ⟨hbelow, hne⟩ := mem_descendants_iff.mp h
  rcases hbelow.cases_tail with heq | ⟨parent, -, hchild⟩
  · exact absurd heq hne
  · have hlt : id < t.nodes.size := by
      have hroot := lt_root_of_mem_children hchild
      simp only [root] at hroot
      omega
    simp only [kind, node, hollow, Array.getElem?_mapIdx, if_pos h, Array.getElem?_eq_getElem hlt,
      Option.map_some, Option.getD_some]

theorem ident?_hollow (h : id ∉ t.descendants scope) :
    (t.hollow scope).ident? id = t.ident? id := by
  rw [ident?, ident?, kind_hollow h]

@[simp] theorem preorder_hollow (t : Tree) (scope id : Nat) :
    (t.hollow scope).preorder id = t.preorder id := by
  induction id using Nat.strongRecOn with
  | ind id ih =>
    rw [preorder_eq, preorder_eq t, children_hollow]
    refine congrArg (id :: ·) (List.flatMap_congr fun child hchild => ?_)
    exact ih child (lt_of_mem_children hchild)

end Tree

/-! ### Links -/

/-- The lists of fields that a kind names: receiver, parameters and results of a function,
and the fields of a struct. -/
def NodeKind.lists : NodeKind → List Nat
  | .funcDecl parts | .funcLit parts =>
    parts.receiver.toList ++ [parts.params] ++ parts.results.toList
  | .structType fields => [fields]
  | _ => []

/-- The types that a field and a pointer type name. -/
def NodeKind.types : NodeKind → List Nat
  | .field _ type _ => [type]
  | .pointerType elem => [elem]
  | _ => []

namespace Tree

/-- A node whose kind names children of it, lists of fields where such belong, and types that
are neither blocks nor function literals. -/
structure LinkedAt (t : Tree) (id : Nat) : Prop where
  refs : (t.kind id).refs ⊆ t.children id
  lists : ∀ list ∈ (t.kind id).lists, t.tag list = .fieldList
  types : ∀ type ∈ (t.kind id).types, t.tag type ≠ .block ∧ t.tag type ≠ .funcLit

instance (t : Tree) (id : Nat) : Decidable (t.LinkedAt id) :=
  decidable_of_iff ((∀ ref ∈ (t.kind id).refs, ref ∈ t.children id) ∧
      (∀ list ∈ (t.kind id).lists, t.tag list = .fieldList) ∧
      ∀ type ∈ (t.kind id).types, t.tag type ≠ .block ∧ t.tag type ≠ .funcLit)
    ⟨fun ⟨hr, hl, ht⟩ => ⟨fun ref href => hr ref href, hl, ht⟩,
      fun ⟨hr, hl, ht⟩ => ⟨fun _ href => hr href, hl, ht⟩⟩

def Linked (t : Tree) : Prop :=
  ∀ id, t.LinkedAt id

private theorem linkedAt_of_size_le {t : Tree} {id : Nat} (h : t.size ≤ id) : t.LinkedAt id := by
  have hkind := kind_eq_file_of_size_le h
  refine ⟨?_, ?_, ?_⟩ <;> rw [hkind]
  · exact List.nil_subset _
  · exact fun list hlist => absurd hlist List.not_mem_nil
  · exact fun type htype => absurd htype List.not_mem_nil

instance (t : Tree) : Decidable t.Linked :=
  decidable_of_iff (∀ id < t.size, t.LinkedAt id)
    ⟨fun h id => (Nat.lt_or_ge id t.size).elim (h id) linkedAt_of_size_le, fun h id _ => h id⟩

/-- A block or a function literal below the root. -/
structure IsScope (t : Tree) (scope : Nat) : Prop where
  tag : t.tag scope = .block ∨ t.tag scope = .funcLit
  inner : scope ≠ t.root

instance (t : Tree) (scope : Nat) : Decidable (t.IsScope scope) :=
  decidable_of_iff ((t.tag scope = .block ∨ t.tag scope = .funcLit) ∧ scope ≠ t.root)
    ⟨fun ⟨ht, hi⟩ => ⟨ht, hi⟩, fun ⟨ht, hi⟩ => ⟨ht, hi⟩⟩

section Scopes

variable {t : Tree} {scope id ref child : Nat} {kind : NodeKind}

theorem IsScope.ne_of_tag (h : t.IsScope scope) (htag : t.tag id ≠ .block ∧ t.tag id ≠ .funcLit) :
    id ≠ scope := by
  rintro rfl
  exact h.tag.elim htag.1 htag.2

theorem IsScope.ne_of_kind (h : t.IsScope scope) (hkind : t.kind id = kind)
    (htag : kind.tag ≠ .block ∧ kind.tag ≠ .funcLit) : id ≠ scope :=
  h.ne_of_tag (by rwa [Tree.tag, hkind])

theorem IsScope.ne_of_mem_lists (h : t.IsScope scope) (hlinked : t.Linked)
    (hkind : t.kind id = kind) (hlist : ref ∈ kind.lists) : ref ≠ scope :=
  h.ne_of_tag (by rw [(hlinked id).lists ref (hkind ▸ hlist)]; decide)

/-- What a node outside names is outside too. -/
theorem IsScope.not_mem_of_mem_refs (h : t.IsScope scope) (hlinked : t.Linked)
    (hid : id ∉ t.descendants scope) (hkind : t.kind id = kind)
    (htag : kind.tag ≠ .block ∧ kind.tag ≠ .funcLit) (href : ref ∈ kind.refs) :
    ref ∉ t.descendants scope :=
  not_mem_descendants_of_mem_children (h.ne_of_kind hkind htag) hid
    ((hlinked id).refs (hkind ▸ href))

theorem IsScope.not_mem_of_mem_root_children (h : t.IsScope scope)
    (hchild : child ∈ t.children t.root) : child ∉ t.descendants scope :=
  not_mem_descendants_of_mem_children h.inner.symm (t.root_not_mem_descendants scope) hchild

end Scopes

end Tree

theorem NodeKind.lists_subset_refs (kind : NodeKind) : kind.lists ⊆ kind.refs := by
  cases kind <;> simp only [lists, refs, FuncParts.refs] <;> grind

end Lintel
