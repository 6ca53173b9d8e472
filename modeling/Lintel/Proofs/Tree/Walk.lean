import Lintel.Tree.Walk
import Mathlib.Data.List.Nodup
import Mathlib.Data.List.Perm.Basic

/-!
# Walks in pre-order

A visitor that always goes on sees the nodes below the start in pre-order. Every node of
a pre-order but the first is there as the child of another, and as often as that one.
Since each node but the root is the child of exactly one other, the pre-order of the
root holds every node of the tree once, which is seen from the root downwards.
-/

namespace Lintel

theorem mem_links_iff {nodes : Array Node} {parent child : Nat} :
    (parent, child) ∈ links nodes ↔ ∃ n, nodes[parent]? = some n ∧ child ∈ n.children := by
  simp only [links, List.mem_flatMap, List.mem_map, Prod.exists, Prod.mk.injEq]
  constructor
  · rintro ⟨n, _, hn, _, hchild, rfl, rfl⟩
    exact ⟨n, by simpa using List.mem_zipIdx_iff_getElem?.mp hn, hchild⟩
  · rintro ⟨n, hn, hchild⟩
    exact ⟨n, parent, List.mem_zipIdx_iff_getElem?.mpr (by simpa using hn), child, hchild, rfl, rfl⟩

theorem linkedChildren_eq_flatMap (nodes : Array Node) :
    linkedChildren nodes = nodes.toList.flatMap (·.children) := by
  have hfst : nodes.toList.zipIdx.map (·.1) = nodes.toList := by simp
  conv_rhs => rw [← hfst, List.flatMap_map]
  simp [linkedChildren, links, List.map_flatMap, Function.comp_def]

namespace Tree

variable {t : Tree} {id parent child other : Nat}

/-! ### Parents -/

theorem mem_children_iff : child ∈ t.children parent ↔ (parent, child) ∈ links t.nodes := by
  refine ⟨mem_links_of_mem_children, fun h => ?_⟩
  obtain ⟨n, hn, hchild⟩ := mem_links_iff.mp h
  simpa [children, node, hn] using hchild

theorem parent_unique (h : child ∈ t.children parent) (hother : child ∈ t.children other) :
    parent = other := by
  have heq := List.inj_on_of_nodup_map t.isTree.unshared (mem_children_iff.mp h)
    (mem_children_iff.mp hother) rfl
  exact congrArg Prod.fst heq

theorem nodup_children (t : Tree) (id : Nat) : (t.children id).Nodup := by
  cases hid : t.nodes[id]? with
  | none => simp [children, node, hid, default, instInhabitedNode.default]
  | some n =>
    have hsub : n.children.Sublist (linkedChildren t.nodes) := by
      rw [linkedChildren_eq_flatMap, List.flatMap_def]
      exact List.sublist_flatten_of_mem
        (List.mem_map_of_mem (Array.mem_toList_iff.mpr (Array.mem_of_getElem? hid)))
    simpa [children, node, hid] using t.isTree.unshared.sublist hsub

private theorem count_children (h : child ∈ t.children parent) (id : Nat) :
    (t.children id).count child = if id = parent then 1 else 0 := by
  split
  · rename_i heq
    exact List.count_eq_one_of_mem (t.nodup_children id) (heq ▸ h)
  · rename_i hne
    exact List.count_eq_zero.mpr fun hid => hne (parent_unique hid h)

private theorem count_flatMap_children (h : child ∈ t.children parent) (ids : List Nat) :
    (ids.flatMap t.children).count child = ids.count parent := by
  induction ids with
  | nil => rfl
  | cons id ids ih =>
    rw [List.flatMap_cons, List.count_append, ih, count_children h, List.count_cons, Nat.add_comm]
    simp only [beq_iff_eq]

theorem lt_root_of_mem_children (h : child ∈ t.children parent) : child < t.root := by
  have hlt := lt_of_mem_children h
  have hparent := links_parent_lt (mem_children_iff.mp h)
  simp only [root] at hparent ⊢
  omega

theorem exists_parent (h : id < t.root) : ∃ parent, id ∈ t.children parent := by
  have hmem := t.isTree.reached id (by simp only [root] at h; omega)
  obtain ⟨link, hlink, rfl⟩ := List.mem_map.mp hmem
  exact ⟨link.1, mem_children_iff.mpr hlink⟩

/-! ### Pre-order -/

/-- The nodes below and including a node, each before those below it, from left to right. -/
def preorder (t : Tree) (id : Nat) : List Nat :=
  id :: (t.children id).attach.flatMap fun ⟨child, _⟩ => preorder t child
termination_by id
decreasing_by exact lt_of_mem_children (by assumption)

theorem preorder_eq (t : Tree) (id : Nat) :
    t.preorder id = id :: (t.children id).flatMap t.preorder := by
  rw [preorder]
  simp

theorem le_of_mem_preorder (h : other ∈ t.preorder id) : other ≤ id := by
  induction id using Nat.strongRecOn with
  | ind id ih =>
    rw [preorder_eq] at h
    rcases List.mem_cons.mp h with rfl | h
    · exact Nat.le_refl _
    · obtain ⟨child, hchild, hother⟩ := List.mem_flatMap.mp h
      have hlt := lt_of_mem_children hchild
      exact Nat.le_trans (ih child hlt hother) (Nat.le_of_lt hlt)

/-- The nodes of a pre-order are its first one and the children of all of them. -/
theorem preorder_perm (t : Tree) (id : Nat) :
    (t.preorder id).Perm (id :: (t.preorder id).flatMap t.children) := by
  induction id using Nat.strongRecOn with
  | ind id ih =>
    have hchildren : ((t.children id).flatMap t.preorder).Perm
        ((t.children id).flatMap fun child => [child] ++ (t.preorder child).flatMap t.children) :=
      List.Perm.flatMap_left _ fun child hchild => ih child (lt_of_mem_children hchild)
    have hapart := List.flatMap_append_perm (t.children id) (fun child => [child])
      fun child => (t.preorder child).flatMap t.children
    rw [List.flatMap_singleton'] at hapart
    rw [preorder_eq, List.flatMap_cons, List.flatMap_assoc]
    exact (hchildren.trans hapart.symm).cons id

theorem count_preorder_root (h : id < t.size) : (t.preorder t.root).count id = 1 := by
  -- from the root downwards: a node is there as often as its parent
  induction hk : t.size - id using Nat.strongRecOn generalizing id with
  | ind k ih =>
    rw [(t.preorder_perm t.root).count_eq, List.count_cons]
    by_cases hroot : id = t.root
    · have hnone : ((t.preorder t.root).flatMap t.children).count id = 0 :=
        List.count_eq_zero.mpr fun hmem => by
          obtain ⟨parent, -, hchild⟩ := List.mem_flatMap.mp hmem
          exact Nat.ne_of_lt (lt_root_of_mem_children hchild) hroot
      rw [hnone]
      simp [hroot]
    · obtain ⟨parent, hparent⟩ : ∃ parent, id ∈ t.children parent :=
        exists_parent (by simp only [root, size] at h hroot ⊢; omega)
      have hlt := lt_of_mem_children hparent
      have hbound : parent < t.size := links_parent_lt (mem_children_iff.mp hparent)
      rw [count_flatMap_children hparent, ih (t.size - parent) (by omega) hbound rfl]
      simp [Ne.symm hroot]

/-- The pre-order of the root holds every node once. -/
theorem preorder_root_perm (t : Tree) : (t.preorder t.root).Perm (List.range t.size) := by
  refine List.perm_iff_count.mpr fun id => ?_
  by_cases h : id < t.size
  · rw [count_preorder_root h, List.count_eq_one_of_mem List.nodup_range (List.mem_range.mpr h)]
  · have hfar : id ∉ t.preorder t.root := fun hmem => by
      have hle := le_of_mem_preorder hmem
      have hsize := t.isTree.nonempty
      simp only [root, size] at hle h
      omega
    rw [List.count_eq_zero.mpr hfar, List.count_eq_zero.mpr (by simpa using h)]

/-! ### Walks -/

variable {σ : Type} {visit : σ → Nat → σ × Bool}

private theorem walkStack_eq_foldl (hon : ∀ state id, (visit state id).2 = true) (state : σ)
    (pending : List Nat) :
    t.walkStack visit state pending =
      (pending.flatMap t.preorder).foldl (fun state id => (visit state id).1) state := by
  fun_induction walkStack t visit state pending with
  | case1 state => rfl
  | case2 state id pending next hvisit ih =>
    rw [ih, List.flatMap_append, List.flatMap_cons, preorder_eq t id, List.cons_append,
      List.foldl_cons, hvisit]
  | case3 state id pending next hvisit ih =>
    have hgoes := hon state id
    rw [hvisit] at hgoes
    cases hgoes

/-- A visitor that always goes on is called on these nodes, in this order. -/
def WalksThrough (t : Tree) (start : Nat) (order : List Nat) : Prop :=
  ∀ (σ : Type) (visit : σ → Nat → σ × Bool) (state : σ),
    (∀ state id, (visit state id).2 = true) →
      t.walk visit state start = order.foldl (fun state id => (visit state id).1) state

theorem walksThrough_preorder (t : Tree) (id : Nat) : t.WalksThrough id (t.preorder id) := by
  intro σ visit state hon
  rw [walk, walkStack_eq_foldl hon, List.flatMap_singleton]

end Tree

end Lintel
