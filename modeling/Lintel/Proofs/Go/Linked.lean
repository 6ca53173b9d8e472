import Mathlib.Data.List.Pairwise
import Lintel.Proofs.Go.Forms
import Lintel.Proofs.Go.Leads

/-!
# What kinds name in parsed files

The nodes of a parsed file have the forms that lowering gives them, so that the kind of a node
names children of it only. So what is below a node of a parsed file is closed under following its
kinds, and what is below two children of one node is apart.
-/

namespace Lintel.Go

section Parsed

variable {read : String → Option Concrete} {file : SourceFile} {t : Tree}

/-- The nodes of a parsed file are what lowering makes of concrete syntax. -/
theorem exists_root_of_parseWith (hread : parseWith read file = .ok t) :
    ∃ root, read file.content = some root ∧ t.file = file ∧ t.nodes = arenaOf file root := by
  unfold parseWith at hread
  split at hread
  · cases hread
  · rename_i root hroot
    split at hread
    · rename_i tree hok
      obtain rfl := Except.ok.inj hread
      exact ⟨root, hroot, Tree.ofNodes_spec hok⟩
    · cases hread

private theorem exists_nodes_eq_arenaOf (hread : parseWith read file = .ok t) :
    ∃ root, t.nodes = arenaOf t.file root := by
  obtain ⟨root, -, hfile, hnodes⟩ := exists_root_of_parseWith hread
  exact ⟨root, by rw [hnodes, hfile]⟩

/-- Every node of a parsed file has a form that lowering gives it. -/
theorem formed_of_parseWith (hread : parseWith read file = .ok t) (id : Nat) :
    Formed t.file (t.node id) := by
  obtain ⟨root, hnodes⟩ := exists_nodes_eq_arenaOf hread
  have hformed := arenaOf_formed t.file root
  rw [← hnodes] at hformed
  rcases t.getElem?_node_or id with hid | hid
  · exact hformed id _ hid
  · rw [hid]
    exact .default t.file

theorem refs_subset_children_of_parseWith (hread : parseWith read file = .ok t) (id : Nat) :
    (t.kind id).refs ⊆ t.children id :=
  (formed_of_parseWith hread id).refs_subset

/-- The nodes of a parsed file name lower nodes only. -/
theorem grounded_of_parseWith (hread : parseWith read file = .ok t) : t.Grounded :=
  fun id _ href => Tree.lt_of_mem_children (refs_subset_children_of_parseWith hread id href)

/-- What is below a node is closed if kinds name children. -/
theorem closed_preorder (hrefs : ∀ id, (t.kind id).refs ⊆ t.children id) (start : Nat) :
    Closed t (· ∈ t.preorder start) := by
  have hchild : ∀ id ∈ t.preorder start, ∀ child ∈ t.children id, child ∈ t.preorder start :=
    fun id hid child hchild =>
      Tree.mem_preorder_iff.mpr ((Tree.mem_preorder_iff.mp hid).tail hchild)
  exact ⟨fun id hid ref href => hchild id hid ref (hrefs id href), hchild⟩

end Parsed

end Lintel.Go

namespace Lintel.Tree

variable {t : Tree} {child other id : Nat}

/-- What is below one child of the root is not below another. -/
theorem not_mem_preorder_of_ne (hchild : child ∈ t.children t.root)
    (hother : other ∈ t.children t.root) (hne : child ≠ other) (hid : id ∈ t.preorder child) :
    id ∉ t.preorder other := by
  have hnodup := t.nodup_preorder_root
  rw [preorder_eq, List.nodup_cons] at hnodup
  have hapart := (List.nodup_flatMap.mp hnodup.2).2
  have : Std.Symm (Function.onFun List.Disjoint t.preorder) := ⟨fun _ _ h _ ha hb => h hb ha⟩
  exact hapart.forall hchild hother hne hid

end Lintel.Tree
