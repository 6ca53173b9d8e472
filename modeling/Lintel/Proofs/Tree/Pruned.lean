import Lintel.Proofs.Tree.Hollow

/-!
# Walks that go on below some nodes only

A walk that goes on below the nodes of a class comes to a node just if all nodes between the start
and this node are of the class. So the returns that belong to a body are those that stand in no
function literal of it.
-/

namespace Lintel.Tree

variable {t : Tree} {descend : Nat → Bool} {start id : Nat}

/-- A node is another one, or below it with only nodes of a class above it. -/
def BelowThrough (t : Tree) (descend : Nat → Bool) : Nat → Nat → Prop :=
  Relation.ReflTransGen fun parent child => descend parent = true ∧ child ∈ t.children parent

private theorem belowThrough_head_iff (start : Nat) : t.BelowThrough descend start id ↔
    start = id ∨ descend start = true ∧ ∃ child ∈ t.children start, t.BelowThrough descend child id := by
  refine Relation.ReflTransGen.cases_head_iff.trans (or_congr_right ?_)
  constructor
  · rintro ⟨child, ⟨hdescend, hchild⟩, hrest⟩
    exact ⟨hdescend, child, hchild, hrest⟩
  · rintro ⟨hdescend, child, hchild, hrest⟩
    exact ⟨child, ⟨hdescend, hchild⟩, hrest⟩

/-- A walk has seen what it had, what was pending, and what it came to from there. -/
theorem mem_walkStack_iff (seen pending : List Nat) :
    id ∈ t.walkStack (fun seen n => (n :: seen, descend n)) seen pending ↔
      id ∈ seen ∨ ∃ start ∈ pending, t.BelowThrough descend start id := by
  fun_induction walkStack t (fun seen n => (n :: seen, descend n)) seen pending with
  | case1 seen => simp
  | case2 seen start pending next hvisit ih =>
    obtain ⟨rfl, hdescend⟩ := Prod.mk.inj hvisit
    rw [ih, List.exists_mem_cons_iff, belowThrough_head_iff start]
    simp only [hdescend, true_and, List.mem_cons, List.mem_append, or_and_right, exists_or]
    grind
  | case3 seen start pending next hvisit ih =>
    obtain ⟨rfl, hdescend⟩ := Prod.mk.inj hvisit
    rw [ih, List.exists_mem_cons_iff, belowThrough_head_iff start]
    simp only [hdescend, Bool.false_eq_true, false_and, or_false, List.mem_cons]
    grind

private theorem mem_visited_iff :
    id ∈ t.visited descend start ↔ t.BelowThrough descend start id := by
  rw [visited, List.mem_reverse, walk, mem_walkStack_iff]
  simp

/-- All nodes between the start of a walk and a node that it comes to are of the class. -/
theorem belowThrough_iff : t.BelowThrough descend start id ↔ t.Below start id ∧
    ∀ inner, t.Below start inner → t.Below inner id → inner ≠ id → descend inner = true := by
  constructor
  · intro h
    induction h with
    | refl =>
      refine ⟨.refl, fun inner hstart hinner hne => absurd ?_ hne⟩
      exact Nat.le_antisymm (le_of_mem_preorder (mem_preorder_of_below hstart))
        (le_of_mem_preorder (mem_preorder_of_below hinner))
    | @tail parent child _ hlast ih =>
      refine ⟨ih.1.tail hlast.2, fun inner hstart hinner hne => ?_⟩
      -- what is above the child is its parent, or above it
      obtain rfl | ⟨other, hother, hchild⟩ := hinner.cases_tail
      · exact absurd rfl hne
      · obtain rfl := parent_unique hlast.2 hchild
        by_cases hparent : inner = parent
        · rw [hparent]
          exact hlast.1
        · exact ih.2 inner hstart hother hparent
  · rintro ⟨hbelow, hclass⟩
    induction hbelow with
    | refl => exact .refl
    | @tail parent child hparent hchild ih =>
      have hdown : ∀ {inner}, t.Below inner parent → inner ≠ child := by
        rintro _ hinner rfl
        have hle := le_of_mem_preorder (mem_preorder_of_below hinner)
        have hlt := lt_of_mem_children hchild
        omega
      refine .tail (ih fun inner hstart hinner _ => ?_) ⟨?_, hchild⟩
      · exact hclass inner hstart (hinner.tail hchild) (hdown hinner)
      · exact hclass parent hparent (.single hchild) (hdown .refl)

/-- The returns of a body are those below it that stand in no function literal. -/
theorem mem_ownReturns_iff {body ret : Nat} : ret ∈ t.ownReturns body ↔ t.tag ret = .returnStmt ∧
    t.Below body ret ∧ ∀ literal, t.tag literal = .funcLit → t.Below body literal →
      ¬ t.Below literal ret := by
  rw [ownReturns, List.mem_filter, mem_visited_iff, belowThrough_iff, beq_iff_eq, and_comm]
  refine and_congr_right fun htag => and_congr_right fun _ => ?_
  constructor
  · intro h literal hliteral hbody hret
    have hne : literal ≠ ret := by
      rintro rfl
      rw [hliteral] at htag
      cases htag
    simpa [hliteral] using h literal hbody hret hne
  · intro h inner hbody hret _
    exact bne_iff_ne.mpr fun hinner => h inner hinner hbody hret

end Lintel.Tree
