import Lintel.Proofs.Tree.Placed
import Lintel.Proofs.Tree.Walk

/-!
# Walks and enclosing nodes

A walk calls its visitor on the nodes that a recursive traversal visits, in the same
order, whatever the visitor answers. The walk that keeps a path makes the same calls, and
the path that it passes leads from the parent of the visited node up to the start: the
pending nodes wait at depths that never grow towards the bottom of the stack, so that
cutting the path back to the depth of the next one leaves the nodes that enclose it.
-/

namespace Lintel

namespace Tree

variable {σ ν : Type} {t : Tree} {start id other : Nat} {path : List Nat}

/-! ### The recursive traversal -/

/-- Visits nodes and what is below them, from left to right and each node before those
below it; nothing is visited below a node that is answered with `false`. The answer holds
the last state and the visited nodes. -/
def traverse (t : Tree) (visit : σ → Nat → σ × Bool) (state : σ) : List Nat → σ × List Nat
  | [] => (state, [])
  | id :: rest =>
    match visit state id with
    | (next, true) =>
      let below := traverse t visit next (t.children id)
      let others := traverse t visit below.1 rest
      (others.1, id :: below.2 ++ others.2)
    | (next, false) =>
      let others := traverse t visit next rest
      (others.1, id :: others.2)
termination_by ids => total (ids.map t.weight)
decreasing_by
  · simp only [List.map_cons, total, weight_eq t id]
    omega
  · simp only [List.map_cons, total, weight_eq t id]
    omega
  · simp only [List.map_cons, total, weight_eq t id]
    omega

section Calls

variable {visit : σ → Nat → σ × Bool} {entry : Nat → ν}

private theorem traverse_append (state : σ) (first second : List Nat) :
    t.traverse visit state (first ++ second) =
      ((t.traverse visit (t.traverse visit state first).1 second).1,
        (t.traverse visit state first).2 ++
          (t.traverse visit (t.traverse visit state first).1 second).2) := by
  fun_induction traverse t visit state first with
  | case1 state => rfl
  | case2 state id rest next hvisit below others _ ih =>
    rw [List.cons_append, traverse, hvisit]
    simp only [below] at ih
    simp only [ih, List.cons_append, List.append_assoc, below, others]
  | case3 state id rest next hvisit others ih =>
    rw [List.cons_append, traverse, hvisit]
    simp only [ih, List.cons_append, others]

private theorem walkStack_eq_traverse (state : σ) (pending : List Nat) :
    t.walkStack visit state pending = (t.traverse visit state pending).1 := by
  fun_induction walkStack t visit state pending with
  | case1 state => rw [traverse]
  | case2 state id pending next hvisit ih => rw [ih, traverse_append, traverse, hvisit]
  | case3 state id pending next hvisit ih => rw [ih, traverse, hvisit]

/-- A visitor that also takes down what it is called on. -/
def noting (entry : Nat → ν) (visit : σ → Nat → σ × Bool) (noted : σ × List ν) (id : Nat) :
    (σ × List ν) × Bool :=
  (((visit noted.1 id).1, noted.2 ++ [entry id]), (visit noted.1 id).2)

private theorem traverse_noting (state : σ) (notes : List ν) (ids : List Nat) :
    (t.traverse (noting entry visit) (state, notes) ids).1 =
      ((t.traverse visit state ids).1, notes ++ (t.traverse visit state ids).2.map entry) := by
  fun_induction traverse t visit state ids generalizing notes with
  | case1 state => simp [traverse]
  | case2 state id rest next hvisit below others ihBelow ihOthers =>
    simp only [traverse, noting, hvisit, ihBelow, ihOthers, below, others]
    simp
  | case3 state id rest next hvisit others ih =>
    simp only [traverse, noting, hvisit, ih, others]
    simp

private theorem walk_noting (entry : Nat → ν) (visit : σ → Nat → σ × Bool) (state : σ)
    (start : Nat) :
    t.walk (noting entry visit) (state, []) start =
      ((t.traverse visit state [start]).1, (t.traverse visit state [start]).2.map entry) := by
  rw [walk, walkStack_eq_traverse, traverse_noting, List.nil_append]

private theorem below_of_mem_traverse {state : σ} {ids : List Nat}
    (h : id ∈ (t.traverse visit state ids).2) : ∃ first ∈ ids, t.Below first id := by
  fun_induction traverse t visit state ids with
  | case1 state => cases h
  | case2 state first rest next hvisit below others ihBelow ihOthers =>
    rcases List.mem_append.mp h with h | h
    · rcases List.mem_cons.mp h with rfl | h
      · exact ⟨id, List.mem_cons_self, .refl⟩
      · obtain ⟨child, hchild, hbelow⟩ := ihBelow h
        exact ⟨first, List.mem_cons_self, .head hchild hbelow⟩
    · obtain ⟨other, hother, hbelow⟩ := ihOthers h
      exact ⟨other, List.mem_cons_of_mem first hother, hbelow⟩
  | case3 state first rest next hvisit others ih =>
    rcases List.mem_cons.mp h with rfl | h
    · exact ⟨id, List.mem_cons_self, .refl⟩
    · obtain ⟨other, hother, hbelow⟩ := ih h
      exact ⟨other, List.mem_cons_of_mem first hother, hbelow⟩

end Calls

/-! ### The way up -/

/-- A path leads from the parent of a node up to a start, through one parent after the
other; it is empty at the start itself. -/
structure PathTo (t : Tree) (start id : Nat) (path : List Nat) : Prop where
  climbs : (id :: path).IsChain fun child parent => child ∈ t.children parent
  ends : (id :: path).getLast? = some start

theorem pathTo_start (t : Tree) (start : Nat) : t.PathTo start start [] :=
  ⟨.singleton start, rfl⟩

theorem PathTo.step {parent child : Nat} (h : t.PathTo start parent path)
    (hchild : child ∈ t.children parent) :
    t.PathTo start child (parent :: path) :=
  ⟨.cons_cons hchild h.climbs, by rw [List.getLast?_cons_cons]; exact h.ends⟩

@[simp] theorem pathTo_nil_iff : t.PathTo start id [] ↔ id = start :=
  ⟨fun h => by simpa using h.ends, fun h => h ▸ t.pathTo_start id⟩

@[simp] theorem pathTo_cons_iff {parent : Nat} :
    t.PathTo start id (parent :: path) ↔ id ∈ t.children parent ∧ t.PathTo start parent path := by
  constructor
  · rintro ⟨hclimbs, hends⟩
    rw [List.isChain_cons_cons] at hclimbs
    rw [List.getLast?_cons_cons] at hends
    exact ⟨hclimbs.1, hclimbs.2, hends⟩
  · rintro ⟨hchild, h⟩
    exact h.step hchild

theorem le_of_below (h : t.Below id other) : other ≤ id := by
  induction h with
  | refl => exact Nat.le_refl id
  | tail _ hlast ih => exact Nat.le_trans (Nat.le_of_lt (lt_of_mem_children hlast)) ih

theorem PathTo.below (h : t.PathTo start id path) : t.Below start id := by
  induction path generalizing id with
  | nil =>
    obtain rfl := pathTo_nil_iff.mp h
    exact .refl
  | cons parent path ih =>
    obtain ⟨hchild, hpath⟩ := pathTo_cons_iff.mp h
    exact (ih hpath).tail hchild

theorem Below.exists_pathTo (h : t.Below start id) : ∃ path, t.PathTo start id path := by
  induction h with
  | refl => exact ⟨[], t.pathTo_start start⟩
  | tail _ hlast ih =>
    obtain ⟨path, hpath⟩ := ih
    exact ⟨_, hpath.step hlast⟩

def parent? (t : Tree) (id : Nat) : Option Nat :=
  (List.range t.size).find? fun parent => (t.children parent).contains id

private theorem parent?_eq_some_iff {parent : Nat} :
    t.parent? id = some parent ↔ id ∈ t.children parent := by
  constructor
  · intro h
    simpa using List.find?_some h
  · intro hchild
    have hlt : parent < t.size := links_parent_lt (mem_children_iff.mp hchild)
    cases h : t.parent? id with
    | none =>
      have hnone := List.find?_eq_none.mp h parent (List.mem_range.mpr hlt)
      simp [hchild] at hnone
    | some first =>
      have hfirst : id ∈ t.children first := by simpa using List.find?_some h
      rw [parent_unique hfirst hchild]

/-- The nodes from the parent of a node up to a start, the nearest first. -/
def ancestors (t : Tree) (start id : Nat) : List Nat :=
  if id = start then []
  else match _h : t.parent? id with
    | none => []
    | some parent => parent :: ancestors t start parent
termination_by t.size - id
decreasing_by
  have hchild := parent?_eq_some_iff.mp ‹t.parent? id = some parent›
  have hlt := lt_of_mem_children hchild
  have hbound : parent < t.size := links_parent_lt (mem_children_iff.mp hchild)
  omega

/-- There is one way up. -/
theorem PathTo.eq_ancestors (h : t.PathTo start id path) : path = t.ancestors start id := by
  induction path generalizing id with
  | nil =>
    obtain rfl := pathTo_nil_iff.mp h
    rw [ancestors, if_pos rfl]
  | cons parent path ih =>
    obtain ⟨hchild, hpath⟩ := pathTo_cons_iff.mp h
    have hne : id ≠ start :=
      Nat.ne_of_lt (Nat.lt_of_lt_of_le (lt_of_mem_children hchild) (le_of_below hpath.below))
    rw [ancestors, if_neg hne]
    split
    · rename_i hnone
      rw [parent?_eq_some_iff.mpr hchild] at hnone
      cases hnone
    · rename_i first hfirst
      obtain rfl : parent = first := parent_unique hchild (parent?_eq_some_iff.mp hfirst)
      rw [← ih hpath]

theorem Below.pathTo_ancestors (h : t.Below start id) : t.PathTo start id (t.ancestors start id) := by
  obtain ⟨path, hpath⟩ := h.exists_pathTo
  exact hpath.eq_ancestors ▸ hpath

/-! ### Enclosing nodes -/

/-- A node encloses another within a start. -/
structure Encloses (t : Tree) (start id node : Nat) : Prop where
  within : t.Below start node
  below : t.Below node id
  proper : node ≠ id

/-- The nearest enclosing node of a class: none in between is in the class. -/
structure Nearest (t : Tree) (start id : Nat) (Class : Nat → Prop) (node : Nat) : Prop where
  encloses : t.Encloses start id node
  inClass : Class node
  none_between : ∀ between, t.Encloses start id between → t.Below node between → between ≠ node →
    ¬ Class between

theorem Below.antisymm (h : t.Below id other) (hback : t.Below other id) : id = other :=
  Nat.le_antisymm (le_of_below hback) (le_of_below h)

private theorem below_parent_iff {parent child : Nat} (hchild : child ∈ t.children parent) :
    t.Below id child ∧ id ≠ child ↔ t.Below id parent := by
  constructor
  · rintro ⟨h, hne⟩
    rcases Relation.ReflTransGen.cases_tail h with rfl | ⟨last, hlast, hother⟩
    · exact absurd rfl hne
    · rwa [parent_unique hchild hother]
  · intro h
    refine ⟨h.tail hchild, ?_⟩
    rintro rfl
    exact Nat.not_lt_of_le (le_of_below h) (lt_of_mem_children hchild)

theorem PathTo.mem_iff (h : t.PathTo start id path) : other ∈ path ↔ t.Encloses start id other := by
  induction path generalizing id with
  | nil =>
    obtain rfl := pathTo_nil_iff.mp h
    simp only [List.not_mem_nil, false_iff]
    rintro ⟨hwithin, hbelow, hne⟩
    exact hne (hbelow.antisymm hwithin)
  | cons parent path ih =>
    obtain ⟨hchild, hpath⟩ := pathTo_cons_iff.mp h
    rw [List.mem_cons, ih hpath]
    constructor
    · rintro (rfl | ⟨hwithin, hbelow, -⟩)
      · exact ⟨hpath.below, .single hchild, Nat.ne_of_gt (lt_of_mem_children hchild)⟩
      · obtain ⟨hid, hne⟩ := (below_parent_iff hchild).mpr hbelow
        exact ⟨hwithin, hid, hne⟩
    · rintro ⟨hwithin, hbelow, hne⟩
      have hparent : t.Below other parent := (below_parent_iff hchild).mp ⟨hbelow, hne⟩
      by_cases heq : other = parent
      · exact .inl heq
      · exact .inr ⟨hwithin, hparent, heq⟩

/-- On the way up each node is below those that come later. -/
theorem PathTo.pairwise (h : t.PathTo start id path) :
    path.Pairwise fun lower upper => t.Below upper lower ∧ upper ≠ lower := by
  induction path generalizing id with
  | nil => exact .nil
  | cons parent path ih =>
    obtain ⟨-, hpath⟩ := pathTo_cons_iff.mp h
    refine .cons (fun upper hupper => ?_) (ih hpath)
    have hencloses := hpath.mem_iff.mp hupper
    exact ⟨hencloses.below, hencloses.proper⟩

theorem PathTo.nearest_iff (h : t.PathTo start id path) {test : Nat → Bool} :
    nearest test path = some other ↔ t.Nearest start id (test · = true) other := by
  rw [nearest, List.find?_eq_some_iff_append]
  constructor
  · rintro ⟨htest, nearer, farther, rfl, hnearer⟩
    refine ⟨h.mem_iff.mp (by simp), htest, fun between hbetween hbelow hne => ?_⟩
    have hfarther : between ∉ farther := fun hmem => by
      have hpair := List.rel_of_pairwise_cons (List.pairwise_append.mp h.pairwise).2.1 hmem
      exact hne (hpair.1.antisymm hbelow)
    have hmem : between ∈ nearer := by
      simpa [hne, hfarther] using h.mem_iff.mpr hbetween
    simpa using hnearer between hmem
  · rintro ⟨hencloses, htest, hnone⟩
    obtain ⟨nearer, farther, rfl⟩ := List.append_of_mem (h.mem_iff.mpr hencloses)
    refine ⟨htest, nearer, farther, rfl, fun between hbetween => ?_⟩
    have hpair := (List.pairwise_append.mp h.pairwise).2.2 between hbetween other
      List.mem_cons_self
    have hother := hnone between (h.mem_iff.mp (by simp [hbetween])) hpair.1 hpair.2.symm
    simpa using hother

theorem PathTo.head?_eq_some_iff {parent : Nat} (h : t.PathTo start id path) :
    path.head? = some parent ↔ id ≠ start ∧ id ∈ t.children parent := by
  cases path with
  | nil => simp [pathTo_nil_iff.mp h]
  | cons first path =>
    obtain ⟨hchild, hpath⟩ := pathTo_cons_iff.mp h
    have hne : id ≠ start :=
      Nat.ne_of_lt (Nat.lt_of_lt_of_le (lt_of_mem_children hchild) (le_of_below hpath.below))
    rw [List.head?_cons, Option.some.injEq]
    refine ⟨?_, fun ⟨_, hother⟩ => parent_unique hchild hother⟩
    rintro rfl
    exact ⟨hne, hchild⟩

/-- What a path says about the nodes around a visited one: its head is the parent, its
length counts the enclosing nodes, and its queries find the nearest of them. -/
structure Ancestry (t : Tree) (start id : Nat) (path : List Nat) : Prop where
  leads : t.PathTo start id path
  parent : ∀ node, path.head? = some node ↔ id ≠ start ∧ id ∈ t.children node
  nodup : path.Nodup
  mem : ∀ node, node ∈ path ↔ t.Encloses start id node
  nearest : ∀ test node, nearest test path = some node ↔ t.Nearest start id (test · = true) node
  function : ∀ node, t.enclosingFunction path = some node ↔
    t.Nearest start id (fun n => t.tag n = .funcDecl ∨ t.tag n = .funcLit) node
  block : ∀ node, t.enclosingBlock path = some node ↔
    t.Nearest start id (fun n => t.tag n = .block) node
  declaration : ∀ node, t.enclosingDeclaration path = some node ↔
    t.Nearest start id (fun n => t.tag n = .funcDecl ∨ t.tag n = .typeDecl ∨ t.tag n = .typeSpec ∨
      t.tag n = .constDecl ∨ t.tag n = .varDecl) node

theorem PathTo.ancestry (h : t.PathTo start id path) : t.Ancestry start id path where
  leads := h
  parent _ := h.head?_eq_some_iff
  nodup := h.pairwise.imp fun hpair => hpair.2.symm
  mem _ := h.mem_iff
  nearest _ _ := h.nearest_iff
  function node := by simp [enclosingFunction, h.nearest_iff]
  block node := by simp [enclosingBlock, h.nearest_iff]
  declaration node := by simp [enclosingDeclaration, h.nearest_iff]

/-! ### The walk with a path -/

def cut (path : List Nat) (depth : Nat) : List Nat :=
  path.drop (path.length - depth)

theorem length_cut {depth : Nat} (h : depth ≤ path.length) : (cut path depth).length = depth := by
  rw [cut, List.length_drop]
  omega

private theorem cut_cut {depth lower : Nat} (h : depth ≤ path.length) (hlower : lower ≤ depth) :
    cut (cut path depth) lower = cut path lower := by
  rw [cut, length_cut h, cut, List.drop_drop, cut]
  congr 1
  omega

private theorem cut_cons {depth : Nat} (h : depth ≤ path.length) :
    cut (id :: path) depth = cut path depth := by
  rw [cut, List.length_cons, Nat.succ_sub h, List.drop_succ_cons, cut]

/-- The nodes that wait, each with its depth, and the path of the last visited one: cut
back to the depth of a waiting node it is the way up from there, and depths never grow. -/
structure Waits (t : Tree) (start : Nat) (path : List Nat) (pending : List (Nat × Nat)) : Prop where
  fits : ∀ p ∈ pending, p.2 ≤ path.length
  leads : ∀ p ∈ pending, t.PathTo start p.1 (cut path p.2)
  depths : pending.Pairwise fun first second => second.2 ≤ first.2

private theorem waits_start (t : Tree) (start : Nat) : t.Waits start [] [(start, 0)] :=
  ⟨by simp, by simp [cut], by simp⟩

section Steps

variable {depth : Nat} {pending : List (Nat × Nat)}

theorem Waits.skip (h : t.Waits start path ((id, depth) :: pending)) :
    t.Waits start (cut path depth) pending := by
  have hdepth : depth ≤ path.length := h.fits (id, depth) List.mem_cons_self
  have hlower : ∀ p ∈ pending, p.2 ≤ depth := fun p hp => List.rel_of_pairwise_cons h.depths hp
  refine ⟨fun p hp => ?_, fun p hp => ?_, h.depths.of_cons⟩
  · rw [length_cut hdepth]
    exact hlower p hp
  · rw [cut_cut hdepth (hlower p hp)]
    exact h.leads p (List.mem_cons_of_mem _ hp)

theorem Waits.enter (h : t.Waits start path ((id, depth) :: pending)) :
    t.Waits start (id :: cut path depth)
      ((t.children id).map (fun child => (child, depth + 1)) ++ pending) := by
  have hdepth : depth ≤ path.length := h.fits (id, depth) List.mem_cons_self
  have hlength := length_cut hdepth
  have hlower : ∀ p ∈ pending, p.2 ≤ depth := fun p hp => List.rel_of_pairwise_cons h.depths hp
  have hpath : t.PathTo start id (cut path depth) := h.leads (id, depth) List.mem_cons_self
  have hrest := h.skip
  refine ⟨fun p hp => ?_, fun p hp => ?_, List.pairwise_append.mpr ⟨?_, hrest.depths, ?_⟩⟩
  · rcases List.mem_append.mp hp with hp | hp
    · obtain ⟨child, -, rfl⟩ := List.mem_map.mp hp
      simp [hlength]
    · exact Nat.le_succ_of_le (hrest.fits p hp)
  · rcases List.mem_append.mp hp with hp | hp
    · obtain ⟨child, hchild, rfl⟩ := List.mem_map.mp hp
      have hwhole : cut (id :: cut path depth) (depth + 1) = id :: cut path depth := by
        rw [cut, List.length_cons, hlength, Nat.sub_self, List.drop_zero]
      rw [hwhole]
      exact hpath.step hchild
    · rw [cut_cons (hrest.fits p hp)]
      exact hrest.leads p hp
  · rw [List.pairwise_map]
    exact List.pairwise_of_forall fun _ _ => Nat.le_refl _
  · intro first hfirst second hsecond
    obtain ⟨child, -, rfl⟩ := List.mem_map.mp hfirst
    exact Nat.le_succ_of_le (hlower second hsecond)

/-- The walk with a path is a walk whose visitor looks the path up. -/
theorem walkStackWithPath_eq (visit : σ → Nat → List Nat → σ × Bool) (state : σ)
    (h : t.Waits start path pending) :
    t.walkStackWithPath visit state path pending =
      t.walkStack (fun state id => visit state id (t.ancestors start id)) state
        (pending.map (·.1)) := by
  fun_induction walkStackWithPath t visit state path pending with
  | case1 state path => simp [walkStack]
  | case2 state path id depth pending enclosing next hvisit ih =>
    have hpath : enclosing = t.ancestors start id :=
      (h.leads (id, depth) List.mem_cons_self).eq_ancestors
    rw [ih h.enter, List.map_cons, walkStack, ← hpath, hvisit]
    simp [Function.comp_def]
  | case3 state path id depth pending enclosing next hvisit ih =>
    have hpath : enclosing = t.ancestors start id :=
      (h.leads (id, depth) List.mem_cons_self).eq_ancestors
    rw [ih h.skip, List.map_cons, walkStack, ← hpath, hvisit]

end Steps

def notingPath (visit : σ → Nat → List Nat → σ × Bool) (noted : σ × List (Nat × List Nat))
    (id : Nat) (path : List Nat) : (σ × List (Nat × List Nat)) × Bool :=
  (((visit noted.1 id path).1, noted.2 ++ [(id, path)]), (visit noted.1 id path).2)

/-- Both walks make the calls of the recursive traversal, and the path that comes with a
call is the way up from the visited node to the start. -/
theorem walk_calls (t : Tree) (start : Nat) :
    (∀ (visit : σ → Nat → σ × Bool) (state : σ),
      t.walk (noting (fun id => id) visit) (state, []) start = t.traverse visit state [start]) ∧
    ∀ (visit : σ → Nat → List Nat → σ × Bool) (state : σ),
      let calls := t.traverse (fun state id => visit state id (t.ancestors start id)) state [start]
      t.walkWithPath (notingPath visit) (state, []) start =
        (calls.1, calls.2.map fun id => (id, t.ancestors start id)) ∧
      ∀ id ∈ calls.2, t.Ancestry start id (t.ancestors start id) := by
  constructor
  · intro visit state
    rw [walk_noting, List.map_id']
  · intro visit state calls
    refine ⟨?_, fun id hid => ?_⟩
    · rw [walkWithPath, walkStackWithPath_eq (notingPath visit) (state, []) (t.waits_start start)]
      exact walk_noting (fun id => (id, t.ancestors start id))
        (fun state id => visit state id (t.ancestors start id)) state start
    · obtain ⟨first, hfirst, hbelow⟩ := below_of_mem_traverse hid
      rw [List.mem_singleton.mp hfirst] at hbelow
      exact (Below.pathTo_ancestors hbelow).ancestry

end Tree

end Lintel
