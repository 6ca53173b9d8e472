import Lintel.Proofs.Tree.Walk

/-!
# Which lists of nodes are trees

A list of nodes is accepted as a tree exactly if children come before their parents and
every node but the last is the child of one other, once. A list that is refused has no
nodes, or a first link to object to, or else a lowest node without a parent. While the
links are checked, the marked nodes are the children of the links passed so far.
-/

namespace Lintel

/-- The form of a tree, as the child lists show it. -/
structure FormsTree (nodes : Array Node) : Prop where
  nonempty : 0 < nodes.size
  below : ∀ (parent : Nat) (n : Node), nodes[parent]? = some n → ∀ child ∈ n.children, child < parent
  once : ∀ id, id + 1 < nodes.size → (nodes.toList.flatMap (·.children)).count id = 1
  last : (nodes.toList.flatMap (·.children)).count (nodes.size - 1) = 0

/-- What there is to object to a link of a parent and a child behind others: the child
does not come before its parent, or it has a parent already. -/
inductive Objection (earlier : List (Nat × Nat)) : Nat × Nat → TreeError → Prop
  | dangling (parent child : Nat) : parent ≤ child →
      Objection earlier (parent, child) (.danglingChild parent child)
  | shared (parent child : Nat) : child < parent → child ∈ earlier.map (·.2) →
      Objection earlier (parent, child) (.sharedChild child)

/-- There is nothing to object to any link, behind those before it. -/
def Unobjected (pairs : List (Nat × Nat)) : Prop :=
  ∀ earlier link later, pairs = earlier ++ link :: later → ∀ e, ¬ Objection earlier link e

/-- Why an arena is refused: it has no nodes; or the first link there is something to
object to, by parent and then in child order; or the lowest node without a parent. -/
inductive Refused (nodes : Array Node) : TreeError → Prop
  | empty : nodes.size = 0 → Refused nodes .empty
  | link {earlier later : List (Nat × Nat)} {link : Nat × Nat} {e : TreeError} :
      links nodes = earlier ++ link :: later → Unobjected earlier → Objection earlier link e →
      Refused nodes e
  | orphan (id : Nat) : Unobjected (links nodes) → id + 1 < nodes.size →
      id ∉ linkedChildren nodes → (∀ lower < id, lower ∈ linkedChildren nodes) →
      Refused nodes (.orphan id)

variable {nodes : Array Node} {pairs earlier : List (Nat × Nat)} {seen marked : Array Bool}
  {link : Nat × Nat} {e : TreeError}

/-! ### The form of a tree -/

private theorem mem_linkedChildren_iff {id : Nat} :
    id ∈ linkedChildren nodes ↔ ∃ parent, (parent, id) ∈ links nodes := by
  simp [linkedChildren]

theorem formsTree_iff_isTree : FormsTree nodes ↔ IsTree nodes := by
  constructor
  · rintro ⟨hnonempty, hbelow, honce, hlast⟩
    rw [← linkedChildren_eq_flatMap] at honce hlast
    have hlt : ∀ link ∈ links nodes, link.2 < link.1 := fun link hlink => by
      obtain ⟨n, hn, hchild⟩ := mem_links_iff.mp hlink
      exact hbelow link.1 n hn link.2 hchild
    refine ⟨hnonempty, hlt, List.nodup_iff_count_le_one.mpr fun id => ?_, fun id hid => ?_⟩
    · rcases Nat.lt_trichotomy (id + 1) nodes.size with hid | hid | hid
      · exact Nat.le_of_eq (honce id hid)
      · obtain rfl : id = nodes.size - 1 := by omega
        omega
      · have hnone : id ∉ linkedChildren nodes := fun hmem => by
          obtain ⟨parent, hlink⟩ := mem_linkedChildren_iff.mp hmem
          have hchild := hlt _ hlink
          have hparent := links_parent_lt hlink
          omega
        simp [List.count_eq_zero.mpr hnone]
    · exact List.count_pos_iff.mp (by rw [honce id hid]; exact Nat.one_pos)
  · intro h
    refine ⟨h.nonempty, fun parent n hn child hchild => ?_, fun id hid => ?_, ?_⟩
    · exact h.child_lt _ (mem_links_iff.mpr ⟨n, hn, hchild⟩)
    · rw [← linkedChildren_eq_flatMap]
      exact List.count_eq_one_of_mem h.unshared (h.reached id hid)
    · rw [← linkedChildren_eq_flatMap]
      refine List.count_eq_zero.mpr fun hmem => ?_
      obtain ⟨parent, hlink⟩ := mem_linkedChildren_iff.mp hmem
      have hchild := h.child_lt _ hlink
      have hparent := links_parent_lt hlink
      omega

/-! ### Checking the links -/

private theorem unobjected_nil : Unobjected [] := by
  intro earlier link later h
  simp at h

theorem Unobjected.concat (h : Unobjected pairs) (hlink : ∀ e, ¬ Objection pairs link e) :
    Unobjected (pairs ++ [link]) := by
  intro earlier other later hsplit
  rcases List.eq_nil_or_concat later with rfl | ⟨rest, last, rfl⟩
  · obtain ⟨rfl, hlast⟩ := List.append_inj' hsplit rfl
    obtain rfl : link = other := by simpa using hlast
    exact hlink
  · obtain ⟨rfl, -⟩ : pairs = earlier ++ other :: rest ∧ [link] = [last] :=
      List.append_inj' (by simpa using hsplit) rfl
    exact h earlier other rest rfl

/-- The marked nodes are the children of the links passed so far. -/
def Marks (passed : List (Nat × Nat)) (seen : Array Bool) : Prop :=
  ∀ id, seen.getD id false = true ↔ id ∈ passed.map (·.2)

private theorem marks_replicate (size : Nat) : Marks [] (Array.replicate size false) := by
  intro id
  by_cases hid : id < size
  · simp [Array.getD_eq_getD_getElem?, hid]
  · simp [Array.getD_eq_getD_getElem?, hid]

theorem Marks.mark (h : Marks earlier seen) (hlt : link.2 < seen.size) :
    Marks (earlier ++ [link]) (seen.setIfInBounds link.2 true) := by
  intro id
  rw [List.map_append, List.mem_append, ← h id]
  by_cases hid : id = link.2
  · subst hid
    simp [Array.getD_eq_getD_getElem?, hlt]
  · simp [Array.getD_eq_getD_getElem?, Ne.symm hid, hid]

/-- Links are passed up to the first one there is something to object to. -/
theorem markChildren_spec (hmarks : Marks earlier seen) (hearlier : Unobjected earlier)
    (hbound : ∀ link ∈ pairs, link.1 < seen.size) :
    (∃ marked, markChildren pairs seen = .ok marked ∧ Unobjected (earlier ++ pairs) ∧
      Marks (earlier ++ pairs) marked) ∨
    ∃ e before link after, markChildren pairs seen = .error e ∧
      pairs = before ++ link :: after ∧ Unobjected (earlier ++ before) ∧
      Objection (earlier ++ before) link e := by
  induction pairs generalizing earlier seen with
  | nil => exact .inl ⟨seen, rfl, by simpa using hearlier, by simpa using hmarks⟩
  | cons link rest ih =>
    obtain ⟨parent, child⟩ := link
    have hparent : parent < seen.size := hbound (parent, child) List.mem_cons_self
    rw [markChildren]
    by_cases hdangling : parent ≤ child
    · rw [if_pos hdangling]
      exact .inr ⟨_, [], _, rest, rfl, rfl, by simpa using hearlier,
        by simpa using Objection.dangling parent child hdangling⟩
    · rw [if_neg hdangling]
      have hlt : child < parent := Nat.lt_of_not_le hdangling
      by_cases hshared : seen.getD child false = true
      · rw [if_pos hshared]
        exact .inr ⟨_, [], _, rest, rfl, rfl, by simpa using hearlier,
          by simpa using Objection.shared parent child hlt ((hmarks child).mp hshared)⟩
      · rw [if_neg hshared]
        have hnone : ∀ e, ¬ Objection earlier (parent, child) e := by
          intro e he
          cases he with
          | dangling _ _ hle => exact hdangling hle
          | shared _ _ _ hmem => exact hshared ((hmarks child).mpr hmem)
        have hchild : child < seen.size := Nat.lt_trans hlt hparent
        have hmarks' : Marks (earlier ++ [(parent, child)]) (seen.setIfInBounds child true) :=
          hmarks.mark hchild
        have hbound' : ∀ link ∈ rest, link.1 < (seen.setIfInBounds child true).size := by
          intro link hlink
          simpa using hbound link (List.mem_cons_of_mem _ hlink)
        rcases ih hmarks' (hearlier.concat hnone) hbound' with
          ⟨marked, hok, hun, hafter⟩ | ⟨e, before, link, after, herror, hsplit, hun, hobjection⟩
        · exact .inl ⟨marked, hok, by simpa using hun, by simpa using hafter⟩
        · exact .inr ⟨e, (parent, child) :: before, link, after, herror, by rw [hsplit]; rfl,
            by simpa using hun, by simpa using hobjection⟩

/-! ### Acceptance and refusal -/

theorem ofNodes_cases (file : SourceFile) (nodes : Array Node) :
    (∃ t, Tree.ofNodes file nodes = .ok t ∧ t.file = file ∧ t.nodes = nodes) ∨
      ∃ e, Tree.ofNodes file nodes = .error e ∧ Refused nodes e := by
  have hlinks := markChildren_spec (marks_replicate nodes.size) unobjected_nil
    fun link hlink => by simpa using links_parent_lt hlink
  unfold Tree.ofNodes
  split
  · split
    · rename_i e herror
      rcases hlinks with ⟨marked, hok, -⟩ | ⟨e, before, link, after, hother, hsplit, hun, hobjection⟩
      · cases herror.symm.trans hok
      · cases herror.symm.trans hother
        exact .inr ⟨e, rfl, .link hsplit hun hobjection⟩
    · rename_i marked hmarked
      rcases hlinks with ⟨marked, hok, hun, hmarks⟩ | ⟨e, -, -, -, herror, -⟩
      · cases hmarked.symm.trans hok
        split
        · rename_i id hfind
          obtain ⟨hunmarked, hmem, hlower⟩ := List.find?_range_eq_some.mp hfind
          have hlt : id < nodes.size - 1 := List.mem_range.mp hmem
          refine .inr ⟨_, rfl, .orphan id hun (by omega) (fun hchild => ?_) fun lower hlt => ?_⟩
          · simp [(hmarks id).mpr hchild] at hunmarked
          · exact (hmarks lower).mp (by simpa using hlower lower hlt)
        · exact .inl ⟨_, rfl, rfl, rfl⟩
      · cases hmarked.symm.trans herror
  · exact .inr ⟨_, rfl, .empty (by omega)⟩

theorem Tree.ofNodes_spec {file : SourceFile} {t : Tree} (h : Tree.ofNodes file nodes = .ok t) :
    t.file = file ∧ t.nodes = nodes := by
  rcases ofNodes_cases file nodes with ⟨other, hok, hspec⟩ | ⟨e, herror, -⟩
  · cases h.symm.trans hok
    exact hspec
  · cases h.symm.trans herror

theorem IsTree.unobjected (h : IsTree nodes) : Unobjected (links nodes) := by
  intro earlier link later hsplit e he
  have hlink : link ∈ links nodes := by simp [hsplit]
  cases he with
  | dangling parent child hle => exact Nat.not_lt_of_le hle (h.child_lt _ hlink)
  | shared parent child _ hmem =>
    have hnodup := h.unshared
    rw [linkedChildren, hsplit, List.map_append, List.map_cons] at hnodup
    exact (List.nodup_append.mp hnodup).2.2 child hmem child List.mem_cons_self rfl

theorem Refused.not_isTree (h : Refused nodes e) : ¬ IsTree nodes := by
  intro htree
  cases h with
  | empty hsize => exact Nat.ne_of_gt htree.nonempty hsize
  | link hsplit _ hobjection => exact htree.unobjected _ _ _ hsplit e hobjection
  | orphan id _ hid hnone _ => exact hnone (htree.reached id hid)

theorem Objection.unique {other : TreeError} (h : Objection earlier link e)
    (hother : Objection earlier link other) : e = other := by
  cases h with
  | dangling parent child hle =>
    cases hother with
    | dangling => rfl
    | shared _ _ hlt _ => omega
  | shared parent child hlt =>
    cases hother with
    | dangling _ _ hle => omega
    | shared => rfl

private theorem objection_unique {before after later : List (Nat × Nat)} {first other : Nat × Nat}
    {e' : TreeError} (hsplit : before ++ first :: after = earlier ++ other :: later)
    (hbefore : Unobjected before) (hearlier : Unobjected earlier) (h : Objection before first e)
    (hother : Objection earlier other e') : e = e' := by
  rcases List.append_eq_append_iff.mp hsplit with ⟨middle, rfl, hrest⟩ | ⟨middle, rfl, hrest⟩
  · cases middle with
    | nil =>
      obtain ⟨rfl, -⟩ := List.cons.inj hrest
      exact h.unique (by simpa using hother)
    | cons link middle =>
      obtain ⟨rfl, -⟩ := List.cons.inj hrest
      exact absurd h (hearlier before first middle rfl e)
  · cases middle with
    | nil =>
      obtain ⟨rfl, -⟩ := List.cons.inj hrest
      exact (hother.unique (by simpa using h)).symm
    | cons link middle =>
      obtain ⟨rfl, -⟩ := List.cons.inj hrest
      exact absurd hother (hbefore earlier other middle rfl e')

private theorem size_pos_of_links {later : List (Nat × Nat)}
    (h : links nodes = earlier ++ link :: later) :
    0 < nodes.size := by
  have hlink : link ∈ links nodes := by simp [h]
  exact Nat.zero_lt_of_lt (links_parent_lt hlink)

theorem Refused.unique {other : TreeError} (h : Refused nodes e) (hother : Refused nodes other) :
    e = other := by
  cases h with
  | empty hsize =>
    cases hother with
    | empty => rfl
    | link hsplit => exact absurd hsize (Nat.ne_of_gt (size_pos_of_links hsplit))
    | orphan id _ hid => omega
  | link hsplit hun hobjection =>
    cases hother with
    | empty hsize => exact absurd hsize (Nat.ne_of_gt (size_pos_of_links hsplit))
    | link hsplit' hun' hobjection' =>
      exact objection_unique (hsplit.symm.trans hsplit') hun hun' hobjection hobjection'
    | orphan id hclear => exact absurd hobjection (hclear _ _ _ hsplit _)
  | orphan id hclear hid hnone hlower =>
    cases hother with
    | empty hsize => omega
    | link hsplit _ hobjection => exact absurd hobjection (hclear _ _ _ hsplit _)
    | orphan id' _ _ hnone' hlower' =>
      rcases Nat.lt_trichotomy id id' with hlt | rfl | hgt
      · exact absurd (hlower' id hlt) hnone
      · rfl
      · exact absurd (hlower id' hgt) hnone'

/-- What is accepted as a tree, in what order a walk from its root visits all nodes, each
once, and why everything else is refused. -/
theorem ofNodes_decides (file : SourceFile) (nodes : Array Node) :
    ((∃ t, Tree.ofNodes file nodes = .ok t) ↔ FormsTree nodes) ∧
    (∀ t, Tree.ofNodes file nodes = .ok t → t.file = file ∧ t.nodes = nodes ∧
      ∃ order, t.WalksThrough t.root order ∧ order.Perm (List.range nodes.size)) ∧
    ∀ e, Tree.ofNodes file nodes = .error e ↔ Refused nodes e := by
  rw [formsTree_iff_isTree]
  rcases ofNodes_cases file nodes with ⟨t, hok, hfile, rfl⟩ | ⟨e, herror, hrefused⟩
  · refine ⟨⟨fun _ => t.isTree, fun _ => ⟨t, hok⟩⟩, fun other hother => ?_, fun e => ?_⟩
    · obtain rfl : t = other := Except.ok.inj (hok.symm.trans hother)
      exact ⟨hfile, rfl, t.preorder t.root, t.walksThrough_preorder t.root, t.preorder_root_perm⟩
    · rw [hok]
      exact iff_of_false (by simp) fun h => h.not_isTree t.isTree
  · refine ⟨⟨?_, fun h => absurd h hrefused.not_isTree⟩, fun t hok => ?_, fun other => ?_⟩
    · rintro ⟨t, hok⟩
      cases herror.symm.trans hok
    · cases herror.symm.trans hok
    · rw [herror, Except.error.injEq]
      exact ⟨fun h => h ▸ hrefused, hrefused.unique⟩

def clauseFile : SourceFile :=
  .ofText "sample.go" "package sample" ""

/-- A package clause over the name it gives, in a file. -/
def clauseNodes : Array Node :=
  #[⟨.ident "sample", ⟨8, 14⟩, []⟩, ⟨.packageClause "sample", ⟨0, 14⟩, [0]⟩, ⟨.file, ⟨0, 14⟩, [1]⟩]

/-- The same, but the name also stands below the file itself. -/
def sharedNodes : Array Node :=
  #[⟨.ident "sample", ⟨8, 14⟩, []⟩, ⟨.packageClause "sample", ⟨0, 14⟩, [0]⟩,
    ⟨.file, ⟨0, 14⟩, [1, 0]⟩]

theorem ofNodes_decides_clause :
    (∃ t : Tree, Tree.ofNodes clauseFile clauseNodes = .ok t ∧ FormsTree clauseNodes ∧
      ∃ order : List Nat, order.Perm (List.range 3) ∧
        t.walk (fun seen id => (id :: seen, true)) [] t.root = order.reverse) ∧
    Tree.ofNodes clauseFile sharedNodes = .error (.sharedChild 0) ∧
    Refused sharedNodes (.sharedChild 0) := by
  obtain ⟨hforms, hwalk, -⟩ := ofNodes_decides clauseFile clauseNodes
  obtain ⟨t, ht⟩ : ∃ t, Tree.ofNodes clauseFile clauseNodes = .ok t := ⟨_, rfl⟩
  obtain ⟨-, -, order, hthrough, hperm⟩ := hwalk t ht
  have hseen := hthrough (List Nat) (fun seen id => (id :: seen, true)) [] fun _ _ => rfl
  have hshared : Tree.ofNodes clauseFile sharedNodes = .error (.sharedChild 0) := rfl
  refine ⟨⟨t, ht, hforms.mp ⟨t, ht⟩, order, hperm, ?_⟩, hshared, ?_⟩
  · simpa using hseen
  · exact ((ofNodes_decides clauseFile sharedNodes).2.2 _).mp hshared

end Lintel
