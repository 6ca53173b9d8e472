import Lintel.Proofs.Go.Justified

/-!
# What is asked when a file is resolved

The values of a package and the bodies of functions are walked from their start, and the walk asks
for the type of every node but of those that only bind. So where the type of one node has been
asked, all others of the same walk have an answer at the end.
-/

namespace Lintel.Go

open Lintel.Text

/-- A walk starts at a specification of values or at the body of a function. -/
def IsStart (t : Tree) (start : Nat) : Prop :=
  ∃ decl ∈ t.children t.root, start ∈ t.children decl ∧ (t.tag decl = .varDecl ∨
    t.tag decl = .constDecl ∨ t.tag decl = .funcDecl)

/-- A node whose type a walk asks for, since it does not bind. -/
def IsAsked (t : Tree) (id : Nat) : Prop :=
  t.tag id ≠ .assignStmt ∧ t.tag id ≠ .valueSpec ∧ t.tag id ≠ .funcLit

/-- A node lies in a walk that has asked for all types. -/
def Covered (t : Tree) (m : Memory) (id : Nat) : Prop :=
  ∃ start, IsStart t start ∧ id ∈ t.preorder start ∧
    ∀ other ∈ t.preorder start, IsAsked t other → (m.known[other]?).isSome

/-- All walks that have asked for a type have asked for all. -/
def Reached (t : Tree) (m : Memory) : Prop :=
  ∀ id : Nat, (m.known[id]?).isSome → Covered t m id

/-- All nodes of a class have an answer. -/
def AllKnown (asked : Nat → Prop) (m : Memory) : Prop :=
  ∀ id, asked id → (m.known[id]?).isSome

section Covered

variable {t : Tree} {m : Memory} {id other above : Nat}

theorem Covered.below (h : Covered t m id) (hbelow : t.Below id other) : Covered t m other := by
  obtain ⟨start, hstart, hid, hall⟩ := h
  exact ⟨start, hstart, Tree.mem_preorder_iff.mpr ((Tree.mem_preorder_iff.mp hid).trans hbelow), hall⟩

theorem Covered.known (h : Covered t m id) (hasked : IsAsked t id) : (m.known[id]?).isSome := by
  obtain ⟨start, -, hid, hall⟩ := h
  exact hall id hid hasked

/-- A walk comes to a node by its parent, unless it starts there. -/
theorem Covered.parent (h : Covered t m id) (hid : id ∈ t.children above)
    (htag : t.tag above ∉ [NodeTag.varDecl, .constDecl, .funcDecl]) : Covered t m above := by
  obtain ⟨start, hstart, hmem, hall⟩ := h
  refine ⟨start, hstart, Tree.mem_preorder_iff.mpr ?_, hall⟩
  cases Tree.mem_preorder_iff.mp hmem with
  | refl =>
    obtain ⟨decl, -, hchild, hdecl⟩ := hstart
    obtain rfl := Tree.parent_unique hchild hid
    exact absurd (by simpa using hdecl) htag
  | tail hbelow hchild =>
    obtain rfl := Tree.parent_unique hchild hid
    exact hbelow

end Covered

section Walks

variable {t : Tree} {s : Scope} {env : Env} {asked : Nat → Prop} {start : Nat}

theorem AllKnown.learn {m : Memory} (h : AllKnown asked m) (node : Nat) (answer : Option GoType) :
    AllKnown asked (m.learn node answer) := by
  intro id hid
  rw [getElem?_known_learn]
  split
  · rfl
  · exact h id hid

theorem allKnown_kept (t : Tree) (s : Scope) (env : Env) : Kept t s env (AllKnown asked) :=
  ⟨fun _ _ _ hm => hm, fun _ node answer hm _ => hm.learn node answer⟩

private theorem bind_allKnown (target : Nat) (type : Option GoType) :
    Leads (AllKnown asked) (bind t env target type) fun _ => AllKnown asked :=
  leads_bind type (fun _ hm => hm) fun _ found _ _ hm => hm.learn target (some found)

private theorem bindSpec_allKnown (spec : Nat) :
    Leads (AllKnown asked) (bindSpec t s env spec) fun _ => AllKnown asked := by
  unfold bindSpec
  split
  · refine ((allKnown_kept t s env).leads_assignedTypes _ _).bind fun inferred => ?_
    exact Leads.foldlM (I := fun _ _ => AllKnown asked) (fun _ _ _ _ _ => bind_allKnown _ _) env
  · exact .pure fun _ hm => hm

/-- A statement asks for its type, unless it binds. -/
theorem resolveStatement_allKnown (id : Nat) :
    Leads (AllKnown asked) (resolveStatement t s env id) fun _ m =>
      AllKnown asked m ∧ (IsAsked t id → (m.known[id]?).isSome) := by
  have hbinds : ¬ IsAsked t id → ∀ m, AllKnown asked m →
      AllKnown asked m ∧ (IsAsked t id → (m.known[id]?).isSome) :=
    fun hid m hm => ⟨hm, fun hasked => absurd hasked hid⟩
  unfold resolveStatement
  split
  · rename_i hkind
    refine ((allKnown_kept t s env).leads_assignedTypes _ _).bind fun types => ?_
    refine (Leads.foldlM (I := fun _ _ => AllKnown asked) (fun _ _ _ _ _ => ?_) env).mono fun _ =>
      hbinds (by simp [IsAsked, Tree.tag, hkind, NodeKind.tag])
    dsimp only
    split
    · exact bind_allKnown _ _
    · exact .pure fun _ hm => hm
  · rename_i hkind
    exact (bindSpec_allKnown id).mono fun _ => hbinds (by simp [IsAsked, Tree.tag, hkind, NodeKind.tag])
  · rename_i hkind
    have hfields : ∀ {env : Env} {list : Option Nat}, Leads (AllKnown asked) (bindFields t s env list)
        fun _ => AllKnown asked :=
      leads_bindFields (I := fun _ => AllKnown asked) fun _ _ _ _ _ _ _ _ _ hm => hm
    exact hfields.bind fun _ => hfields.mono fun _ =>
      hbinds (by simp [IsAsked, Tree.tag, hkind, NodeKind.tag])
  · exact (leads_exprType (allKnown_kept t s env) id).bind fun _ => .pure fun _ hm =>
      ⟨hm.1, fun _ => hm.2⟩

private theorem walkAll_allKnown {α : Type} {visit : α → Nat → Resolve α}
    (hvisit : ∀ (asked : Nat → Prop) a id, Leads (AllKnown asked) (visit a id) fun _ m =>
      AllKnown asked m ∧ (IsAsked t id → (m.known[id]?).isSome)) (a : α) :
    Leads (AllKnown asked) (walkAll t visit a start) fun _ m =>
      AllKnown asked m ∧ ∀ other ∈ t.preorder start, IsAsked t other → (m.known[other]?).isSome := by
  rw [walkAll_eq_foldlM]
  refine (Leads.foldlM (I := fun before _ m => AllKnown asked m ∧
    ∀ other ∈ before, IsAsked t other → (m.known[other]?).isSome)
    (fun before id _ _ a => ?_) a).weaken fun m hm => ⟨hm, by simp⟩
  refine ((hvisit (fun other => asked other ∨ other ∈ before ∧ IsAsked t other) a id).weaken
    fun m hm other => ?_).mono fun _ m hm => ⟨fun other hother => hm.1 other (.inl hother), ?_⟩
  · rintro (hother | ⟨hmem, hasked⟩)
    · exact hm.1 other hother
    · exact hm.2 other hmem hasked
  · intro other hmem hasked
    rcases List.mem_append.mp hmem with hmem | hmem
    · exact hm.1 other (.inr ⟨hmem, hasked⟩)
    · obtain rfl := List.mem_singleton.mp hmem
      exact hm.2 hasked

/-- A walk that touches nothing outside and asks for all types inside leaves all walks complete. -/
theorem Leads.reached {α : Type} {c : Resolve α} (hstart : IsStart t start)
    (hquiet : Quiet (· ∈ t.preorder start) (fun _ => True) c)
    (hall : ∀ asked : Nat → Prop, Leads (AllKnown asked) c fun _ m =>
      AllKnown asked m ∧ ∀ other ∈ t.preorder start, IsAsked t other → (m.known[other]?).isSome) :
    Leads (Reached t) c fun _ => Reached t := by
  intro m hm id hid
  by_cases hinside : id ∈ t.preorder start
  · exact ⟨start, hstart, hinside, (hall (fun _ => False) m fun _ hfalse => hfalse.elim).2⟩
  · have hsame : (c.run m).2.known[id]? = m.known[id]? :=
      (hquiet m m (.refl _ m)).2.known id hinside
    obtain ⟨other, hother, hmem, hknown⟩ := hm id (hsame ▸ hid)
    have hkeep := (hall (fun id => id ∈ t.preorder other ∧ IsAsked t id) m
      fun id hid => hknown id hid.1 hid.2).1
    exact ⟨other, hother, hmem, fun id hid hasked => hkeep id ⟨hid, hasked⟩⟩

end Walks

section Files

variable {t : Tree} {s : Scope} (hrefs : ∀ id, (t.kind id).refs ⊆ t.children id)

include hrefs

private theorem readValues_reached {decl : Nat} (hdecl : decl ∈ t.children t.root) :
    Leads (Reached t) (readValues t s decl) fun _ => Reached t := by
  have hspecs : (t.tag decl = .varDecl ∨ t.tag decl = .constDecl ∨ t.tag decl = .funcDecl) →
      ∀ (inner : Scope) (env : Env), Leads (Reached t) ((t.children decl).foldlM (fun env spec => do
        let env ← bindSpec t inner env spec
        walkAll t (fun _ node => do let _ ← exprType t inner env node; return ()) () spec
        return env) env) fun _ => Reached t := by
    intro htag inner env
    refine Leads.foldlM (I := fun _ _ => Reached t) (fun before spec after hsplit env => ?_) env
    have hspec : spec ∈ t.children decl := by
      rw [hsplit]
      exact List.mem_append_right before List.mem_cons_self
    have hclosed := closed_preorder hrefs spec
    have hself : spec ∈ t.preorder spec := Tree.mem_preorder_of_below .refl
    refine Leads.reached ⟨decl, hdecl, hspec, htag⟩ ?_ fun asked => ?_
    · have hquiet : Quiet (· ∈ t.preorder spec) (EnvAgree (fun _ => True) · env)
          (bindSpec t inner env spec) :=
        quiet_bindSpec hclosed inner hself (fun _ _ _ _ _ _ _ _ _ => trivial) (.refl env)
      refine hquiet.bind fun env _ => ?_
      refine (quiet_walkAll hclosed hself (fun _ node hnode => ?_) ()).bind fun _ _ => .pure trivial
      exact (quiet_exprType hclosed inner env hnode).bind fun _ _ => .pure trivial
    · refine (bindSpec_allKnown spec).bind fun env => ?_
      refine (walkAll_allKnown (fun asked _ node => ?_) ()).bind fun _ => .pure fun _ hm => hm
      exact (leads_exprType (allKnown_kept t inner env) node).bind fun _ => .pure fun _ hm =>
        ⟨hm.1, fun _ => hm.2⟩
  unfold readValues
  split
  · rename_i hkind
    exact (hspecs (.inl (by rw [Tree.tag, hkind]; rfl)) _ _).bind fun _ => .pure fun _ hm => hm
  · rename_i hkind
    exact (hspecs (.inr (.inl (by rw [Tree.tag, hkind]; rfl))) _ _).bind fun _ => .pure fun _ hm => hm
  · exact .pure fun _ hm => hm

private theorem resolveFunction_reached {decl : Nat} (hdecl : decl ∈ t.children t.root) :
    Leads (Reached t) (resolveFunction t s decl) fun _ => Reached t := by
  have hfields : ∀ {env : Env} {list : Option Nat}, Leads (Reached t) (bindFields t s env list)
      fun _ => Reached t := leads_bindFields (I := fun _ => Reached t) fun _ _ _ _ _ _ _ _ _ hm => hm
  unfold resolveFunction
  split
  · rename_i parts hkind
    refine hfields.bind fun _ => hfields.bind fun _ => hfields.bind fun env => ?_
    split
    · exact .pure fun _ hm => hm
    · rename_i body hbody
      have hchild : body ∈ t.children decl := hrefs decl (by
        rw [hkind]
        simp [NodeKind.refs, FuncParts.refs, hbody])
      have hclosed := closed_preorder hrefs body
      refine Leads.bind (Leads.reached ⟨decl, hdecl, hchild, .inr (.inr (by rw [Tree.tag, hkind]; rfl))⟩
        ?_ fun asked => walkAll_allKnown (fun _ _ id => resolveStatement_allKnown id) env)
        fun _ => .pure fun _ hm => hm
      refine quiet_walkAll hclosed (Tree.mem_preorder_of_below .refl) (fun env node hnode => ?_) env
      have hquiet : Quiet (· ∈ t.preorder body) (EnvAgree (fun _ => True) · env)
          (resolveStatement t s env node) :=
        quiet_resolveStatement hclosed hnode (fun _ _ _ _ => trivial) (.refl env)
      exact hquiet.mono fun _ _ _ => trivial
  · exact .pure fun _ hm => hm

private theorem leads_resolveFile_reached (package : Option String) :
    Leads (Unasked t) (resolveFile t package) fun _ => Reached t := by
  unfold resolveFile
  refine (leads_readNames package).bind fun s => (leads_readShapes hrefs s).bind fun s => ?_
  have hvalues : Leads (HasRead t package s) ((t.children t.root).foldlM (readValues t) s)
      fun _ => Reached t := by
    refine (Leads.foldlM (I := fun _ _ => Reached t) (fun before decl after hsplit s => ?_) s).weaken
      fun m hm id hid => ?_
    · refine readValues_reached hrefs ?_
      rw [hsplit]
      exact List.mem_append_right before List.mem_cons_self
    · rw [hm.unasked.known] at hid
      cases hid
  exact hvalues.bind fun s => Leads.forM fun decl hdecl => resolveFunction_reached hrefs hdecl

end Files

/-- When a file is resolved, all answers are explained, and all walks that have asked for a type
have asked for all. -/
theorem exists_resolved_reached {read : String → Option Concrete} {file : SourceFile} {t : Tree}
    (hread : parseWith read file = .ok t) (package : Option String)
    (siblings : List (String × Method)) :
    ∃ s m, Resolved t package s m ∧ Reached t m ∧ resolve t package siblings = m.facts := by
  have hrefs := refs_subset_children_of_parseWith hread
  obtain ⟨start, hstart, hfacts⟩ := exists_unasked t package siblings
  obtain ⟨s, hs⟩ := leads_resolveFile hrefs package start hstart
  exact ⟨s, _, hs, leads_resolveFile_reached hrefs package start hstart, hfacts⟩

end Lintel.Go
