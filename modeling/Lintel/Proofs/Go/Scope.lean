import Lintel.Proofs.Go.Typing

/-!
# Nested scopes and the resolver

The resolver has one environment for the body of a function and keeps it in nested blocks and
function literals. So a name that is bound in a nested scope is bound after it as well, and
may get there a type that it has in the scope only. Nothing else comes out of a scope: where
the names that it binds are not used after it, the nodes outside have the types and packages
that they have if the scope is empty.
-/

namespace Lintel.Go

/-! ### Names of a scope -/

/-- The nodes that a statement may bind. A blank name is bound only if it is a parameter. -/
def bindings (t : Tree) (id : Nat) : List Nat :=
  match t.kind id with
  | .assignStmt targets _ _ | .valueSpec targets _ _ => targets.filter (t.ident? · != some "_")
  | .funcLit parts => (parts.params :: parts.results.toList).flatMap fun list =>
    (t.children list).flatMap fun field =>
      match t.kind field with
      | .field names _ _ => names
      | _ => []
  | _ => []

/-- The names that a scope may bind: those of the statements in it and, in a literal, of its
parameters and results. -/
def boundIn (t : Tree) (scope : Nat) : List String :=
  ((t.preorder scope).flatMap (bindings t)).filterMap t.ident?

/-- The nodes that a walk from a start meets after it has left a scope. -/
def laterThan (t : Tree) (scope start : Nat) : List Nat :=
  (t.preorder start).drop ((t.preorder start).idxOf scope + (t.preorder scope).length)

/-- The names of the identifiers that come after a scope in the body of its function. -/
def usedAfter (t : Tree) (scope : Nat) : List String :=
  (t.children t.root).flatMap fun decl =>
    match t.kind decl with
    | .funcDecl parts => parts.body.toList.flatMap fun body =>
      (laterThan t scope body).filterMap t.ident?
    | _ => []

section Names

variable {t : Tree} {scope id : Nat} {name : String}

private theorem mem_boundIn_iff : name ∈ boundIn t scope ↔
    ∃ id ∈ t.preorder scope, ∃ target ∈ bindings t id, t.ident? target = some name := by
  simp only [boundIn, List.mem_filterMap, List.mem_flatMap]
  constructor
  · rintro ⟨target, ⟨id, hid, htarget⟩, hname⟩
    exact ⟨id, hid, target, htarget, hname⟩
  · rintro ⟨id, hid, target, htarget, hname⟩
    exact ⟨target, ⟨id, hid, htarget⟩, hname⟩

/-- A walk from a start, split at a scope. -/
structure Splits (t : Tree) (scope start : Nat) (before after : List Nat) : Prop where
  walk : t.preorder start = before ++ t.preorder scope ++ after
  nodup : (t.preorder start).Nodup

theorem exists_splits {start : Nat} (hroot : t.Below t.root start) (h : t.Below start scope) :
    ∃ before after, Splits t scope start before after := by
  obtain ⟨before, after, hsplit⟩ := Tree.preorder_infix h
  exact ⟨before, after, hsplit.symm,
    t.nodup_preorder_root.sublist (Tree.preorder_infix hroot).sublist⟩

namespace Splits

variable {start other : Nat} {before after : List Nat}

private theorem not_mem_scope (h : Splits t scope start before after)
    (hid : id ∈ before ∨ id ∈ after) :
    id ∉ t.descendants scope ∧ id ≠ scope := by
  have hnodup := h.nodup
  rw [h.walk] at hnodup
  obtain ⟨hfront, -, hapart⟩ := List.nodup_append.mp hnodup
  have hnot : id ∉ t.preorder scope := by
    intro hmem
    rcases hid with hid | hid
    · exact (List.nodup_append.mp hfront).2.2 id hid id hmem rfl
    · exact hapart id (List.mem_append_right _ hmem) id hid rfl
  rw [Tree.mem_preorder_iff_descendants, not_or] at hnot
  exact hnot.symm

/-- What is below a later node is later. -/
theorem mem_after (h : Splits t scope start before after) (hid : id ∈ after)
    (hother : other ∈ t.preorder id) : other ∈ after := by
  have hbelow : t.Below start id := Tree.mem_preorder_iff.mp
    (by rw [h.walk]; exact List.mem_append_right _ hid)
  obtain ⟨front, back, hpiece⟩ := Tree.preorder_infix hbelow
  rw [h.walk, List.append_assoc front, List.append_eq_append_iff] at hpiece
  rcases hpiece with ⟨gap, hgap, hback⟩ | ⟨gap, hfront, hgap⟩
  · cases gap with
    | nil =>
      rw [List.nil_append] at hback
      rw [← hback]
      exact List.mem_append_left _ hother
    | cons first gap =>
      -- the piece would begin before the scope has ended
      rw [t.preorder_eq id, List.cons_append, List.cons_append] at hback
      obtain ⟨rfl, -⟩ := List.cons.inj hback
      have hnodup := h.nodup
      rw [h.walk, hgap] at hnodup
      refine absurd rfl ((List.nodup_append.mp hnodup).2.2 id ?_ id hid)
      exact List.mem_append_right _ List.mem_cons_self
  · rw [hgap]
    exact List.mem_append_right _ (List.mem_append_left _ hother)

private theorem laterThan_eq (h : Splits t scope start before after) :
    laterThan t scope start = after := by
  have hbefore : scope ∉ before := fun hmem => (h.not_mem_scope (.inl hmem)).2 rfl
  have hidx : (t.preorder start).idxOf scope = before.length := by
    rw [h.walk, List.append_assoc, List.idxOf_append_of_notMem hbefore, t.preorder_eq scope,
      List.cons_append, List.idxOf_cons_self, Nat.add_zero]
  rw [laterThan, hidx, h.walk, ← List.length_append, List.drop_left]

end Splits

end Names

/-! ### Statements inside -/

section Inside

variable {t : Tree} {s : Scope} {inside : Nat → Prop} {env env' : Env} {hidden : String → Prop}
  {id scope : Nat}

/-- The parameters and results of a literal are bound inside if their lists are inside. -/
theorem quiet_resolveLiteral (hclosed : Closed t inside) {parts : FuncParts}
    (hkind : t.kind id = .funcLit parts) (hrefs : ∀ ref ∈ parts.refs, inside ref)
    (hhidden : ∀ target ∈ bindings t id, ∀ name, t.ident? target = some name → hidden name)
    (henv : EnvAgree hidden env env') :
    Quiet inside (EnvAgree hidden · env') (resolveStatement t s env id) := by
  have hlists : ∀ l ∈ parts.params :: parts.results.toList, inside l := by
    intro l hl
    refine hrefs l ?_
    rcases List.mem_cons.mp hl with rfl | hl
    · simp [FuncParts.refs]
    · simp [FuncParts.refs, Option.mem_toList.mp hl]
  have hnames : ∀ l ∈ parts.params :: parts.results.toList, ∀ field ∈ t.children l,
      ∀ names type tag, t.kind field = .field names type tag →
        ∀ target ∈ names, ∀ name, t.ident? target = some name → hidden name := by
    intro l hl field hfield names type tag hfieldKind target htarget
    refine hhidden target ?_
    rw [bindings, hkind]
    refine List.mem_flatMap.mpr ⟨l, hl, List.mem_flatMap.mpr ⟨field, hfield, ?_⟩⟩
    rwa [hfieldKind]
  unfold resolveStatement
  rw [hkind]
  refine (quiet_bindFields hclosed s (fun l hl => ?_) (fun l hl => ?_) henv).bind fun env henv => ?_
  · exact hlists l (Option.some.inj hl ▸ List.mem_cons_self)
  · exact hnames l (Option.some.inj hl ▸ List.mem_cons_self)
  · exact quiet_bindFields hclosed s
      (fun l hl => hlists l (List.mem_cons_of_mem _ (Option.mem_toList.mpr hl)))
      (fun l hl => hnames l (List.mem_cons_of_mem _ (Option.mem_toList.mpr hl))) henv

/-- A statement inside touches nothing outside and binds hidden names only. -/
theorem quiet_resolveStatement (hclosed : Closed t inside) (hid : inside id)
    (hhidden : ∀ target ∈ bindings t id, ∀ name, t.ident? target = some name → hidden name)
    (henv : EnvAgree hidden env env') :
    Quiet inside (EnvAgree hidden · env') (resolveStatement t s env id) := by
  have hrefs := hclosed.refs id hid
  cases hkind : t.kind id with
  | assignStmt lhs rhs define =>
    rw [hkind] at hrefs
    have hnames : ∀ target ∈ lhs, ∀ name, t.ident? target = some name → name ≠ "_" →
        hidden name := fun target htarget name hname hblank =>
      hhidden target (by simp [bindings, hkind, htarget, hname, hblank]) name hname
    unfold resolveStatement
    rw [hkind]
    refine (quiet_assignedTypes hclosed s env (fun value hvalue =>
      hrefs value (List.mem_append_right _ hvalue)) lhs.length).bind fun types _ => ?_
    exact quiet_bindTargets (fun target htarget => hrefs target (List.mem_append_left _ htarget))
      hnames henv define types
  | valueSpec names type values =>
    unfold resolveStatement
    rw [hkind]
    refine quiet_bindSpec hclosed s hid ?_ henv
    intro names' _ _ hkind' target htarget name hname hblank
    exact hhidden target (by simp [bindings, hkind', htarget, hname, hblank]) name hname
  | funcLit parts =>
    rw [hkind] at hrefs
    exact quiet_resolveLiteral hclosed hkind hrefs hhidden henv
  | _ =>
    unfold resolveStatement
    rw [hkind]
    exact (quiet_exprType hclosed s env hid).bind fun _ _ => .pure henv

end Inside

/-! ### Statements of a tree and of the one with an empty scope -/

section Statements

variable {t : Tree} {s : Scope} {env env' : Env} {hidden : String → Prop} {id scope : Nat}

theorem closed_descendants (hlinked : t.Linked) : Closed t (· ∈ t.descendants scope) where
  refs id hid _ href := Tree.mem_descendants_of_mem_children (.inr hid) ((hlinked id).refs href)
  children _ hid _ hchild := Tree.mem_descendants_of_mem_children (.inr hid) hchild

theorem closed_hollow (t : Tree) (scope : Nat) :
    Closed (t.hollow scope) (· ∈ t.descendants scope) where
  refs id hid ref href := by
    rw [Tree.kind_hollow_of_mem hid] at href
    cases href
  children id hid child hchild := by
    rw [Tree.children_hollow] at hchild
    exact Tree.mem_descendants_of_mem_children (.inr hid) hchild

private theorem bindFields_hollow {l : Nat} (s : Scope) (env : Env) (hl : l ∈ t.descendants scope) :
    bindFields (t.hollow scope) s env (some l) = pure env := by
  have hnothing : bindFields (t.hollow scope) s env (some l) =
      ((t.hollow scope).children l).foldlM (fun env _ => pure env) env :=
    foldlM_congr (fun field hfield env => by
      rw [Tree.kind_hollow_of_mem ((closed_hollow t scope).children l hl field hfield)]) env
  rw [hnothing, List.foldlM_pure, List.foldl_fixed]

/-- What an emptied scope does binds nothing. -/
theorem quiet_resolveStatement_hollow (s : Scope) (env : Env) (hid : id ∈ t.descendants scope) :
    Quiet (· ∈ t.descendants scope) (· = env) (resolveStatement (t.hollow scope) s env id) := by
  unfold resolveStatement
  rw [Tree.kind_hollow_of_mem hid]
  exact (quiet_exprType (closed_hollow t scope) s env hid).bind fun _ _ => .pure rfl

variable (hlinked : t.Linked) (hscope : t.IsScope scope)

include hlinked hscope

/-- At the scope and inside it, the names of the scope are what the environments differ by. -/
theorem alike_resolveStatement_inside (s : Scope)
    (hid : id ∈ t.preorder scope) (hhidden : ∀ name ∈ boundIn t scope, hidden name)
    (henv : EnvAgree hidden env env') :
    Alike (· ∈ t.descendants scope) (EnvAgree hidden) (resolveStatement t s env id)
      (resolveStatement (t.hollow scope) s env' id) := by
  have hclosed : Closed t (· ∈ t.descendants scope) := closed_descendants hlinked
  have hbound : ∀ target ∈ bindings t id, ∀ name, t.ident? target = some name → hidden name :=
    fun target htarget name hname =>
      hhidden name (mem_boundIn_iff.mpr ⟨id, hid, target, htarget, hname⟩)
  have hmono : ∀ e e', EnvAgree hidden e env' ∧ e' = env' → EnvAgree hidden e e' := by
    rintro e e' ⟨he, rfl⟩
    exact he
  rcases Tree.mem_preorder_iff_descendants.mp hid with rfl | hinside
  · have hout := t.not_mem_descendants_self id
    rcases hscope.tag with htag | htag
    · -- a block itself does nothing
      cases hkind : t.kind id with
      | block =>
        have houtside : Outside t id hidden id := by
          refine ⟨hout, fun other hother hother' name hname => ?_⟩
          obtain rfl := (Tree.mem_preorder_iff_descendants.mp hother).resolve_right hother'
          rw [Tree.ident?, hkind] at hname
          cases hname
        unfold resolveStatement
        rw [Tree.kind_hollow hout, hkind]
        exact (alike_exprType hlinked hscope s henv houtside).bind fun _ _ _ => .pure henv
      | _ =>
        rw [Tree.tag, hkind] at htag
        cases htag
    · -- a literal binds what is declared in it
      cases hkind : t.kind id with
      | funcLit parts =>
        have hrefs : ∀ ref ∈ parts.refs, ref ∈ t.descendants id := fun ref href =>
          Tree.mem_descendants_of_mem_children (.inl rfl)
            ((hlinked id).refs (by rw [hkind]; exact href))
        have hhollow : resolveStatement (t.hollow id) s env' id = pure env' := by
          unfold resolveStatement
          rw [Tree.kind_hollow hout, hkind]
          dsimp only
          rw [bindFields_hollow s env' (hrefs parts.params (by simp [FuncParts.refs]))]
          cases hresults : parts.results with
          | none => rfl
          | some l =>
            exact bindFields_hollow s env' (hrefs l (by simp [FuncParts.refs, hresults]))
        rw [hhollow]
        exact ((quiet_resolveLiteral hclosed hkind hrefs hbound henv).alike
          (.pure rfl : Quiet (· ∈ t.descendants id) (· = env') (pure env'))).mono hmono
      | _ =>
        rw [Tree.tag, hkind] at htag
        cases htag
  · exact ((quiet_resolveStatement hclosed hinside hbound henv).alike
      (quiet_resolveStatement_hollow s env' hinside)).mono hmono

/-- Outside a scope statements do the same. -/
theorem alike_resolveStatement (s : Scope) (h : Outside t scope hidden id) (hne : id ≠ scope)
    (henv : EnvAgree hidden env env') :
    Alike (· ∈ t.descendants scope) (EnvAgree hidden) (resolveStatement t s env id)
      (resolveStatement (t.hollow scope) s env' id) := by
  unfold resolveStatement
  rw [Tree.kind_hollow h.out]
  split
  · rename_i lhs rhs define hkind
    have hparts : ∀ part ∈ lhs ++ rhs, Outside t scope hidden part := fun part hpart =>
      h.ref hlinked hscope hkind (by simp [NodeKind.tag]) hpart
    refine (alike_assignedTypes hlinked hscope s henv (fun value hvalue =>
      hparts value (List.mem_append_right _ hvalue)) lhs.length).bind fun types types' heq => ?_
    subst heq
    exact alike_bindTargets (fun target htarget => hparts target (List.mem_append_left _ htarget))
      henv define types
  · exact alike_bindSpec hlinked hscope s h henv
  · rename_i parts hkind
    have hlists : ∀ l ∈ (NodeKind.funcLit parts).lists, Outside t scope hidden l ∧ l ≠ scope := by
      intro l hl
      refine ⟨h.child hne ((hlinked id).refs ?_), hscope.ne_of_mem_lists hlinked hkind hl⟩
      rw [hkind]
      exact NodeKind.lists_subset_refs _ hl
    refine (alike_bindFields hlinked hscope s (fun l hl => ?_) henv).bind fun env env' henv => ?_
    · exact hlists l (by simp [NodeKind.lists, ← Option.some.inj hl])
    · refine alike_bindFields hlinked hscope s (fun l hl => ?_) henv
      exact hlists l (by simp [NodeKind.lists, Option.mem_def.mp hl])
  · exact (alike_exprType hlinked hscope s henv h).bind fun _ _ _ => .pure henv

end Statements

/-! ### Bodies of functions -/

theorem walkAll_eq_foldlM {α : Type} (t : Tree) (visit : α → Nat → Resolve α) (start : α)
    (id : Nat) : walkAll t visit start id = (t.preorder id).foldlM visit start := by
  have hfold : ∀ (ids : List Nat) (a : α) (m : Memory),
      ids.foldl (fun state id => ((visit state.1 id).run state.2 : α × Memory)) (a, m) =
        (ids.foldlM visit a).run m := by
    intro ids
    induction ids with
    | nil => exact fun _ _ => rfl
    | cons id ids ih =>
      intro a m
      rw [List.foldl_cons, List.foldlM_cons]
      exact ih _ _
  funext m
  exact (t.walksThrough_preorder id _ _ (start, m) fun _ _ => rfl).trans (hfold _ _ _)

section Bodies

variable {t : Tree} {s : Scope} {env env' : Env} {id scope : Nat}

/-- If no name is hidden, nothing is asked of identifiers. -/
theorem outside_of_not_mem (h : id ∉ t.descendants scope) :
    Outside t scope (fun _ => False) id :=
  ⟨h, fun _ _ _ _ _ hfalse => hfalse⟩

/-- Below a node outside that does not lead to the scope all is outside. -/
theorem not_mem_of_below {start : Nat} (hstart : start ∉ t.descendants scope)
    (hscope : ¬ t.Below start scope) (h : t.Below start id) :
    id ∉ t.descendants scope ∧ id ≠ scope := by
  induction h with
  | refl => exact ⟨hstart, fun heq => hscope (heq ▸ .refl)⟩
  | tail hparent hchild ih =>
    exact ⟨Tree.not_mem_descendants_of_mem_children ih.2 ih.1 hchild,
      fun heq => hscope (heq ▸ hparent.tail hchild)⟩

variable (hlinked : t.Linked) (hscope : t.IsScope scope)

include hlinked hscope

/-- Statements outside the scope, as long as no name is hidden. -/
theorem alike_statements (s : Scope) (env : Env) {ids : List Nat}
    (hids : ∀ id ∈ ids, id ∉ t.descendants scope ∧ id ≠ scope) :
    Alike (· ∈ t.descendants scope) Eq (ids.foldlM (resolveStatement t s) env)
      (ids.foldlM (resolveStatement (t.hollow scope) s) env) := by
  refine (Alike.foldlM (fun id hid env env' henv => ?_) (.refl env)).eq_of_envAgree
  exact alike_resolveStatement hlinked hscope s (outside_of_not_mem (hids id hid).1) (hids id hid).2
    henv

/-- A body is walked alike if no name that the scope binds is used in it after the scope. -/
theorem alike_walkBody (s : Scope) (env : Env) {body : Nat} (hbody : body ∉ t.descendants scope)
    (hroot : t.Below t.root body)
    (hlater : ∀ id ∈ laterThan t scope body, ∀ name, t.ident? id = some name →
      name ∉ boundIn t scope) :
    Alike (· ∈ t.descendants scope) (fun _ _ => True) (walkAll t (resolveStatement t s) env body)
      (walkAll (t.hollow scope) (resolveStatement (t.hollow scope) s) env body) := by
  rw [walkAll_eq_foldlM, walkAll_eq_foldlM, Tree.preorder_hollow]
  by_cases hbelow : t.Below body scope
  · obtain ⟨before, after, hsplits⟩ := exists_splits hroot hbelow
    rw [hsplits.laterThan_eq] at hlater
    -- before the scope the environments are the same, from it on they differ by its names
    have hbefore := alike_statements hlinked hscope s env fun id hid =>
      hsplits.not_mem_scope (.inl hid)
    have hinside : ∀ env, Alike (· ∈ t.descendants scope) (EnvAgree (· ∈ boundIn t scope))
        ((t.preorder scope).foldlM (resolveStatement t s) env)
        ((t.preorder scope).foldlM (resolveStatement (t.hollow scope) s) env) := fun env =>
      Alike.foldlM (fun id hid env env' henv => alike_resolveStatement_inside hlinked hscope s hid
        (fun _ hname => hname) henv) (.refl env)
    have hafter : ∀ env env', EnvAgree (· ∈ boundIn t scope) env env' →
        Alike (· ∈ t.descendants scope) (EnvAgree (· ∈ boundIn t scope))
          (after.foldlM (resolveStatement t s) env)
          (after.foldlM (resolveStatement (t.hollow scope) s) env') := fun env env' henv =>
      Alike.foldlM (fun id hid env env' henv => by
        obtain ⟨hout, hne⟩ := hsplits.not_mem_scope (.inr hid)
        refine alike_resolveStatement hlinked hscope s ⟨hout, fun other hother _ => ?_⟩ hne henv
        exact hlater other (hsplits.mem_after hid hother)) henv
    rw [hsplits.walk, List.foldlM_append, List.foldlM_append, List.foldlM_append,
      List.foldlM_append]
    refine Alike.bind (hbefore.bind fun env env' heq => ?_) fun env env' henv =>
      (hafter env env' henv).mono fun _ _ _ => trivial
    subst heq
    exact hinside env
  · refine (alike_statements hlinked hscope s env fun id hid => ?_).mono fun _ _ _ => trivial
    exact not_mem_of_below hbody hbelow (Tree.mem_preorder_iff.mp hid)

end Bodies

end Lintel.Go
