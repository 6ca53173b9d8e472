import Lintel.Proofs.Go.Agree

/-!
# Types outside an emptied node

An expression outside an emptied node gets the type that it has otherwise, as long as the
environments differ by hidden bindings only and no identifier in it has a hidden name. What
is bound outside is then bound alike. What is bound inside is hidden.
-/

namespace Lintel

namespace Go

/-! ### Environments -/

/-- Environments of which the first has hidden bindings that the second has not. -/
inductive EnvAgree (hidden : String → Prop) : Env → Env → Prop
  | refl (env : Env) : EnvAgree hidden env env
  | insert {env env' : Env} (name : String) (type : GoType) : EnvAgree hidden env env' →
      EnvAgree hidden (env.insert name type) (env'.insert name type)
  | hide {env env' : Env} {name : String} (type : GoType) : hidden name →
      EnvAgree hidden env env' → EnvAgree hidden (env.insert name type) env'

namespace EnvAgree

variable {hidden : String → Prop} {env env' : Env} {name : String}

private theorem getElem?_eq (h : EnvAgree hidden env env') (hname : ¬ hidden name) :
    env[name]? = env'[name]? := by
  induction h with
  | refl env => rfl
  | insert other type _ ih => rw [Std.TreeMap.getElem?_insert, Std.TreeMap.getElem?_insert, ih]
  | @hide env env' other type hother _ ih =>
    have hne : other ≠ name := fun heq => hname (heq ▸ hother)
    rw [Std.TreeMap.getElem?_insert, if_neg (by simpa using hne), ih]

private theorem contains_eq (h : EnvAgree hidden env env') (hname : ¬ hidden name) :
    env.contains name = env'.contains name := by
  rw [Std.TreeMap.contains_eq_isSome_getElem?, Std.TreeMap.contains_eq_isSome_getElem?,
    h.getElem?_eq hname]

private theorem importOf?_eq (h : EnvAgree hidden env env') (s : Scope) (hname : ¬ hidden name) :
    s.importOf? env name = s.importOf? env' name := by
  rw [Scope.importOf?, Scope.importOf?, h.contains_eq hname]

/-- If no name is hidden there is no difference. -/
theorem eq_of_forall_not (h : EnvAgree hidden env env') (hnone : ∀ name, ¬ hidden name) :
    env = env' := by
  induction h with
  | refl env => rfl
  | insert other type _ ih => rw [ih]
  | hide type hother _ _ => exact absurd hother (hnone _)

end EnvAgree

theorem Alike.eq_of_envAgree {inside : Nat → Prop} {c c' : Resolve Env}
    (h : Alike inside (EnvAgree fun _ => False) c c') : Alike inside Eq c c' :=
  h.mono fun _ _ henv => henv.eq_of_forall_not fun _ hfalse => hfalse

/-! ### Inside -/

/-- A set of nodes that holds the children of its nodes and what their kinds name. -/
structure Closed (t : Tree) (inside : Nat → Prop) : Prop where
  refs : ∀ id, inside id → ∀ ref ∈ (t.kind id).refs, inside ref
  children : ∀ id, inside id → ∀ child ∈ t.children id, inside child

section Inside

variable {t : Tree} {s : Scope} {inside : Nat → Prop} {env env' : Env} {hidden : String → Prop}
  {id : Nat} (hclosed : Closed t inside)

include hclosed

private theorem quiet_callResults {typeOf : Nat → Resolve (Option GoType)}
    (htypeOf : ∀ part, inside part → Quiet inside (fun _ => True) (typeOf part))
    (hid : inside id) : Quiet inside (fun _ => True) (callResults t s typeOf env id) := by
  unfold callResults
  split
  · rename_i callee args hkind
    have hrefs := hclosed.refs id hid
    rw [hkind] at hrefs
    split
    · split
      · exact .pure trivial
      · split
        · exact .pure trivial
        · split
          · exact .pure trivial
          · exact .pure trivial
          · exact .pure trivial
          · exact .pure trivial
          · split
            · rename_i first hfirst
              have hmem : first ∈ (NodeKind.callExpr callee args).refs :=
                List.mem_cons_of_mem callee (List.mem_of_mem_head? hfirst)
              exact (htypeOf first (hrefs first hmem)).bind fun _ _ => .pure trivial
            · exact .pure trivial
          · exact .pure trivial
    · rename_i operand field hcallee
      have hoperand : inside operand := by
        have hparts := hclosed.refs callee (hrefs callee List.mem_cons_self)
        rw [hcallee] at hparts
        exact hparts operand List.mem_cons_self
      split
      · exact .pure trivial
      · split
        · exact (quiet_recordPackage hoperand _).bind fun _ _ => .pure trivial
        · refine (htypeOf operand hoperand).bind fun receiver _ => ?_
          split
          · exact .pure trivial
          · split
            · exact .pure trivial
            · split
              · split <;> exact .pure trivial
              · exact .pure trivial
    · exact .pure trivial
  · exact .pure trivial

private theorem quiet_computeType {typeOf : Nat → Resolve (Option GoType)}
    (htypeOf : ∀ part, inside part → Quiet inside (fun _ => True) (typeOf part))
    (hid : inside id) : Quiet inside (fun _ => True) (computeType t s typeOf env id) := by
  have hrefs := hclosed.refs id hid
  unfold computeType
  split
  · split
    · exact (quiet_recordPackage hid _).bind fun _ _ => .pure trivial
    · split <;> exact .pure trivial
  · split <;> exact .pure trivial
  · exact .pure trivial
  · rename_i op operand hkind
    rw [hkind] at hrefs
    refine (htypeOf operand (hrefs operand List.mem_cons_self)).bind fun inner _ => ?_
    split
    · exact .pure trivial
    · split <;> exact .pure trivial
    · exact .pure trivial
    · exact .pure trivial
  · exact (quiet_callResults hclosed htypeOf hid).bind fun _ _ => .pure trivial
  · rename_i operand field hkind
    rw [hkind] at hrefs
    split
    · exact .pure trivial
    · refine (htypeOf operand (hrefs operand List.mem_cons_self)).bind fun owner _ => ?_
      split
      · exact .pure trivial
      · split
        · split <;> exact .pure trivial
        · exact .pure trivial
  · split
    · rename_i inner hinner
      exact htypeOf inner (hclosed.children id hid inner (List.mem_of_mem_head? hinner))
    · exact .pure trivial
  · exact .pure trivial

theorem quiet_exprType (s : Scope) (env : Env) (hid : inside id) :
    Quiet inside (fun _ => True) (exprType t s env id) := by
  have hupTo : ∀ depth id, inside id →
      Quiet inside (fun _ => True) (exprTypeUpTo t s env depth id) := by
    intro depth
    induction depth with
    | zero => exact fun _ _ => .pure trivial
    | succ depth ih =>
      intro id hid
      rw [exprTypeUpTo]
      exact quiet_remember hid (quiet_computeType hclosed ih hid)
  exact hupTo (t.size + 1) id hid

theorem quiet_assignedTypes (s : Scope) (env : Env) {values : List Nat}
    (hvalues : ∀ value ∈ values, inside value) (targets : Nat) :
    Quiet inside (fun _ => True) (assignedTypes t s env values targets) := by
  have htype : ∀ id, inside id → Quiet inside (fun _ => True) (exprType t s env id) :=
    fun id hid => quiet_exprType hclosed s env hid
  unfold assignedTypes
  split
  · exact .mapM fun value hvalue => htype value (hvalues value hvalue)
  · split
    · rename_i single _
      have hsingle := hvalues single List.mem_cons_self
      exact (htype single hsingle).bind fun _ _ => quiet_callResults hclosed htype hsingle
    · exact .pure trivial

/-! Bindings inside are hidden. -/

omit hclosed in
private theorem quiet_bind {target : Nat} (htarget : inside target)
    (hhidden : ∀ name, t.ident? target = some name → name ≠ "_" → hidden name)
    (henv : EnvAgree hidden env env') (type : Option GoType) :
    Quiet inside (EnvAgree hidden · env') (bind t env target type) := by
  unfold bind
  split
  · rename_i name type hname
    split
    · exact .pure henv
    · rename_i hblank
      refine (quiet_recordType htarget type).bind fun _ _ => ?_
      refine (quiet_insertKnown htarget (some type)).bind fun _ _ => ?_
      exact .pure (.hide type (hhidden name hname (by simpa using hblank)) henv)
  · exact .pure henv

omit hclosed in
theorem quiet_bindTargets {targets : List Nat} (htargets : ∀ target ∈ targets, inside target)
    (hhidden : ∀ target ∈ targets, ∀ name, t.ident? target = some name → name ≠ "_" → hidden name)
    (henv : EnvAgree hidden env env') (define : Bool) (types : Results) :
    Quiet inside (EnvAgree hidden · env') (bindTargets t env define targets types) := by
  refine Quiet.foldlM (fun p hp env henv => ?_) henv
  have hmem : p.1 ∈ targets := List.fst_mem_of_mem_zipIdx hp
  dsimp only
  split
  · exact quiet_bind (htargets p.1 hmem) (hhidden p.1 hmem) henv _
  · exact .pure henv

theorem quiet_bindSpec (s : Scope) (hid : inside id)
    (hhidden : ∀ names type values, t.kind id = .valueSpec names type values →
      ∀ target ∈ names, ∀ name, t.ident? target = some name → name ≠ "_" → hidden name)
    (henv : EnvAgree hidden env env') :
    Quiet inside (EnvAgree hidden · env') (bindSpec t s env id) := by
  have hrefs := hclosed.refs id hid
  unfold bindSpec
  split
  · rename_i names type values hkind
    rw [hkind] at hrefs
    have hnames : ∀ name ∈ names, inside name := fun name hname =>
      hrefs name (List.mem_append_left _ (List.mem_append_left _ hname))
    have hvalues : ∀ value ∈ values, inside value := fun value hvalue =>
      hrefs value (List.mem_append_right _ hvalue)
    refine (quiet_assignedTypes hclosed s env hvalues names.length).bind fun inferred _ => ?_
    refine Quiet.foldlM (fun p hp env henv => ?_) henv
    have hmem : p.1 ∈ names := List.fst_mem_of_mem_zipIdx hp
    exact quiet_bind (hnames p.1 hmem) (hhidden names type values hkind p.1 hmem) henv _
  · exact .pure henv

theorem quiet_bindFields (s : Scope) {list : Option Nat} (hlist : ∀ l ∈ list, inside l)
    (hhidden : ∀ l ∈ list, ∀ field ∈ t.children l, ∀ names type tag,
      t.kind field = .field names type tag →
        ∀ target ∈ names, ∀ name, t.ident? target = some name → hidden name)
    (henv : EnvAgree hidden env env') :
    Quiet inside (EnvAgree hidden · env') (bindFields t s env list) := by
  cases list with
  | none => exact .pure henv
  | some l =>
    refine Quiet.foldlM (fun field hfield env henv => ?_) henv
    have hinside := hclosed.children l (hlist l rfl) field hfield
    have hrefs := hclosed.refs field hinside
    split
    · rename_i names type tag hkind
      rw [hkind] at hrefs
      split
      · exact .pure henv
      · rename_i found _
        refine Quiet.foldlM (fun target htarget env henv => ?_) henv
        split
        · exact .pure henv
        · rename_i name hname
          have htargetInside := hrefs target (List.mem_append_left _ htarget)
          refine (quiet_recordType htargetInside found).bind fun _ _ => ?_
          exact .pure (.hide found
            (hhidden l rfl field hfield names type tag hkind target htarget name hname) henv)
    · exact .pure henv

end Inside

/-! ### Outside -/

/-- A node outside a scope, where no identifier outside the scope has a hidden name. -/
structure Outside (t : Tree) (scope : Nat) (hidden : String → Prop) (id : Nat) : Prop where
  out : id ∉ t.descendants scope
  clear : ∀ other ∈ t.preorder id, other ∉ t.descendants scope →
    ∀ name, t.ident? other = some name → ¬ hidden name

section Outside

variable {t : Tree} {scope : Nat} {hidden : String → Prop} {s : Scope} {env env' : Env} {id : Nat}

theorem Outside.not_hidden (h : Outside t scope hidden id) {name : String}
    (hname : t.ident? id = some name) : ¬ hidden name :=
  h.clear id (Tree.mem_preorder_of_below .refl) h.out name hname

theorem Outside.child (h : Outside t scope hidden id) (hne : id ≠ scope) {child : Nat}
    (hchild : child ∈ t.children id) : Outside t scope hidden child := by
  refine ⟨Tree.not_mem_descendants_of_mem_children hne h.out hchild, fun other hother => ?_⟩
  rw [Tree.mem_preorder_iff] at hother
  exact h.clear other (Tree.mem_preorder_of_below (hother.head hchild))

variable (hlinked : t.Linked) (hscope : t.IsScope scope)

include hlinked hscope

theorem Outside.ref (h : Outside t scope hidden id) {kind : NodeKind} (hkind : t.kind id = kind)
    (htag : kind.tag ≠ .block ∧ kind.tag ≠ .funcLit) {ref : Nat} (href : ref ∈ kind.refs) :
    Outside t scope hidden ref :=
  h.child (hscope.ne_of_kind hkind htag) ((hlinked id).refs (hkind ▸ href))

theorem typeExpr_hollow (s : Scope) (h : id ∉ t.descendants scope) :
    typeExpr (t.hollow scope) s id = typeExpr t s id := by
  have hupTo : ∀ depth id, id ∉ t.descendants scope →
      typeExprUpTo (t.hollow scope) s depth id = typeExprUpTo t s depth id := by
    intro depth
    induction depth with
    | zero => exact fun _ _ => rfl
    | succ depth ih =>
      intro id h
      have hpart : ∀ kind, t.kind id = kind → kind.tag ≠ .block ∧ kind.tag ≠ .funcLit →
          ∀ ref ∈ kind.refs, ref ∉ t.descendants scope := fun kind hkind htag ref href =>
        hscope.not_mem_of_mem_refs hlinked h hkind htag href
      have hfirst : ∀ word, t.kind id = .other word → ∀ child, (t.children id).head? = some child →
          typeExprUpTo (t.hollow scope) s depth child = typeExprUpTo t s depth child := by
        intro word hkind child hchild
        have hne := hscope.ne_of_kind hkind (by simp [NodeKind.tag])
        exact ih child
          (Tree.not_mem_descendants_of_mem_children hne h (List.mem_of_mem_head? hchild))
      rw [typeExprUpTo, typeExprUpTo, Tree.kind_hollow h, Tree.children_hollow]
      split
      · rfl
      · rename_i operand field hkind
        have hparts := hpart _ hkind (by simp [NodeKind.tag])
        rw [Tree.ident?_hollow (hparts operand List.mem_cons_self),
          Tree.ident?_hollow (hparts field (List.mem_cons_of_mem _ List.mem_cons_self))]
      · rename_i elem hkind
        rw [ih elem (hpart _ hkind (by simp [NodeKind.tag]) elem List.mem_cons_self)]
      · rename_i hkind
        exact Option.bind_congr fun child hchild => by rw [hfirst _ hkind child hchild]
      · rename_i hkind
        exact Option.bind_congr fun child hchild => hfirst _ hkind child hchild
      · rename_i hkind
        exact Option.bind_congr fun child hchild => hfirst _ hkind child hchild
      · rfl
  rw [typeExpr, typeExpr, Tree.size_hollow]
  exact hupTo (t.size + 1) id h

section Expressions

variable {typeOf typeOf' : Nat → Resolve (Option GoType)} (henv : EnvAgree hidden env env')
  (htypeOf : ∀ part, Outside t scope hidden part →
    Alike (· ∈ t.descendants scope) Eq (typeOf part) (typeOf' part))

include henv htypeOf

private theorem alike_callResults (h : Outside t scope hidden id) :
    Alike (· ∈ t.descendants scope) Eq (callResults t s typeOf env id)
      (callResults (t.hollow scope) s typeOf' env' id) := by
  unfold callResults
  rw [Tree.kind_hollow h.out]
  split
  · rename_i callee args hkind
    have hparts : ∀ part ∈ callee :: args, Outside t scope hidden part := fun part hpart =>
      h.ref hlinked hscope hkind (by simp [NodeKind.tag]) hpart
    have hcallee := hparts callee List.mem_cons_self
    rw [Tree.kind_hollow hcallee.out]
    split
    · split
      · exact .pure rfl
      · split
        · exact .pure rfl
        · split
          · have helem : args.head?.bind (typeExpr (t.hollow scope) s) =
                args.head?.bind (typeExpr t s) :=
              Option.bind_congr fun first hfirst => typeExpr_hollow hlinked hscope s
                (hparts first (List.mem_cons_of_mem _ (List.mem_of_mem_head? hfirst))).out
            rw [helem]
            exact .pure rfl
          · exact .pure rfl
          · exact .pure rfl
          · exact .pure rfl
          · split
            · rename_i first hfirst
              have hfirst := hparts first (List.mem_cons_of_mem _ (List.mem_of_mem_head? hfirst))
              exact (htypeOf first hfirst).bind fun type type' heq => .pure (by rw [heq])
            · exact .pure rfl
          · exact .pure rfl
    · rename_i operand field hsel
      have hoperand : Outside t scope hidden operand :=
        hcallee.ref hlinked hscope hsel (by simp [NodeKind.tag]) List.mem_cons_self
      have hfield : Outside t scope hidden field :=
        hcallee.ref hlinked hscope hsel (by simp [NodeKind.tag])
          (List.mem_cons_of_mem _ List.mem_cons_self)
      have himport : (t.ident? operand).bind (s.importOf? env) =
          (t.ident? operand).bind (s.importOf? env') :=
        Option.bind_congr fun name hname => henv.importOf?_eq s (hoperand.not_hidden hname)
      rw [Tree.ident?_hollow hfield.out, Tree.ident?_hollow hoperand.out, himport]
      split
      · exact .pure rfl
      · split
        · exact (alike_recordPackage operand _).bind fun _ _ _ => .pure rfl
        · refine (htypeOf operand hoperand).bind fun receiver receiver' heq => ?_
          subst heq
          split
          · exact .pure rfl
          · split
            · exact .pure rfl
            · split
              · split <;> exact .pure rfl
              · exact .pure rfl
    · exact .pure rfl
  · exact .pure rfl

private theorem alike_computeType (h : Outside t scope hidden id) :
    Alike (· ∈ t.descendants scope) Eq (computeType t s typeOf env id)
      (computeType (t.hollow scope) s typeOf' env' id) := by
  unfold computeType
  rw [Tree.kind_hollow h.out]
  split
  · rename_i name hkind
    have hname : ¬ hidden name := h.not_hidden (Tree.ident?_eq_some_iff.mpr hkind)
    rw [henv.importOf?_eq s hname, henv.getElem?_eq hname]
    split
    · exact (alike_recordPackage id _).bind fun _ _ _ => .pure rfl
    · split <;> exact .pure rfl
  · split <;> exact .pure rfl
  · rename_i type elements hkind
    have htype : type.bind (typeExpr (t.hollow scope) s) = type.bind (typeExpr t s) :=
      Option.bind_congr fun written hwritten => typeExpr_hollow hlinked hscope s
        (h.ref hlinked hscope hkind (by simp [NodeKind.tag])
          (List.mem_append_left _ (Option.mem_toList.mpr hwritten))).out
    rw [htype]
    exact .pure rfl
  · rename_i op operand hkind
    have hoperand : Outside t scope hidden operand :=
      h.ref hlinked hscope hkind (by simp [NodeKind.tag]) List.mem_cons_self
    refine (htypeOf operand hoperand).bind fun inner inner' heq => ?_
    subst heq
    split
    · exact .pure rfl
    · split <;> exact .pure rfl
    · exact .pure rfl
    · exact .pure rfl
  · exact (alike_callResults hlinked hscope henv htypeOf h).bind fun results results' heq =>
      .pure (by rw [heq])
  · rename_i operand field hkind
    have hoperand : Outside t scope hidden operand :=
      h.ref hlinked hscope hkind (by simp [NodeKind.tag]) List.mem_cons_self
    have hfield : Outside t scope hidden field :=
      h.ref hlinked hscope hkind (by simp [NodeKind.tag])
        (List.mem_cons_of_mem _ List.mem_cons_self)
    rw [Tree.ident?_hollow hfield.out]
    split
    · exact .pure rfl
    · refine (htypeOf operand hoperand).bind fun owner owner' heq => ?_
      subst heq
      split
      · exact .pure rfl
      · split
        · split <;> exact .pure rfl
        · exact .pure rfl
  · rename_i hkind
    rw [Tree.children_hollow]
    split
    · rename_i inner hinner
      have hne := hscope.ne_of_kind hkind (by simp [NodeKind.tag])
      exact htypeOf inner (h.child hne (List.mem_of_mem_head? hinner))
    · exact .pure rfl
  · exact .pure rfl

end Expressions

theorem alike_exprType (s : Scope) (henv : EnvAgree hidden env env')
    (h : Outside t scope hidden id) :
    Alike (· ∈ t.descendants scope) Eq (exprType t s env id)
      (exprType (t.hollow scope) s env' id) := by
  have hupTo : ∀ depth id, Outside t scope hidden id →
      Alike (· ∈ t.descendants scope) Eq (exprTypeUpTo t s env depth id)
        (exprTypeUpTo (t.hollow scope) s env' depth id) := by
    intro depth
    induction depth with
    | zero => exact fun _ _ => .pure rfl
    | succ depth ih =>
      intro id h
      rw [exprTypeUpTo, exprTypeUpTo]
      exact alike_remember h.out (alike_computeType hlinked hscope henv ih h)
  rw [exprType, exprType, Tree.size_hollow]
  exact hupTo (t.size + 1) id h

theorem alike_assignedTypes (s : Scope) (henv : EnvAgree hidden env env') {values : List Nat}
    (hvalues : ∀ value ∈ values, Outside t scope hidden value) (targets : Nat) :
    Alike (· ∈ t.descendants scope) Eq (assignedTypes t s env values targets)
      (assignedTypes (t.hollow scope) s env' values targets) := by
  have htype : ∀ id, Outside t scope hidden id → Alike (· ∈ t.descendants scope) Eq
      (exprType t s env id) (exprType (t.hollow scope) s env' id) :=
    fun id h => alike_exprType hlinked hscope s henv h
  unfold assignedTypes
  split
  · exact .mapM fun value hvalue => htype value (hvalues value hvalue)
  · split
    · rename_i single _
      have hsingle := hvalues single List.mem_cons_self
      exact (htype single hsingle).bind fun _ _ _ =>
        alike_callResults hlinked hscope henv htype hsingle
    · exact .pure rfl

/-! Bindings outside are made alike. -/

omit hlinked hscope in
private theorem alike_bind {target : Nat} (h : Outside t scope hidden target)
    (henv : EnvAgree hidden env env') (type : Option GoType) :
    Alike (· ∈ t.descendants scope) (EnvAgree hidden) (bind t env target type)
      (bind (t.hollow scope) env' target type) := by
  unfold bind
  rw [Tree.ident?_hollow h.out]
  split
  · rename_i name type _
    split
    · exact .pure henv
    · refine (alike_recordType target type).bind fun _ _ _ => ?_
      refine (alike_insertKnown target (some type)).bind fun _ _ _ => ?_
      exact .pure (henv.insert name type)
  · exact .pure henv

omit hlinked hscope in
theorem alike_bindTargets {targets : List Nat}
    (htargets : ∀ target ∈ targets, Outside t scope hidden target)
    (henv : EnvAgree hidden env env') (define : Bool) (types : Results) :
    Alike (· ∈ t.descendants scope) (EnvAgree hidden) (bindTargets t env define targets types)
      (bindTargets (t.hollow scope) env' define targets types) := by
  refine Alike.foldlM (fun p hp env env' henv => ?_) henv
  have htarget := htargets p.1 (List.fst_mem_of_mem_zipIdx hp)
  have hnew : (t.ident? p.1).any (fun name => !env.contains name) =
      (t.ident? p.1).any (fun name => !env'.contains name) := by
    cases hname : t.ident? p.1 with
    | none => rfl
    | some name =>
      simp only [Option.any_some, henv.contains_eq (htarget.not_hidden hname)]
  dsimp only
  rw [Tree.ident?_hollow htarget.out, hnew]
  split
  · exact alike_bind htarget henv _
  · exact .pure henv

theorem alike_bindSpec (s : Scope) (h : Outside t scope hidden id)
    (henv : EnvAgree hidden env env') :
    Alike (· ∈ t.descendants scope) (EnvAgree hidden) (bindSpec t s env id)
      (bindSpec (t.hollow scope) s env' id) := by
  unfold bindSpec
  rw [Tree.kind_hollow h.out]
  split
  · rename_i names type values hkind
    have hparts : ∀ part ∈ names ++ type.toList ++ values, Outside t scope hidden part :=
      fun part hpart => h.ref hlinked hscope hkind (by simp [NodeKind.tag]) hpart
    have hdeclared : type.bind (typeExpr (t.hollow scope) s) = type.bind (typeExpr t s) :=
      Option.bind_congr fun written hwritten => typeExpr_hollow hlinked hscope s
        (hparts written (List.mem_append_left _
          (List.mem_append_right _ (Option.mem_toList.mpr hwritten)))).out
    rw [hdeclared]
    refine (alike_assignedTypes hlinked hscope s henv (fun value hvalue =>
      hparts value (List.mem_append_right _ hvalue)) names.length).bind fun types types' heq => ?_
    subst heq
    refine Alike.foldlM (fun p hp env env' henv => ?_) henv
    have hname := hparts p.1 (List.mem_append_left _
      (List.mem_append_left _ (List.fst_mem_of_mem_zipIdx hp)))
    exact alike_bind hname henv _
  · exact .pure henv

theorem alike_bindFields (s : Scope) {list : Option Nat}
    (hlist : ∀ l ∈ list, Outside t scope hidden l ∧ l ≠ scope) (henv : EnvAgree hidden env env') :
    Alike (· ∈ t.descendants scope) (EnvAgree hidden) (bindFields t s env list)
      (bindFields (t.hollow scope) s env' list) := by
  cases list with
  | none => exact .pure henv
  | some l =>
    obtain ⟨houtside, hne⟩ := hlist l rfl
    unfold bindFields
    dsimp only
    rw [Tree.children_hollow]
    refine Alike.foldlM (fun field hfield env env' henv => ?_) henv
    have hfieldOut := houtside.child hne hfield
    rw [Tree.kind_hollow hfieldOut.out]
    split
    · rename_i names type tag hkind
      have hparts : ∀ part ∈ names ++ [type], Outside t scope hidden part :=
        fun part hpart => hfieldOut.ref hlinked hscope hkind (by simp [NodeKind.tag]) hpart
      rw [typeExpr_hollow hlinked hscope s
        (hparts type (List.mem_append_right _ List.mem_cons_self)).out]
      split
      · exact .pure henv
      · rename_i found _
        refine Alike.foldlM (fun target htarget env env' henv => ?_) henv
        rw [Tree.ident?_hollow (hparts target (List.mem_append_left _ htarget)).out]
        split
        · exact .pure henv
        · rename_i name _
          exact (alike_recordType target found).bind fun _ _ _ => .pure (henv.insert name found)
    · exact .pure henv

end Outside

end Go

end Lintel
