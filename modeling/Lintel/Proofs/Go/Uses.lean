import Lintel.Go.Frontend
import Lintel.Proofs.Except
import Lintel.Proofs.Go.Globals

/-!
# Uses of package-level values

A body starts from an empty environment and finds package-level values behind it. A name that
the function does not declare therefore has the type of the value, as long as the environment
has no such name. A plain assignment binds a name that the environment does not have, also if it
is the name of a package-level value, so that from the first of them on the name may have the type
that is assigned. Uses have one of these two types.
-/

namespace Lintel.Go

open Lintel.Text

/-! ### Names that are declared and assigned to -/

/-- The nodes by which a node declares names in a function: its receiver, parameters and
results, those of a literal, the targets of a definition, and the names of a declaration. -/
def declaring (t : Tree) (id : Nat) : List Nat :=
  match t.kind id with
  | .assignStmt targets _ true => targets
  | .valueSpec names _ _ => names
  | .funcDecl parts | .funcLit parts =>
    (parts.receiver.toList ++ parts.params :: parts.results.toList).flatMap (fieldNames t)
  | _ => []

/-- The names that a function declares, at its head or anywhere in it. -/
def localNames (t : Tree) (decl : Nat) : List String :=
  ((t.preorder decl).flatMap (declaring t)).filterMap t.ident?

/-- The targets of a name in the plain assignments below a node. -/
def plainTargets (t : Tree) (start : Nat) (name : String) : List Nat :=
  (t.preorder start).flatMap fun id =>
    match t.kind id with
    | .assignStmt targets _ false => targets.filter (t.ident? · == some name)
    | _ => []

section Names

variable {t : Tree} {decl id target body : Nat} {name : String}

theorem mem_plainTargets_iff : target ∈ plainTargets t body name ↔ ∃ id ∈ t.preorder body,
    ∃ targets values, t.kind id = .assignStmt targets values false ∧ target ∈ targets ∧
      t.ident? target = some name := by
  unfold plainTargets
  rw [List.mem_flatMap]
  refine exists_congr fun id => and_congr_right fun _ => ?_
  split
  · rename_i targets values hkind
    rw [List.mem_filter, beq_iff_eq]
    constructor
    · exact fun h => ⟨targets, values, hkind, h⟩
    · rintro ⟨targets', values', hkind', h⟩
      obtain ⟨rfl, rfl, -⟩ := NodeKind.assignStmt.inj (hkind.symm.trans hkind')
      exact h
  · rename_i hkind
    constructor
    · exact fun h => absurd h List.not_mem_nil
    · rintro ⟨targets, values, hplain, -⟩
      exact absurd hplain (hkind targets values)

private theorem mem_preorder_of_mem_plainTargets (hrefs : ∀ id, (t.kind id).refs ⊆ t.children id)
    (h : target ∈ plainTargets t body name) : target ∈ t.preorder body := by
  obtain ⟨id, hid, targets, values, hkind, hmem, -⟩ := mem_plainTargets_iff.mp h
  refine (closed_preorder hrefs body).refs id hid target ?_
  rw [hkind]
  exact List.mem_append_left _ hmem

/-- A name that is not local is not that of a node that declares one. -/
theorem ident?_ne_of_not_mem_localNames (h : name ∉ localNames t decl) (hid : id ∈ t.preorder decl)
    (htarget : target ∈ declaring t id) : t.ident? target ≠ some name := fun hname =>
  h (List.mem_filterMap.mpr ⟨target, List.mem_flatMap.mpr ⟨id, hid, htarget⟩, hname⟩)

end Names

/-! ### Bodies -/

/-- While a body is walked, every use of a name whose type is known has the type of the
package-level value or the one in the environment, which a plain assignment has put there. -/
structure Follows (t : Tree) (body : Nat) (name : String) (T : GoType) (visited : List Nat)
    (env : Env) (m : Memory) : Prop where
  settled : ∀ use ∈ t.preorder body, t.ident? use = some name → ∀ answer,
    m.known[use]? = some answer → ∃ type, answer = some type ∧ (type = T ∨ env[name]? = some type) ∧
      m.facts.types[use]? = some type
  source : ∀ type, env[name]? = some type →
    ∃ target ∈ plainTargets t body name, m.known[target]? = some (some type)
  reached : ∀ use ∈ visited, t.ident? use = some name → m.known[use]?.isSome

/-- The uses of a package-level name in a body have its type, or all those that have not have the
type of a target of a plain assignment to it. -/
def UsesFollow (t : Tree) (body : Nat) (name : String) (T : GoType) (facts : FactTable) : Prop :=
  ∃ other, (other = T ∨ ∃ target ∈ plainTargets t body name, facts.typeOf? target = some other) ∧
    ∀ use ∈ t.preorder body, t.ident? use = some name →
      facts.typeOf? use = some T ∨ facts.typeOf? use = some other

section Bodies

variable {t : Tree} {s : Scope} {body : Nat} {name : String} {T : GoType} {visited : List Nat}
  {env : Env} {m : Memory} {node target : Nat}

private theorem contains_eq_false_iff {env : Env} {name : String} :
    env.contains name = false ↔ env[name]? = none := by
  rw [Std.TreeMap.contains_eq_isSome_getElem?, Option.isSome_eq_false_iff, Option.isNone_iff_eq_none]

namespace Follows

theorem learn_of_ne (h : Follows t body name T visited env m) (hnode : t.ident? node ≠ some name)
    (answer : Option GoType) : Follows t body name T visited env (m.learn node answer) := by
  have hne : ∀ use, t.ident? use = some name → node ≠ use := by
    rintro use huse rfl
    exact hnode huse
  constructor
  · intro use huse hname
    rw [getElem?_known_learn, getElem?_types_learn, if_neg (hne use hname), if_neg (hne use hname)]
    exact h.settled use huse hname
  · intro type htype
    obtain ⟨target, htarget, hknown⟩ := h.source type htype
    obtain ⟨-, -, -, -, -, -, hname⟩ := mem_plainTargets_iff.mp htarget
    exact ⟨target, htarget, by rw [getElem?_known_learn, if_neg (hne target hname), hknown]⟩
  · intro use huse hname
    rw [getElem?_known_learn, if_neg (hne use hname)]
    exact h.reached use huse hname

private theorem recordType_of_ne (h : Follows t body name T visited env m)
    (hnode : t.ident? node ≠ some name) (type : GoType) :
    Follows t body name T visited env { m with facts := m.facts.recordType node type } := by
  refine ⟨fun use huse hname answer hknown => ?_, h.source, h.reached⟩
  obtain ⟨found, hanswer, hfound, hrecorded⟩ := h.settled use huse hname answer hknown
  have hne : node ≠ use := by
    rintro rfl
    exact hnode hname
  refine ⟨found, hanswer, hfound, ?_⟩
  rw [← hrecorded]
  exact Std.TreeMap.getElem?_insert.trans (if_neg (by simpa using hne))

private theorem insert_of_ne (h : Follows t body name T visited env m) {word : String}
    (hword : word ≠ name)
    (type : GoType) : Follows t body name T visited (env.insert word type) m := by
  have hsame : (env.insert word type)[name]? = env[name]? := by
    rw [Std.TreeMap.getElem?_insert, if_neg (by simpa using hword)]
  exact ⟨hsame ▸ h.settled, hsame ▸ h.source, h.reached⟩

/-- The first binding of the name comes from a plain assignment. -/
theorem insert_self (h : Follows t body name T visited env m) (henv : env[name]? = none)
    (htarget : target ∈ plainTargets t body name) (type : GoType) :
    Follows t body name T visited (env.insert name type) (m.learn target (some type)) := by
  constructor
  · intro use huse hname answer hknown
    rw [getElem?_known_learn] at hknown
    rw [getElem?_types_learn, Std.TreeMap.getElem?_insert_self]
    split at hknown
    · rename_i heq
      rw [if_pos heq, Option.some_or]
      exact ⟨type, (Option.some.inj hknown).symm, .inr rfl, rfl⟩
    · rename_i hne
      obtain ⟨found, hanswer, hfound, hrecorded⟩ := h.settled use huse hname answer hknown
      rw [if_neg hne, henv] at *
      exact ⟨found, hanswer, .inl (hfound.resolve_right (by simp)), hrecorded⟩
  · intro found hfound
    rw [Std.TreeMap.getElem?_insert_self] at hfound
    exact ⟨target, htarget, by rw [getElem?_known_learn, if_pos rfl, hfound]⟩
  · intro use huse hname
    rw [getElem?_known_learn]
    split
    · rfl
    · exact h.reached use huse hname

theorem visit (h : Follows t body name T visited env m)
    (hnode : t.ident? node = some name → m.known[node]?.isSome) :
    Follows t body name T (visited ++ [node]) env m := by
  refine ⟨h.settled, h.source, fun use huse hname => ?_⟩
  rcases List.mem_append.mp huse with huse | huse
  · exact h.reached use huse hname
  · obtain rfl := List.mem_singleton.mp huse
    exact hnode hname

end Follows

section Walk

variable (hglobal : s.globals[name]? = some T) (hword : name ≠ "true" ∧ name ≠ "false")

include hglobal hword

private theorem identType_of_global (env : Env) :
    identType s env name = some (env[name]?.getD T) := by
  have hcontains : s.globals.contains name = true := by
    rw [Std.TreeMap.contains_eq_isSome_getElem?, hglobal, Option.isSome_some]
  unfold identType Scope.importOf?
  rw [hcontains, hglobal]
  cases env[name]? <;> simp [hword]

private theorem follows_kept : Kept t s env (Follows t body name T visited env) := by
  refine ⟨fun m _ _ hm => ⟨hm.settled, hm.source, hm.reached⟩, fun m node answer hm hnode => ?_⟩
  by_cases hname : t.ident? node = some name
  · obtain ⟨hunknown, rfl⟩ := hnode name hname
    rw [identType_of_global hglobal hword]
    constructor
    · intro use huse huseName answer hknown
      rw [getElem?_known_learn] at hknown
      rw [getElem?_types_learn]
      split at hknown
      · rename_i heq
        rw [if_pos heq, Option.some_or]
        refine ⟨_, (Option.some.inj hknown).symm, ?_, rfl⟩
        cases env[name]? with
        | none => exact .inl rfl
        | some type => exact .inr rfl
      · rename_i hne
        rw [if_neg hne]
        exact hm.settled use huse huseName answer hknown
    · intro type htype
      obtain ⟨target, htarget, hknown⟩ := hm.source type htype
      have hne : node ≠ target := by
        rintro rfl
        rw [hunknown] at hknown
        cases hknown
      exact ⟨target, htarget, by rw [getElem?_known_learn, if_neg hne, hknown]⟩
    · intro use huse huseName
      rw [getElem?_known_learn]
      split
      · rfl
      · exact hm.reached use huse huseName
  · exact hm.learn_of_ne hname answer

omit hglobal hword in
/-- A binding of the name is the first one and comes from a plain assignment. -/
theorem bind_follows (hplain : t.ident? target = some name →
      env[name]? = none ∧ target ∈ plainTargets t body name) (type : Option GoType) :
    Leads (Follows t body name T visited env) (bind t env target type)
      (Follows t body name T visited) := by
  refine leads_bind type (fun _ hm => hm) fun word found hwordName m hm => ?_
  by_cases heq : word = name
  · subst heq
    obtain ⟨henv, htarget⟩ := hplain hwordName
    exact hm.insert_self henv htarget found
  · have hne : t.ident? target ≠ some name := by simpa [hwordName] using heq
    exact (hm.learn_of_ne hne (some found)).insert_of_ne heq found

omit hglobal hword in
private theorem bindFields_follows {list : Option Nat}
    (hlist : ∀ l ∈ list, ∀ target ∈ fieldNames t l, t.ident? target ≠ some name) :
    Leads (Follows t body name T visited env) (bindFields t s env list)
      (Follows t body name T visited) := by
  refine leads_bindFields fun l hl target htarget word hwordName found env m hm => ?_
  have hne := hlist l hl target htarget
  have hwordNe : word ≠ name := by
    rintro rfl
    exact hne hwordName
  exact (hm.recordType_of_ne hne found).insert_of_ne hwordNe found

variable (hlocal : ∀ target ∈ declaring t node, t.ident? target ≠ some name)

include hlocal

/-- A statement in a function that does not declare the name. -/
theorem resolveStatement_follows (hnode : node ∈ t.preorder body) :
    Leads (Follows t body name T visited env) (resolveStatement t s env node)
      (Follows t body name T (visited ++ [node])) := by
  have hkept : ∀ visited env, Kept t s env (Follows t body name T visited env) := fun _ _ =>
    follows_kept hglobal hword
  have hvisit : (∀ word, t.kind node ≠ .ident word) → ∀ env m,
      Follows t body name T visited env m → Follows t body name T (visited ++ [node]) env m := by
    intro hkind env m hm
    exact hm.visit fun hname => absurd (Tree.ident?_eq_some_iff.mp hname) (hkind name)
  unfold resolveStatement
  split
  · rename_i targets values define hkind
    refine ((hkept visited env).leads_assignedTypes values targets.length).bind fun types => ?_
    refine (Leads.foldlM (I := fun _ env => Follows t body name T visited env)
      (fun before p after hsplit env => ?_) env).mono (hvisit (by simp [hkind]))
    have hmem : p.1 ∈ targets := List.fst_mem_of_mem_zipIdx (by
      rw [hsplit]
      exact List.mem_append_right before List.mem_cons_self)
    dsimp only
    split
    · rename_i hbinds
      refine bind_follows (fun hname => ?_) _
      cases define with
      | true => exact absurd hname (hlocal p.1 (by rw [declaring, hkind]; exact hmem))
      | false =>
        rw [hname, Bool.false_or, Option.any_some, Bool.not_eq_true'] at hbinds
        refine ⟨contains_eq_false_iff.mp hbinds, ?_⟩
        exact mem_plainTargets_iff.mpr ⟨node, hnode, targets, values, hkind, hmem, hname⟩
    · exact .pure fun _ hm => hm
  · rename_i names type values hkind
    unfold bindSpec
    rw [hkind]
    refine ((hkept visited env).leads_assignedTypes values names.length).bind fun types => ?_
    refine (Leads.foldlM (I := fun _ env => Follows t body name T visited env)
      (fun before p after hsplit env => ?_) env).mono (hvisit (by simp [hkind]))
    have hmem : p.1 ∈ names := List.fst_mem_of_mem_zipIdx (by
      rw [hsplit]
      exact List.mem_append_right before List.mem_cons_self)
    exact bind_follows (fun hname =>
      absurd hname (hlocal p.1 (by rw [declaring, hkind]; exact hmem))) _
  · rename_i parts hkind
    have hlists : ∀ l ∈ parts.receiver.toList ++ parts.params :: parts.results.toList,
        ∀ target ∈ fieldNames t l, t.ident? target ≠ some name := fun l hl target htarget =>
      hlocal target (by rw [declaring, hkind]; exact List.mem_flatMap.mpr ⟨l, hl, htarget⟩)
    refine (bindFields_follows fun l hl => hlists l ?_).bind fun env =>
      (bindFields_follows fun l hl => hlists l ?_).mono (hvisit (by simp [hkind]))
    · simp [← Option.some.inj hl]
    · simp [Option.mem_def.mp hl]
  · refine (leads_exprType (hkept visited env) node).bind fun _ => .pure fun m hm => ?_
    exact hm.1.visit fun _ => hm.2

end Walk

section Function

variable {decl : Nat} {parts : FuncParts} (hrefs : ∀ id, (t.kind id).refs ⊆ t.children id)
  (hkind : t.kind decl = .funcDecl parts) (hbody : parts.body = some body)

include hrefs

include hkind hbody in
private theorem preorder_body_subset : t.preorder body ⊆ t.preorder decl := by
  have hchild : body ∈ t.children decl := hrefs decl (by
    rw [hkind]
    simp [NodeKind.refs, FuncParts.refs, hbody])
  intro id hid
  exact Tree.mem_preorder_iff.mpr ((Tree.mem_preorder_iff.mp hid).head hchild)

/-- When a body has been walked, all uses in it have been seen. -/
theorem Follows.usesFollow (h : Follows t body name T (t.preorder body) env m) :
    UsesFollow t body name T m.facts := by
  refine ⟨env[name]?.getD T, ?_, fun use huse hname => ?_⟩
  · cases henv : env[name]? with
    | none => exact .inl rfl
    | some type =>
      obtain ⟨target, htarget, hknown⟩ := h.source type henv
      obtain ⟨-, -, -, -, -, -, hname⟩ := mem_plainTargets_iff.mp htarget
      obtain ⟨found, hanswer, -, hrecorded⟩ :=
        h.settled target (mem_preorder_of_mem_plainTargets hrefs htarget) hname _ hknown
      obtain rfl := Option.some.inj hanswer
      exact .inr ⟨target, htarget, hrecorded⟩
  · obtain ⟨answer, hknown⟩ := Option.isSome_iff_exists.mp (h.reached use huse hname)
    obtain ⟨type, -, hfound, hrecorded⟩ := h.settled use huse hname answer hknown
    rcases hfound with rfl | henv
    · exact .inl hrecorded
    · exact .inr (by rw [henv, FactTable.typeOf?, hrecorded]; rfl)

include hkind hbody in
/-- A function that does not declare the name, with a body in which nothing is known yet. -/
theorem resolveFunction_usesFollow (hglobal : s.globals[name]? = some T)
    (hword : name ≠ "true" ∧ name ≠ "false") (hlocal : name ∉ localNames t decl) :
    Leads (fun m => ∀ use ∈ t.preorder body, m.known[use]? = none) (resolveFunction t s decl)
      fun _ m => UsesFollow t body name T m.facts := by
  have hfields : ∀ l ∈ parts.receiver.toList ++ parts.params :: parts.results.toList,
      ∀ target ∈ fieldNames t l, t.ident? target ≠ some name := by
    intro l hl target htarget
    refine ident?_ne_of_not_mem_localNames hlocal (Tree.mem_preorder_of_below .refl) ?_
    rw [declaring, hkind]
    exact List.mem_flatMap.mpr ⟨l, hl, htarget⟩
  have hlist : ∀ list : Option Nat,
      (∀ l ∈ list, l ∈ parts.receiver.toList ++ parts.params :: parts.results.toList) → ∀ env,
      Leads (Follows t body name T [] env) (bindFields t s env list) (Follows t body name T []) :=
    fun list hsub env => bindFields_follows fun l hl => hfields l (hsub l hl)
  have hwalk : ∀ env, Leads (Follows t body name T [] env) (walkAll t (resolveStatement t s) env body)
      (Follows t body name T (t.preorder body)) := by
    intro env
    rw [walkAll_eq_foldlM]
    refine Leads.foldlM (I := Follows t body name T) (fun before node after hsplit env => ?_) env
    have hnode : node ∈ t.preorder body := by
      rw [hsplit]
      exact List.mem_append_right before List.mem_cons_self
    refine resolveStatement_follows hglobal hword (fun target htarget => ?_) hnode
    exact ident?_ne_of_not_mem_localNames hlocal (preorder_body_subset hrefs hkind hbody hnode)
      htarget
  have hstart : ∀ m : Memory, (∀ use ∈ t.preorder body, m.known[use]? = none) →
      Follows t body name T [] ∅ m := by
    intro m hm
    refine ⟨fun use huse _ answer hknown => ?_, fun type htype => ?_, fun use huse => ?_⟩
    · rw [hm use huse] at hknown
      cases hknown
    · simp at htype
    · cases huse
  unfold resolveFunction
  rw [hkind]
  dsimp only
  refine ((hlist parts.receiver (fun l hl => ?_) ∅).weaken hstart).bind fun env => ?_
  · simp [Option.mem_def.mp hl]
  refine (hlist (some parts.params) (fun l hl => ?_) env).bind fun env => ?_
  · simp [← Option.some.inj hl]
  refine (hlist parts.results (fun l hl => ?_) env).bind fun env => ?_
  · simp [Option.mem_def.mp hl]
  rw [hbody]
  exact (hwalk env).bind fun _ => .pure fun _ hm => hm.usesFollow hrefs

end Function

end Bodies

/-! ### Files -/

section Files

variable {t : Tree} {s : Scope} {decl other body : Nat} {parts : FuncParts} {name : String}
  {T : GoType} {m m' : Memory} {inside : Nat → Prop}

theorem Told.of_agree {env : Env} (h : Told t name env m') (hagree : AgreeOutside inside m m')
    (hout : ∀ value ∈ packageNames t, ¬ inside value) : Told t name env m := by
  constructor
  · intro type htype
    obtain ⟨value, hvalue, hname, hrecorded, hknown⟩ := h.source type htype
    refine ⟨value, hvalue, hname, ?_, ?_⟩
    · rw [hagree.types value (hout value hvalue), hrecorded]
    · rw [hagree.known value (hout value hvalue), hknown]
  · intro henv value hvalue hname
    rw [hagree.types value (hout value hvalue), h.bare henv value hvalue hname]

variable (hrefs : ∀ id, (t.kind id).refs ⊆ t.children id)

include hrefs

theorem UsesFollow.of_agree (h : UsesFollow t body name T m'.facts) (hagree : AgreeOutside inside m m')
    (hout : ∀ id ∈ t.preorder body, ¬ inside id) : UsesFollow t body name T m.facts := by
  have hsame : ∀ id ∈ t.preorder body, m.facts.typeOf? id = m'.facts.typeOf? id := fun id hid =>
    hagree.types id (hout id hid)
  obtain ⟨other, hother, huses⟩ := h
  refine ⟨other, hother.imp_right ?_, fun use huse hname => ?_⟩
  · rintro ⟨target, htarget, htype⟩
    exact ⟨target, htarget, (hsame target (mem_preorder_of_mem_plainTargets hrefs htarget)).trans htype⟩
  · rw [hsame use huse]
    exact huses use huse hname

/-- No package-level value is named in a function. -/
theorem not_mem_preorder_of_mem_packageNames (hdecl : decl ∈ t.children t.root)
    (hkind : t.kind decl = .funcDecl parts) : ∀ value ∈ packageNames t, value ∉ t.preorder decl := by
  intro value hvalue
  obtain ⟨other, hother, hmem⟩ := List.mem_flatMap.mp hvalue
  obtain ⟨hotherKind, spec, hspec, names, type, values, hspecKind, hname⟩ :=
    exists_spec_of_mem_valueNames hmem
  have hchild : value ∈ t.children spec := hrefs spec (by
    rw [hspecKind]
    exact List.mem_append_left _ (List.mem_append_left _ hname))
  have hbelow : value ∈ t.preorder other :=
    Tree.mem_preorder_of_below (.tail (.single hspec) hchild)
  refine Tree.not_mem_preorder_of_ne hother hdecl ?_ hbelow
  rintro rfl
  rcases hotherKind with hotherKind | hotherKind <;> rw [hkind] at hotherKind <;> cases hotherKind

private theorem resolveFunction_told {env : Env} (hdecl : decl ∈ t.children t.root) :
    Leads (Told t name env) (resolveFunction t s decl) fun _ => Told t name env := by
  by_cases hfunc : ∃ parts, t.kind decl = .funcDecl parts
  · obtain ⟨parts, hkind⟩ := hfunc
    refine ((quiet_resolveFunction (closed_preorder hrefs decl) s
      (Tree.mem_preorder_of_below .refl)).leads fun m m' hagree hm => ?_).mono fun _ _ hm => hm.2
    exact hm.of_agree hagree (not_mem_preorder_of_mem_packageNames hrefs hdecl hkind)
  · unfold resolveFunction
    split
    · exact absurd ⟨_, ‹_›⟩ hfunc
    · exact .pure fun _ hm => hm

/-- Values do not touch functions. -/
theorem readValues_known (hdecl : decl ∈ t.children t.root) (hkind : t.kind decl = .funcDecl parts)
    (hother : other ∈ t.children t.root) :
    Leads (fun m => ∀ id ∈ t.preorder decl, m.known[id]? = none) (readValues t s other)
      fun _ m => ∀ id ∈ t.preorder decl, m.known[id]? = none := by
  by_cases heq : decl = other
  · subst heq
    unfold readValues
    rw [hkind]
    exact .pure fun _ hm => hm
  · refine ((quiet_readValues (closed_preorder hrefs other) s
      (Tree.mem_preorder_of_below .refl)).leads fun m m' hagree hm id hid => ?_).mono
        fun _ _ hm => hm.2
    rw [hagree.known id (Tree.not_mem_preorder_of_ne hdecl hother heq hid), hm id hid]

/-- What is known after the functions of a file: package-level values as before, and in the
function what its uses of one of them are. -/
theorem resolveFunctions_leads (hword : name ≠ "true" ∧ name ≠ "false")
    (hdecl : decl ∈ t.children t.root) (hkind : t.kind decl = .funcDecl parts)
    (hbody : parts.body = some body) (hlocal : name ∉ localNames t decl) :
    Leads (fun m => Told t name s.globals m ∧ ∀ id ∈ t.preorder decl, m.known[id]? = none)
      ((t.children t.root).forM (resolveFunction t s)) fun _ m => Told t name s.globals m ∧
        ∀ T, s.globals[name]? = some T → UsesFollow t body name T m.facts := by
  refine Leads.and (Leads.forM fun other hother => resolveFunction_told hrefs hother) ?_
  have hinside := preorder_body_subset hrefs hkind hbody
  have hapart : ∀ other ∈ t.children t.root, decl ≠ other → ∀ id ∈ t.preorder decl,
      id ∉ t.preorder other := fun other hother hne id hid =>
    Tree.not_mem_preorder_of_ne hdecl hother hne hid
  have hquiet : ∀ other, Quiet (· ∈ t.preorder other) (fun _ => True) (resolveFunction t s other) :=
    fun other => quiet_resolveFunction (closed_preorder hrefs other) s
      (Tree.mem_preorder_of_below .refl)
  obtain ⟨before, after, hsplit⟩ := List.append_of_mem hdecl
  have hnodup := t.nodup_children t.root
  rw [hsplit] at hnodup hapart ⊢
  obtain ⟨-, hafter, hbefore⟩ := List.nodup_append.mp hnodup
  have hforM : (before ++ decl :: after).forM (resolveFunction t s) = (do
      before.forM (resolveFunction t s)
      resolveFunction t s decl
      after.forM (resolveFunction t s)) := List.forM_append
  rw [hforM]
  refine Leads.bind (Leads.forM fun other hother => ?_) fun _ =>
    Leads.bind (Q := fun _ m => ∀ T, s.globals[name]? = some T → UsesFollow t body name T m.facts)
      (fun m hm T hglobal => ?_) fun _ => Leads.forM fun other hother => ?_
  · have hne : decl ≠ other := fun heq =>
      hbefore other hother decl List.mem_cons_self heq.symm
    refine ((hquiet other).leads fun m m' hagree hm id hid => ?_).mono fun _ _ hm => hm.2
    rw [hagree.known id (hapart other (List.mem_append_left _ hother) hne id hid), hm id hid]
  · exact resolveFunction_usesFollow hrefs hkind hbody hglobal hword hlocal m
      fun use huse => hm use (hinside huse)
  · have hne : decl ≠ other := fun heq => (List.nodup_cons.mp hafter).1 (heq ▸ hother)
    refine ((hquiet other).leads fun m m' hagree hm T hglobal => ?_).mono fun _ _ hm => hm.2
    refine (hm T hglobal).of_agree hrefs hagree fun id hid => ?_
    exact hapart other (List.mem_append_right _ (List.mem_cons_of_mem _ hother)) hne id (hinside hid)

private theorem resolveFile_usesFollow (package : Option String)
    (hword : name ≠ "true" ∧ name ≠ "false")
    (hdecl : decl ∈ t.children t.root) (hkind : t.kind decl = .funcDecl parts)
    (hbody : parts.body = some body) (hlocal : name ∉ localNames t decl) :
    Leads (Fresh t) (resolveFile t package) fun _ m => ∃ globals, Told t name globals m ∧
      ∀ T, globals[name]? = some T → UsesFollow t body name T m.facts := by
  have hnames : Leads (Fresh t) ((t.children t.root).foldlM (readNames t) (Scope.empty package))
      fun s m => s.globals = ∅ ∧ Fresh t m :=
    leads_foldlM_scopes (readNames_fresh hrefs) (Scope.empty package)
  have hshapes : ∀ s : Scope, Leads (fun m => s.globals = ∅ ∧ Fresh t m)
      ((t.children t.root).foldlM (readShapes t) s) fun s' m => s'.globals = ∅ ∧ Fresh t m := by
    intro s m hm
    have hscopes : Leads (Fresh t) ((t.children t.root).foldlM (readShapes t) s) fun s' m =>
        s'.globals = s.globals ∧ Fresh t m := leads_foldlM_scopes (readShapes_fresh hrefs) s
    obtain ⟨hglobals, hfresh⟩ := hscopes m hm.2
    exact ⟨hglobals.trans hm.1, hfresh⟩
  have hvalues : ∀ s : Scope, Leads (fun m => s.globals = ∅ ∧ Fresh t m)
      ((t.children t.root).foldlM (readValues t) s) fun s' m =>
        Told t name s'.globals m ∧ ∀ id ∈ t.preorder decl, m.known[id]? = none := by
    intro s
    refine (Leads.foldlM (I := fun _ (s' : Scope) m =>
      Told t name s'.globals m ∧ ∀ id ∈ t.preorder decl, m.known[id]? = none)
      (fun before other after hsplit s' => ?_) s).weaken fun m hm =>
        ⟨hm.1 ▸ hm.2.told name, fun id _ => hm.2.known id⟩
    have hother : other ∈ t.children t.root := by
      rw [hsplit]
      exact List.mem_append_right before List.mem_cons_self
    exact (readValues_told hword s' hother).and (readValues_known hrefs hdecl hkind hother)
  unfold resolveFile
  refine hnames.bind fun s => (hshapes s).bind fun s => (hvalues s).bind fun s => ?_
  exact (resolveFunctions_leads hrefs hword hdecl hkind hbody hlocal).mono fun _ _ hm =>
    ⟨s.globals, hm⟩

omit hrefs in
private theorem fresh_start (t : Tree) (package : Option String)
    (siblings : List (String × Method)) :
    Fresh t ⟨siblings.foldl (fun facts (base, method) =>
      facts.recordMethod (.named package base) method)
        { FactTable.empty with unitPackage := package }, ∅⟩ := by
  refine ⟨fun _ => Std.TreeMap.getElem?_emptyc, fun value _ => ?_⟩
  rw [FactTable.types_foldl_recordMethod]
  exact Std.TreeMap.getElem?_emptyc

end Files

/-- In a function that does not declare the name of a package-level value, uses of it have the
type of the value or the one that a plain assignment has first given to it there. So they have the
type of the value if all such assignments give it this type, which includes that there is none. -/
theorem resolve_uses_of_package_value {read : String → Option Concrete} {file : SourceFile}
    {t : Tree} (hread : parseWith read file = .ok t) (package : Option String)
    (siblings : List (String × Method)) {decl body value : Nat} {parts : FuncParts} {name : String}
    {T : GoType} (hdecl : decl ∈ t.children t.root) (hkind : t.kind decl = .funcDecl parts)
    (hbody : parts.body = some body) (hvalue : value ∈ packageNames t)
    (hname : t.ident? value = some name)
    (htype : (resolve t package siblings).typeOf? value = some T)
    (hsame : ∀ other ∈ packageNames t, t.ident? other = some name →
      ∀ type, (resolve t package siblings).typeOf? other = some type → type = T)
    (hword : name ≠ "true" ∧ name ≠ "false") (hlocal : name ∉ localNames t decl) :
    UsesFollow t body name T (resolve t package siblings) ∧
      ((∀ target ∈ plainTargets t body name,
          (resolve t package siblings).typeOf? target = some T) →
        ∀ use ∈ t.preorder body, t.ident? use = some name →
          (resolve t package siblings).typeOf? use = some T) := by
  have hrefs := refs_subset_children_of_parseWith hread
  have hleads := resolveFile_usesFollow hrefs package hword hdecl hkind hbody hlocal
  obtain ⟨globals, htold, huses⟩ := hleads _ (fresh_start t package siblings)
  have hfollow : UsesFollow t body name T (resolve t package siblings) := by
    cases hglobal : globals[name]? with
    | none =>
      have hnone := htold.bare hglobal value hvalue hname
      exact absurd (hnone.symm.trans htype) (by simp)
    | some found =>
      obtain ⟨other, hother, hotherName, hrecorded, -⟩ := htold.source found hglobal
      obtain rfl := hsame other hother hotherName found hrecorded
      exact huses found hglobal
  refine ⟨hfollow, fun hplain use huse huseName => ?_⟩
  obtain ⟨other, hother, hall⟩ := hfollow
  have heq : other = T := by
    rcases hother with heq | ⟨target, htarget, htargetType⟩
    · exact heq
    · exact Option.some.inj (htargetType.symm.trans (hplain target htarget))
  subst heq
  exact or_self_iff.mp (hall use huse huseName)

/-- A file with a package-level variable and a function that assigns to it and returns it. -/
def limitAssigned (value : String) : SourceFile :=
  .ofText "a.go" ("package a\n\nvar limit int64\n\nfunc f(next int64) int64 \x7b\n\tlimit = " ++
    value ++ "\n\treturn limit\n\x7d\n") ""

/-- What is assigned has the type of the variable. -/
theorem resolve_uses_limitAssigned :
    ∃ t parts, parse (limitAssigned "next") = .ok t ∧ 20 ∈ t.children t.root ∧
      t.kind 20 = .funcDecl parts ∧ parts.body = some 17 ∧ 2 ∈ packageNames t ∧
      t.ident? 2 = some "limit" ∧ "limit" ∉ localNames t 20 ∧
      (resolve t (some "example.com/a") []).typeOf? 2 = some (.basic "int64") ∧
      plainTargets t 17 "limit" = [12] ∧
      (resolve t (some "example.com/a") []).typeOf? 15 = some (.basic "int64") := by
  have hread : (parse (limitAssigned "next")).toOption.map (fun t =>
      ((t.kind 20).funcParts?, decide (t.tag 20 = .funcDecl ∧ 20 ∈ t.children t.root ∧
        packageNames t = [2] ∧ t.ident? 2 = some "limit" ∧ "limit" ∉ localNames t 20 ∧
        (resolve t (some "example.com/a") []).typeOf? 2 = some (.basic "int64") ∧
        plainTargets t 17 "limit" = [12] ∧
        (resolve t (some "example.com/a") []).typeOf? 12 = some (.basic "int64") ∧
        15 ∈ t.preorder 17 ∧ t.ident? 15 = some "limit"))) =
      some (some ⟨some 6, none, 10, some 19, some 17⟩, true) := by decide +kernel
  obtain ⟨t, hok, hboth⟩ := Option.map_eq_some_iff.mp hread
  obtain ⟨hparts, hdecide⟩ := Prod.mk.inj hboth
  obtain ⟨htag, hdecl, hvalues, hname, hlocal, htype, hplain, htarget, huse, huseName⟩ :=
    of_decide_eq_true hdecide
  have hkind : t.kind 20 = .funcDecl ⟨some 6, none, 10, some 19, some 17⟩ := by
    unfold Tree.tag at htag
    cases hkind : t.kind 20 with
    | funcDecl parts =>
      rw [hkind] at hparts
      exact congrArg NodeKind.funcDecl (Option.some.inj hparts)
    | _ =>
      rw [hkind] at htag
      cases htag
  have hok := toOption_eq_some_iff.mp hok
  refine ⟨t, _, hok, hdecl, hkind, rfl, by simp [hvalues], hname, hlocal, htype, hplain, ?_⟩
  refine (resolve_uses_of_package_value hok (some "example.com/a") [] hdecl hkind rfl
    (by rw [hvalues]; exact List.mem_cons_self) hname htype (fun other hother _ type hotherType => ?_)
    (by decide) hlocal).2 (fun target htargetMem => ?_) 15 huse huseName
  · rw [hvalues, List.mem_singleton] at hother
    rw [hother, htype] at hotherType
    exact (Option.some.inj hotherType).symm
  · rw [hplain, List.mem_singleton] at htargetMem
    rw [htargetMem, htarget]

/-- Assigned a constant, the variable has the type of the constant where it is returned. -/
theorem resolve_limitAssigned_constant :
    ∃ t, parse (limitAssigned "5") = .ok t ∧ 20 ∈ t.children t.root ∧ t.tag 20 = .funcDecl ∧
      packageNames t = [2] ∧ t.ident? 2 = some "limit" ∧ "limit" ∉ localNames t 20 ∧
      (resolve t (some "example.com/a") []).typeOf? 2 = some (.basic "int64") ∧
      17 ∈ t.children 20 ∧ 15 ∈ t.preorder 17 ∧ t.ident? 15 = some "limit" ∧
      (resolve t (some "example.com/a") []).typeOf? 15 = some (.basic "int") := by
  have hread : (parse (limitAssigned "5")).toOption.map (fun t =>
      decide (20 ∈ t.children t.root ∧ t.tag 20 = .funcDecl ∧
        packageNames t = [2] ∧ t.ident? 2 = some "limit" ∧ "limit" ∉ localNames t 20 ∧
        (resolve t (some "example.com/a") []).typeOf? 2 = some (.basic "int64") ∧
        17 ∈ t.children 20 ∧ 15 ∈ t.preorder 17 ∧ t.ident? 15 = some "limit" ∧
        (resolve t (some "example.com/a") []).typeOf? 15 = some (.basic "int"))) =
      some true := by decide +kernel
  obtain ⟨t, hok, hdecide⟩ := Option.map_eq_some_iff.mp hread
  exact ⟨t, toOption_eq_some_iff.mp hok, of_decide_eq_true hdecide⟩

end Lintel.Go
