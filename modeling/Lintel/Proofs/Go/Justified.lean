import Lintel.Go.Frontend
import Lintel.Proofs.Except
import Lintel.Proofs.Go.Reading

/-!
# Types that are justified by the parts

An answer about an expression is made from the answers about its parts, under the environment of
the moment, and stays. Later bindings give types to names only, and a name that is bound is no
part of an expression that was typed. So at the end the type of every compound expression is the
one that the types of its parts make.
-/

namespace Lintel.Go

open Lintel.Text

/-! ### Types by parts -/

def litType : LitKind → GoType
  | .int => .basic "int"
  | .float => .basic "float64"
  | .imaginary => .basic "complex128"
  | .rune => .basic "rune"
  | .string | .rawString => .basic "string"

def unaryType (op : String) (inner : Option GoType) : Option GoType :=
  match op with
  | "&" => inner.map .pointer
  | "*" =>
    match inner with
    | some (.pointer elem) => some elem
    | _ => none
  | "!" => some (.basic "bool")
  | _ => inner

def Scope.memberType (s : Scope) (owner : GoType) (member : String) : Option GoType :=
  match owner.stripPointers with
  | .named package name =>
    if package == s.package then (s.structFields.getD name ∅)[member]? else none
  | _ => none

/-- An answer about an expression is the one that the answers about its parts make. Identifiers
and calls are not told by parts alone. -/
def Explained (t : Tree) (s : Scope) (known : Nat → Option (Option GoType)) (id : Nat)
    (answer : Option GoType) : Prop :=
  match t.kind id with
  | .ident _ | .callExpr _ _ => True
  | .basicLit kind _ => answer = some (litType kind)
  | .compositeLit type _ => answer = type.bind (typeExpr t s)
  | .unaryExpr op operand => ∃ inner, known operand = some inner ∧ answer = unaryType op inner
  | .selectorExpr operand field =>
    match t.ident? field with
    | none => answer = none
    | some member =>
      ∃ owner, known operand = some owner ∧ answer = owner.bind (s.memberType · member)
  | .other "parenthesized_expression" =>
    match (t.children id).head? with
    | some inner => known inner = some answer
    | none => answer = none
  | _ => answer = none

/-- The parts whose answers explain that about an expression. -/
def partsOf (t : Tree) (id : Nat) : List Nat :=
  match t.kind id with
  | .unaryExpr _ operand | .selectorExpr operand _ => [operand]
  | .other "parenthesized_expression" => (t.children id).head?.toList
  | _ => []

section Parts

variable {t : Tree} {s s' : Scope} {known known' : Nat → Option (Option GoType)} {id part : Nat}
  {answer : Option GoType}

/-- An explanation holds as long as the answers about the parts do. -/
theorem Explained.mono (h : Explained t s known id answer)
    (hkeep : ∀ part ∈ partsOf t id, ∀ found, known part = some found → known' part = some found) :
    Explained t s known' id answer := by
  cases hkind : t.kind id with
  | unaryExpr op operand =>
    simp only [Explained, partsOf, hkind] at h hkeep ⊢
    obtain ⟨inner, hinner, hanswer⟩ := h
    exact ⟨inner, hkeep operand List.mem_cons_self inner hinner, hanswer⟩
  | selectorExpr operand field =>
    simp only [Explained, partsOf, hkind] at h hkeep ⊢
    cases hmember : t.ident? field with
    | none =>
      rw [hmember] at h
      exact h
    | some member =>
      rw [hmember] at h
      obtain ⟨owner, howner, hanswer⟩ := h
      exact ⟨owner, hkeep operand List.mem_cons_self owner howner, hanswer⟩
  | other word =>
    by_cases hword : word = "parenthesized_expression"
    · subst hword
      simp only [Explained, partsOf, hkind] at h hkeep ⊢
      cases hinner : (t.children id).head? with
      | none =>
        rw [hinner] at h
        exact h
      | some inner =>
        rw [hinner] at h hkeep
        exact hkeep inner List.mem_cons_self answer h
    · simpa [Explained, hkind, hword] using h
  | ident _ | callExpr _ _ => simp only [Explained, hkind]
  | _ => simpa only [Explained, hkind] using h

private theorem mem_children_of_mem_partsOf (hrefs : ∀ id, (t.kind id).refs ⊆ t.children id)
    (h : part ∈ partsOf t id) : part ∈ t.children id := by
  have hrefs := hrefs id
  unfold partsOf at h
  split at h
  · rename_i hkind
    rw [hkind] at hrefs
    exact hrefs h
  · rename_i hkind
    rw [hkind] at hrefs
    exact hrefs (List.mem_append_left _ h)
  · exact List.mem_of_mem_head? (Option.mem_toList.mp h)
  · cases h

/-- A part of a typed expression is not bound or declared by any node. -/
theorem not_isTarget_of_mem_partsOf (hrefs : ∀ id, (t.kind id).refs ⊆ t.children id)
    (h : part ∈ partsOf t id) : ¬ IsTarget t part := by
  rintro ⟨-, parent, htarget⟩
  have hchild := hrefs parent (mem_refs_of_mem_targetsOf htarget)
  obtain rfl := Tree.parent_unique hchild (mem_children_of_mem_partsOf hrefs h)
  unfold targetsOf at htarget
  unfold partsOf at h
  split at h <;> simp_all

/-- What explains an answer does not depend on package-level values. -/
theorem Explained.of_scope (h : Explained t s known id answer) (htype : typeExpr t s = typeExpr t s')
    (hmember : s.memberType = s'.memberType) : Explained t s' known id answer := by
  unfold Explained at h ⊢
  rwa [htype, hmember] at h

end Parts

/-! ### Answers that stay explained -/

/-- All answers about expressions are explained, and they are what is recorded of all nodes that
are not bound or declared. -/
structure Sound (t : Tree) (s : Scope) (m : Memory) : Prop where
  explained : ∀ id answer, m.known[id]? = some answer → Explained t s (m.known[·]?) id answer
  recorded : ∀ id : Nat, ¬ IsTarget t id → m.facts.types[id]? = m.known[id]?.join

section Sound

variable {t : Tree} {s : Scope} {env : Env} {m : Memory} {node : Nat} {answer : Option GoType}

theorem Unasked.sound (h : Unasked t m) (s : Scope) : Sound t s m :=
  ⟨fun id answer hknown => by simp [h.known] at hknown,
    fun id hid => by rw [h.types id hid, h.known]; rfl⟩

/-- A first answer that is explained leaves all answers explained. -/
theorem Sound.learn (h : Sound t s m) (hnew : m.known[node]? = none)
    (hanswer : Explained t s (m.known[·]?) node answer) : Sound t s (m.learn node answer) := by
  have hkeep : ∀ (part : Nat) (found : Option GoType), m.known[part]? = some found →
      (m.learn node answer).known[part]? = some found := by
    intro part found hpart
    have hne : node ≠ part := by
      rintro rfl
      rw [hnew] at hpart
      cases hpart
    rw [getElem?_known_learn, if_neg hne, hpart]
  constructor
  · intro id found hknown
    rw [getElem?_known_learn] at hknown
    split at hknown
    · rename_i heq
      obtain rfl := Option.some.inj hknown
      exact (heq ▸ hanswer).mono fun part _ => hkeep part
    · exact (h.explained id found hknown).mono fun part _ => hkeep part
  · intro id hid
    rw [getElem?_types_learn, getElem?_known_learn, h.recorded id hid]
    split
    · rename_i heq
      rw [← heq, hnew]
      cases answer <;> rfl
    · rfl

variable (hrefs : ∀ id, (t.kind id).refs ⊆ t.children id)

include hrefs

/-- A binding is no answer about a part. -/
theorem Sound.learn_target (h : Sound t s m) (hnode : IsTarget t node) (type : GoType) :
    Sound t s (m.learn node (some type)) := by
  constructor
  · intro id found hknown
    rw [getElem?_known_learn] at hknown
    split at hknown
    · rename_i heq
      obtain ⟨name, hname⟩ := Option.isSome_iff_exists.mp hnode.1
      simp only [Explained, ← heq, Tree.ident?_eq_some_iff.mp hname]
    · refine (h.explained id found hknown).mono fun part hpart other hother => ?_
      have hne : node ≠ part := by
        rintro rfl
        exact not_isTarget_of_mem_partsOf hrefs hpart hnode
      rw [getElem?_known_learn, if_neg hne, hother]
  · intro id hid
    have hne : node ≠ id := by
      rintro rfl
      exact hid hnode
    rw [getElem?_types_learn, getElem?_known_learn, if_neg hne, if_neg hne, h.recorded id hid]

omit hrefs in
theorem Sound.recordType_target (h : Sound t s m) (hnode : IsTarget t node) (type : GoType) :
    Sound t s { m with facts := m.facts.recordType node type } := by
  refine ⟨h.explained, fun id hid => ?_⟩
  have hne : node ≠ id := by
    rintro rfl
    exact hid hnode
  rw [← h.recorded id hid]
  exact Std.TreeMap.getElem?_insert.trans (if_neg (by simpa using hne))

end Sound

/-! ### Expressions -/

section Expressions

variable {t : Tree} {s : Scope} {env : Env} {P : Memory → Prop} {id : Nat}
  (hrefs : ∀ id, (t.kind id).refs ⊆ t.children id)

include hrefs

/-- The answer that is computed is explained by the answers about the parts. -/
theorem leads_computeType_explained {typeOf : Nat → Resolve (Option GoType)}
    (hpackage : ∀ m node path, P m → P { m with facts := m.facts.recordPackage node path })
    (htypeOf : ∀ child ∈ t.children id, ∀ part ≤ child,
      Leads P (typeOf part) fun answer m => P m ∧ m.known[part]? = some answer) :
    Leads P (computeType t s typeOf env id) fun answer m =>
      P m ∧ Explained t s (m.known[·]?) id answer := by
  have hchildren := hrefs id
  have hdone : ∀ answer, (∀ known, Explained t s known id answer) → Leads P
      (pure answer : Resolve (Option GoType)) fun answer m =>
        P m ∧ Explained t s (m.known[·]?) id answer :=
    fun answer h => .pure fun m hm => ⟨hm, h _⟩
  have hparts : ∀ part ∈ t.children id, Leads P (typeOf part) fun answer m =>
      P m ∧ m.known[part]? = some answer := fun part h => htypeOf part h part (Nat.le_refl part)
  unfold computeType
  split
  · rename_i name hkind
    have hident : ∀ answer known, Explained t s known id answer := fun _ _ => by
      simp only [Explained, hkind]
    split
    · exact (leads_recordPackage hpackage _ _).bind fun _ => hdone _ (hident _)
    · split <;> exact hdone _ (hident _)
  · rename_i kind _ hkind
    split <;> exact hdone _ fun _ => by simp only [Explained, hkind, litType]
  · rename_i hkind
    exact hdone _ fun _ => by simp only [Explained, hkind]
  · rename_i op operand hkind
    rw [hkind] at hchildren
    refine (hparts operand (hchildren List.mem_cons_self)).bind fun inner => ?_
    have hunary : ∀ answer, answer = unaryType op inner → Leads
        (fun m => P m ∧ m.known[operand]? = some inner) (pure answer : Resolve (Option GoType))
        fun answer m => P m ∧ Explained t s (m.known[·]?) id answer := by
      rintro answer rfl
      refine .pure fun m hm => ⟨hm.1, ?_⟩
      simp only [Explained, hkind]
      exact ⟨inner, hm.2, rfl⟩
    split
    · exact hunary _ rfl
    · split
      · exact hunary _ rfl
      · rename_i hother
        refine hunary _ ?_
        simp only [unaryType]
    · exact hunary _ rfl
    · refine hunary _ ?_
      simp only [unaryType]
  · rename_i callee args hkind
    refine Leads.bind (leads_callResults hpackage fun part hpart => ?_) fun _ =>
      hdone _ fun _ => by simp only [Explained, hkind]
    rcases List.mem_append.mp hpart with hpart | hpart
    · exact (hparts part (hchildren hpart)).mono fun _ _ hm => hm.1
    · obtain ⟨callee, hcallee, hpart⟩ := List.mem_flatMap.mp hpart
      have hle : part ≤ callee := (Tree.lt_of_mem_children (hrefs callee hpart)).le
      exact (htypeOf callee (hchildren hcallee) part hle).mono fun _ _ hm => hm.1
  · rename_i operand field hkind
    split
    · rename_i hmember
      exact hdone _ fun _ => by simp only [Explained, hkind, hmember]
    · rename_i member hmember
      rw [hkind] at hchildren
      refine (hparts operand (hchildren List.mem_cons_self)).bind fun owner => ?_
      have hmemberOf : ∀ answer, answer = owner.bind (s.memberType · member) → Leads
          (fun m => P m ∧ m.known[operand]? = some owner) (pure answer : Resolve (Option GoType))
          fun answer m => P m ∧ Explained t s (m.known[·]?) id answer := by
        rintro answer rfl
        refine .pure fun m hm => ⟨hm.1, ?_⟩
        simp only [Explained, hkind, hmember]
        exact ⟨owner, hm.2, rfl⟩
      split
      · exact hmemberOf _ rfl
      · rename_i owner
        rw [Option.bind_some] at hmemberOf
        unfold Scope.memberType at hmemberOf
        split
        · rename_i hstrip
          rw [hstrip] at hmemberOf
          split
          · rename_i hpackage
            exact hmemberOf _ (if_pos hpackage).symm
          · rename_i hpackage
            exact hmemberOf _ (if_neg hpackage).symm
        · refine hmemberOf _ ?_
          split
          · exact absurd ‹_› (by simp_all)
          · rfl
  · rename_i hkind
    split
    · rename_i inner hinner
      refine (hparts inner (List.mem_of_mem_head? hinner)).mono fun answer m hm => ⟨hm.1, ?_⟩
      simp only [Explained, hkind, hinner]
      exact hm.2
    · rename_i hinner
      exact hdone _ fun _ => by simp only [Explained, hkind, hinner]
  · refine hdone _ fun _ => ?_
    unfold Explained
    split <;> simp_all

/-- All answers are explained, and those about later nodes are the ones of before. -/
def SoundUpTo (t : Tree) (s : Scope) (id : Nat) (before : Nat → Option (Option GoType))
    (m : Memory) : Prop :=
  Sound t s m ∧ ∀ other, id < other → m.known[other]? = before other

/-- A computation answers a question about a node with all answers explained. What is learnt is
about the node and about nodes before it. -/
def Answers (t : Tree) (s : Scope) (id : Nat) (c : Resolve (Option GoType)) : Prop :=
  ∀ before, Leads (SoundUpTo t s id before) c fun answer m =>
    SoundUpTo t s id before m ∧ m.known[id]? = some answer

/-- A question about a node is answered if those about the nodes below it are. -/
theorem answers_remember {typeOf : Nat → Resolve (Option GoType)}
    (htypeOf : ∀ child ∈ t.children id, ∀ part ≤ child, Answers t s part (typeOf part)) :
    Answers t s id (Resolve.remember id (computeType t s typeOf env id)) := by
  intro before
  refine leads_remember ?_
  -- while the answer is computed, nothing is learnt about the node itself or about later ones
  have hcompute : Leads (fun m => SoundUpTo t s id before m ∧ m.known[id]? = none)
      (computeType t s typeOf env id) fun answer m =>
        (SoundUpTo t s id before m ∧ m.known[id]? = none) ∧
          Explained t s (m.known[·]?) id answer := by
    refine leads_computeType_explained hrefs
      (fun m node path hm => ⟨⟨⟨hm.1.1.explained, hm.1.1.recorded⟩, hm.1.2⟩, hm.2⟩)
      fun child hchild part hpart m hm => ?_
    have hlt : part < id := Nat.lt_of_le_of_lt hpart (Tree.lt_of_mem_children hchild)
    obtain ⟨⟨hsound, hlater⟩, hknown⟩ :=
      htypeOf child hchild part hpart (m.known[·]?) m ⟨hm.1.1, fun _ _ => rfl⟩
    refine ⟨⟨⟨hsound, fun other hother => ?_⟩, ?_⟩, hknown⟩
    · exact (hlater other (hlt.trans hother)).trans (hm.1.2 other hother)
    · exact (hlater id hlt).trans hm.2
  refine hcompute.mono fun answer m hm => ?_
  obtain ⟨⟨⟨hsound, hlater⟩, hnew⟩, hexplained⟩ := hm
  refine ⟨hsound.learn hnew hexplained, fun other hother => ?_⟩
  rw [getElem?_known_learn, if_neg hother.ne, hlater other hother]

/-- A depth that the nodes below do not exceed is enough. -/
theorem answers_exprTypeUpTo : ∀ (depth id : Nat), (∀ child ∈ t.children id, child < depth) →
    Answers t s id (exprTypeUpTo t s env (depth + 1) id) := by
  intro depth
  induction depth with
  | zero =>
    intro id hdepth
    exact answers_remember hrefs fun child hchild => absurd (hdepth child hchild) (Nat.not_lt_zero _)
  | succ depth ih =>
    intro id hdepth
    refine answers_remember hrefs fun child hchild part hpart => ih part fun below hbelow => ?_
    have hlt := Tree.lt_of_mem_children hbelow
    have hle := hdepth child hchild
    omega

theorem leads_exprType_sound (id : Nat) :
    Leads (Sound t s) (exprType t s env id) fun answer m =>
      Sound t s m ∧ m.known[id]? = some answer := by
  have hdepth : ∀ child ∈ t.children id, child < t.size := fun child hchild =>
    Nat.lt_of_lt_of_le (Tree.lt_root_of_mem_children hchild) (Nat.sub_le ..)
  intro m hm
  obtain ⟨⟨hsound, -⟩, hknown⟩ := answers_exprTypeUpTo hrefs t.size id hdepth (m.known[·]?) m
    ⟨hm, fun _ _ => rfl⟩
  exact ⟨hsound, hknown⟩

end Expressions

/-! ### Statements and declarations -/

section Statements

variable {t : Tree} {s : Scope} {env : Env} {id : Nat}
  (hrefs : ∀ id, (t.kind id).refs ⊆ t.children id)

include hrefs

private theorem leads_assignedTypes_sound (values : List Nat) (targets : Nat) :
    Leads (Sound t s) (assignedTypes t s env values targets) fun _ => Sound t s :=
  leads_assignedTypes (fun _ _ _ hm => ⟨hm.explained, hm.recorded⟩)
    (fun id => (leads_exprType_sound hrefs id).mono fun _ _ hm => hm.1) values targets

private theorem bind_sound (parent : Nat) {target : Nat} (htarget : target ∈ targetsOf t parent)
    (type : Option GoType) : Leads (Sound t s) (bind t env target type) fun _ => Sound t s :=
  leads_bind type (fun _ hm => hm) fun _ found hname _ hm =>
    hm.learn_target hrefs (isTarget_of_mem parent htarget hname) found

private theorem bindSpec_sound (spec : Nat) :
    Leads (Sound t s) (bindSpec t s env spec) fun _ => Sound t s := by
  unfold bindSpec
  split
  · rename_i names type values hkind
    refine (leads_assignedTypes_sound hrefs values names.length).bind fun inferred => ?_
    refine Leads.foldlM (I := fun _ _ => Sound t s) (fun before p after hsplit env => ?_) env
    have hmem : p ∈ names.zipIdx := by
      rw [hsplit]
      exact List.mem_append_right before List.mem_cons_self
    refine bind_sound hrefs spec ?_ _
    rw [targetsOf, hkind]
    exact List.fst_mem_of_mem_zipIdx hmem
  · exact .pure fun _ hm => hm

omit hrefs in
private theorem bindFields_sound (list : Option Nat) :
    Leads (Sound t s) (bindFields t s env list) fun _ => Sound t s := by
  refine leads_bindFields (I := fun _ => Sound t s) fun l _ target htarget word hname found env m hm => ?_
  obtain ⟨field, -, hfield⟩ := List.mem_flatMap.mp htarget
  refine hm.recordType_target (isTarget_of_mem field ?_ hname) found
  split at hfield
  · rename_i hkind
    rwa [targetsOf, hkind]
  · cases hfield

private theorem resolveStatement_sound (id : Nat) :
    Leads (Sound t s) (resolveStatement t s env id) fun _ => Sound t s := by
  unfold resolveStatement
  split
  · rename_i targets values define hkind
    refine (leads_assignedTypes_sound hrefs values targets.length).bind fun types => ?_
    refine Leads.foldlM (I := fun _ _ => Sound t s) (fun before p after hsplit env => ?_) env
    have hmem : p ∈ targets.zipIdx := by
      rw [hsplit]
      exact List.mem_append_right before List.mem_cons_self
    dsimp only
    split
    · refine bind_sound hrefs id ?_ _
      rw [targetsOf, hkind]
      exact List.fst_mem_of_mem_zipIdx hmem
    · exact .pure fun _ hm => hm
  · exact bindSpec_sound hrefs id
  · exact (bindFields_sound _).bind fun _ => bindFields_sound _
  · exact (leads_exprType_sound hrefs id).bind fun _ => .pure fun _ hm => hm.1

private theorem resolveFunction_sound (decl : Nat) :
    Leads (Sound t s) (resolveFunction t s decl) fun _ => Sound t s := by
  unfold resolveFunction
  split
  · refine (bindFields_sound _).bind fun _ => (bindFields_sound _).bind fun _ =>
      (bindFields_sound _).bind fun env => ?_
    split
    · exact .pure fun _ hm => hm
    · rw [walkAll_eq_foldlM]
      exact Leads.bind (Leads.foldlM (I := fun _ _ => Sound t s)
        (fun _ node _ _ env => resolveStatement_sound hrefs node) env) fun _ => .pure fun _ hm => hm
  · exact .pure fun _ hm => hm

end Statements

section Files

variable {t : Tree} {package : Option String} {s : Scope}
  (hrefs : ∀ id, (t.kind id).refs ⊆ t.children id)

include hrefs

/-- The values of a package change nothing that explains answers. -/
theorem Sound.of_globals (hs : s.Reads t package) (globals globals' : Env) {m : Memory}
    (h : Sound t { s with globals := globals } m) : Sound t { s with globals := globals' } m := by
  have htype : typeExpr t { s with globals := globals } = typeExpr t { s with globals := globals' } :=
    Scope.Reads.typeExpr_congr ⟨hs.package, hs.imports⟩ ⟨hs.package, hs.imports⟩ hrefs
  exact ⟨fun id answer hknown => (h.explained id answer hknown).of_scope htype rfl, h.recorded⟩

/-- What is known when a file is resolved: all answers are explained by what the file declares. -/
structure Resolved (t : Tree) (package : Option String) (s : Scope) (m : Memory) : Prop where
  reads : s.Reads t package
  fields : s.FieldsRecorded t package m.facts
  sound : Sound t s m

private theorem readValues_sound (hs : s.Reads t package) (decl : Nat) :
    Leads (Sound t s) (readValues t s decl) fun s' m =>
      (∃ globals, s' = { s with globals := globals }) ∧ Sound t s m := by
  have hspecs : ∀ env : Env, Leads (Sound t s) ((t.children decl).foldlM (fun env spec => do
      let env ← bindSpec t { s with globals := ∅ } env spec
      walkAll t (fun _ node => do
        let _ ← exprType t { s with globals := ∅ } env node
        return ()) () spec
      return env) env) fun _ => Sound t s := by
    intro env
    have hinner : ∀ {m : Memory}, Sound t s m → Sound t { s with globals := ∅ } m := fun h =>
      Sound.of_globals hrefs hs s.globals ∅ h
    refine ((Leads.foldlM (I := fun _ _ => Sound t { s with globals := ∅ })
      (fun _ spec _ _ env => ?_) env).weaken fun _ hm => hinner hm).mono fun _ _ hm =>
        Sound.of_globals hrefs hs ∅ s.globals hm
    refine (bindSpec_sound hrefs spec).bind fun env => ?_
    rw [walkAll_eq_foldlM]
    refine Leads.bind (Leads.foldlM (I := fun _ _ => Sound t { s with globals := ∅ })
      (fun _ node _ _ _ => ?_) ()) fun _ => .pure fun _ hm => hm
    exact (leads_exprType_sound hrefs node).bind fun _ => .pure fun _ hm => hm.1
  unfold readValues
  split
  · exact (hspecs s.globals).bind fun env => .pure fun _ hm => ⟨⟨env, rfl⟩, hm⟩
  · exact (hspecs s.globals).bind fun env => .pure fun _ hm => ⟨⟨env, rfl⟩, hm⟩
  · exact .pure fun _ hm => ⟨⟨s.globals, rfl⟩, hm⟩

private theorem readValues_resolved {decl : Nat} (hdecl : decl ∈ t.children t.root) :
    Leads (Resolved t package s) (readValues t s decl) (Resolved t package) := by
  by_cases hkind : t.kind decl = .typeDecl
  · unfold readValues
    rw [hkind]
    exact .pure fun _ hm => hm
  · have hquiet := quiet_readValues (closed_preorder hrefs decl) s
      (Tree.mem_preorder_of_below .refl)
    have hfields := hquiet.leads (P := fun m => s.FieldsRecorded t package m.facts)
      fun m m' hagree hm' => hm'.agree hrefs hdecl hkind hagree rfl
    intro m hm
    obtain ⟨⟨globals, hscope⟩, hsound⟩ := readValues_sound hrefs hm.reads decl m hm.sound
    rw [hscope]
    exact ⟨⟨hm.reads.package, hm.reads.imports⟩, (hfields m hm.fields).2,
      Sound.of_globals hrefs hm.reads s.globals globals hsound⟩

private theorem resolveFunction_resolved {decl : Nat} (hdecl : decl ∈ t.children t.root) :
    Leads (Resolved t package s) (resolveFunction t s decl) fun _ => Resolved t package s := by
  by_cases hkind : t.kind decl = .typeDecl
  · unfold resolveFunction
    rw [hkind]
    exact .pure fun _ hm => hm
  · have hquiet := quiet_resolveFunction (closed_preorder hrefs decl) s
      (Tree.mem_preorder_of_below .refl)
    have hfields := hquiet.leads (P := fun m => s.FieldsRecorded t package m.facts)
      fun m m' hagree hm' => hm'.agree hrefs hdecl hkind hagree rfl
    intro m hm
    exact ⟨hm.reads, (hfields m hm.fields).2, resolveFunction_sound hrefs decl m hm.sound⟩

/-- When a file is resolved, all answers are explained by what it declares. -/
theorem leads_resolveFile (package : Option String) :
    Leads (Unasked t) (resolveFile t package) fun _ m => ∃ s, Resolved t package s m := by
  unfold resolveFile
  refine (leads_readNames package).bind fun s => (leads_readShapes hrefs s).bind fun s => ?_
  have hvalues : Leads (HasRead t package s) ((t.children t.root).foldlM (readValues t) s)
      (Resolved t package) := by
    refine (Leads.foldlM (I := fun _ s => Resolved t package s) (fun before decl after hsplit s => ?_)
      s).weaken fun m hm => ⟨hm.reads, hm.fields, hm.unasked.sound s⟩
    refine readValues_resolved hrefs ?_
    rw [hsplit]
    exact List.mem_append_right before List.mem_cons_self
  refine hvalues.bind fun s => ?_
  exact (Leads.forM fun decl hdecl => resolveFunction_resolved hrefs hdecl).mono fun _ _ hm => ⟨s, hm⟩

end Files

/-! ### Types that are recorded -/

/-- The type of an expression is the one that the types of its parts make. -/
def Justified (t : Tree) (package : Option String) (facts : FactTable) (id : Nat) (T : GoType) :
    Prop :=
  match t.kind id with
  | .basicLit kind _ => T = litType kind
  | .compositeLit type _ => ∃ written, type = some written ∧ Denotes t package written T
  | .unaryExpr op operand =>
    match op with
    | "&" => ∃ U, facts.typeOf? operand = some U ∧ T = .pointer U
    | "*" => facts.typeOf? operand = some (.pointer T)
    | "!" => T = .basic "bool"
    | _ => facts.typeOf? operand = some T
  | .selectorExpr operand field => ∃ member owner name, t.ident? field = some member ∧
      facts.typeOf? operand = some owner ∧ owner.stripPointers = .named package name ∧
      HasMember t package facts name member T
  | .other "parenthesized_expression" =>
    ∃ inner, (t.children id).head? = some inner ∧ facts.typeOf? inner = some T
  | _ => True

section Recorded

variable {t : Tree} {package : Option String} {s : Scope} {m : Memory} {id : Nat} {T : GoType}

theorem not_isTarget_of_ident? (hid : t.ident? id = none) : ¬ IsTarget t id := by
  rintro ⟨hname, -⟩
  rw [hid] at hname
  cases hname

/-- What is recorded of a node that is not bound is the answer about it. -/
theorem Resolved.typeOf?_eq (h : Resolved t package s m) (hid : ¬ IsTarget t id) :
    m.facts.typeOf? id = (m.known[id]?).join :=
  h.sound.recorded id hid

/-- What is recorded of an expression is an answer that is explained. -/
theorem Resolved.explained (h : Resolved t package s m) (hid : t.ident? id = none)
    (htype : m.facts.typeOf? id = some T) : Explained t s (m.known[·]?) id (some T) := by
  rw [h.typeOf?_eq (not_isTarget_of_ident? hid)] at htype
  exact h.sound.explained id _ (Option.join_eq_some_iff.mp htype)

variable (hrefs : ∀ id, (t.kind id).refs ⊆ t.children id)

include hrefs

/-- What is recorded of a part is the answer about it. -/
theorem Resolved.typeOf?_part (h : Resolved t package s m) {part : Nat} (hpart : part ∈ partsOf t id)
    {answer : Option GoType} (hknown : m.known[part]? = some answer) :
    m.facts.typeOf? part = answer := by
  rw [h.typeOf?_eq (not_isTarget_of_mem_partsOf hrefs hpart), hknown]
  rfl

theorem Resolved.justified (h : Resolved t package s m) (htype : m.facts.typeOf? id = some T) :
    Justified t package m.facts id T := by
  have hexplained : t.ident? id = none → Explained t s (m.known[·]?) id (some T) := fun hid =>
    h.explained hid htype
  have hpart : ∀ {part answer}, part ∈ partsOf t id → m.known[part]? = some answer →
      m.facts.typeOf? part = answer := fun hpart hknown => h.typeOf?_part hrefs hpart hknown
  rw [Tree.ident?] at hexplained
  cases hkind : t.kind id with
  | basicLit kind _ =>
    simp only [Explained, NodeKind.ident?, hkind, forall_const] at hexplained
    simp only [Justified, hkind]
    exact Option.some.inj hexplained
  | compositeLit type _ =>
    simp only [Explained, NodeKind.ident?, hkind, forall_const] at hexplained
    simp only [Justified, hkind]
    obtain ⟨written, hwritten, htype⟩ := Option.bind_eq_some_iff.mp hexplained.symm
    exact ⟨written, hwritten, (h.reads.typeExpr_eq_some_iff hrefs).mp htype⟩
  | unaryExpr op operand =>
    simp only [Explained, NodeKind.ident?, hkind, forall_const] at hexplained
    obtain ⟨inner, hknown, hanswer⟩ := hexplained
    have hinner := hpart (by simp [partsOf, hkind]) hknown
    simp only [Justified, hkind]
    unfold unaryType at hanswer
    split at hanswer
    · obtain ⟨U, rfl, rfl⟩ := Option.map_eq_some_iff.mp hanswer.symm
      exact ⟨U, hinner, rfl⟩
    · split at hanswer
      · obtain rfl := Option.some.inj hanswer
        exact hinner
      · cases hanswer
    · exact Option.some.inj hanswer
    · exact hinner.trans hanswer.symm
  | selectorExpr operand field =>
    simp only [Explained, NodeKind.ident?, hkind, forall_const] at hexplained
    simp only [Justified, hkind]
    cases hmember : t.ident? field with
    | none =>
      rw [hmember] at hexplained
      cases hexplained
    | some member =>
      rw [hmember] at hexplained
      obtain ⟨answer, hknown, hanswer⟩ := hexplained
      obtain ⟨owner, rfl, htype⟩ := Option.bind_eq_some_iff.mp hanswer.symm
      have howner := hpart (by simp [partsOf, hkind]) hknown
      unfold Scope.memberType at htype
      split at htype
      · rename_i ofPackage name hstrip
        split at htype
        · rename_i hsame
          obtain rfl := eq_of_beq hsame
          rw [h.reads.package] at hstrip
          exact ⟨member, owner, name, rfl, howner, hstrip, h.fields name member T htype⟩
        · cases htype
      · cases htype
  | other word =>
    by_cases hword : word = "parenthesized_expression"
    · subst hword
      simp only [Explained, NodeKind.ident?, hkind, forall_const] at hexplained
      simp only [Justified, hkind]
      cases hinner : (t.children id).head? with
      | none =>
        rw [hinner] at hexplained
        cases hexplained
      | some inner =>
        rw [hinner] at hexplained
        exact ⟨inner, rfl, hpart (by simp [partsOf, hkind, hinner]) hexplained⟩
    · simp [Justified, hkind, hword]
  | _ => simp only [Justified, hkind]

end Recorded

/-- A file is resolved from a memory without answers. -/
theorem exists_unasked (t : Tree) (package : Option String) (siblings : List (String × Method)) :
    ∃ start, Unasked t start ∧
      resolve t package siblings = ((resolveFile t package).run start).2.facts := by
  refine ⟨_, ⟨fun _ => Std.TreeMap.getElem?_emptyc, fun id _ => ?_⟩, rfl⟩
  rw [FactTable.types_foldl_recordMethod]
  exact Std.TreeMap.getElem?_emptyc

/-- When a file is resolved, all answers are explained, and what is recorded comes from them. -/
theorem exists_resolved {read : String → Option Concrete} {file : SourceFile} {t : Tree}
    (hread : parseWith read file = .ok t) (package : Option String)
    (siblings : List (String × Method)) :
    ∃ s m, Resolved t package s m ∧ resolve t package siblings = m.facts := by
  obtain ⟨start, hstart, hfacts⟩ := exists_unasked t package siblings
  obtain ⟨s, hs⟩ := leads_resolveFile (refs_subset_children_of_parseWith hread) package start hstart
  exact ⟨s, _, hs, hfacts⟩

/-- The type that is recorded of a compound expression is the one that the types recorded of its
parts make, however bindings have changed since it was found. -/
theorem resolve_justified {read : String → Option Concrete} {file : SourceFile} {t : Tree}
    (hread : parseWith read file = .ok t) (package : Option String)
    (siblings : List (String × Method)) {id : Nat} {T : GoType}
    (htype : (resolve t package siblings).typeOf? id = some T) :
    Justified t package (resolve t package siblings) id T := by
  obtain ⟨s, m, hs, hfacts⟩ := exists_resolved hread package siblings
  rw [hfacts] at htype ⊢
  exact hs.justified (refs_subset_children_of_parseWith hread) htype

/-- A member of a member, of a variable that is bound anew afterwards. -/
def nestedMembers : SourceFile :=
  .ofText "a.go" ("package a\n\ntype Plan struct \x7b\n\tDue int64\n\x7d\n\n" ++
    "type Task struct \x7b\n\t*Plan\n\x7d\n\nfunc f() \x7b\n\tq := &Task\x7b\x7d\n" ++
    "\td := -(q.Plan.Due)\n\tq := \"gone\"\n\tsave(q, d)\n\x7d\n") ""

def nestedTypes : List (Nat × GoType) :=
  [(28, .pointer (.named (some "a") "Plan")), (30, .basic "int64"), (32, .basic "int64")]

/-- The inner member has the pointer that is embedded, the outer one the type of the field. -/
theorem resolve_justified_nestedMembers : ∃ t, parse nestedMembers = .ok t ∧ ∀ p ∈ nestedTypes,
    (resolve t (some "a") []).typeOf? p.1 = some p.2 ∧
      Justified t (some "a") (resolve t (some "a") []) p.1 p.2 := by
  have hread : (parse nestedMembers).toOption.map (fun t => decide (
      ∀ p ∈ nestedTypes, (resolve t (some "a") []).typeOf? p.1 = some p.2)) = some true := by
    decide +kernel
  obtain ⟨t, hok, hdecide⟩ := Option.map_eq_some_iff.mp hread
  have hok := toOption_eq_some_iff.mp hok
  refine ⟨t, hok, fun p hp => ?_⟩
  have htype := of_decide_eq_true hdecide p hp
  exact ⟨htype, resolve_justified hok (some "a") [] htype⟩

end Lintel.Go
