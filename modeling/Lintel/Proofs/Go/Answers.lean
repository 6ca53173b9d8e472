import Lintel.Proofs.Go.Leads

/-!
# Answers about expressions

While expressions are typed, a memory grows by packages and by answers about nodes, and an
identifier gets its answer only once, from the environment. A property of memories that is kept
by such growth is kept by whatever is done to find the type of an expression.
-/

namespace Lintel.Go

open Lintel.Text

def Memory.learn (m : Memory) (node : Nat) (answer : Option GoType) : Memory :=
  { facts := answer.elim m.facts (m.facts.recordType node), known := m.known.insert node answer }

def identType (s : Scope) (env : Env) (name : String) : Option GoType :=
  if (s.importOf? env name).isSome then none
  else if name == "true" || name == "false" then some (.basic "bool")
  else env[name]?.or s.globals[name]?

section Learn

variable {m : Memory} {node id : Nat} {answer : Option GoType}

theorem getElem?_known_learn :
    (m.learn node answer).known[id]? = if node = id then some answer else m.known[id]? := by
  simp [Memory.learn, Std.TreeMap.getElem?_insert]

theorem getElem?_types_learn :
    (m.learn node answer).facts.types[id]? =
      if node = id then answer.or m.facts.types[id]? else m.facts.types[id]? := by
  cases answer with
  | none => simp [Memory.learn]
  | some type => simp [Memory.learn, FactTable.recordType, Std.TreeMap.getElem?_insert]

end Learn

/-- A property that packages do not matter for and that stays when the answer about a node is
learnt, where an identifier is new and its answer is what the environment says. -/
structure Kept (t : Tree) (s : Scope) (env : Env) (P : Memory → Prop) : Prop where
  package : ∀ m node path, P m → P { m with facts := m.facts.recordPackage node path }
  answer : ∀ m node answer, P m → (∀ name, t.ident? node = some name →
    m.known[node]? = none ∧ answer = identType s env name) → P (m.learn node answer)

section Rules

variable {α ι : Type} {P : Memory → Prop} {node : Nat}

theorem Leads.mapM {f : ι → Resolve α} (h : ∀ x, Leads P (f x) fun _ => P) :
    ∀ xs : List ι, Leads P (xs.mapM f) fun _ => P
  | [] => .pure fun _ hm => hm
  | x :: xs => by
    rw [List.mapM_cons]
    exact (h x).bind fun _ => (Leads.mapM h xs).bind fun _ => .pure fun _ hm => hm

/-- A remembered answer changes nothing, a computed one is learnt. Then it is known. -/
theorem leads_remember {compute : Resolve (Option GoType)}
    (h : Leads (fun m => P m ∧ m.known[node]? = none) compute fun answer m =>
      P (m.learn node answer)) :
    Leads P (Resolve.remember node compute) fun answer m =>
      P m ∧ m.known[node]? = some answer := by
  have hget : Leads P (get : Resolve Memory) fun a m => a = m ∧ P m := fun _ hm => ⟨rfl, hm⟩
  unfold Resolve.remember
  refine hget.bind fun a => ?_
  cases hknown : a.known[node]? with
  | some answer =>
    refine .pure ?_
    rintro m ⟨rfl, hm⟩
    exact ⟨hm, hknown⟩
  | none =>
    have hcompute : Leads (fun m => a = m ∧ P m) compute fun answer m =>
        P (m.learn node answer) := h.weaken fun m ⟨heq, hm⟩ => ⟨hm, heq ▸ hknown⟩
    refine hcompute.bind fun answer => ?_
    have hinsert : Leads (fun m => P { m with known := m.known.insert node answer })
        (modify fun m => { m with known := m.known.insert node answer } : Resolve Unit)
        fun _ m => P m ∧ m.known[node]? = some answer := Leads.modify fun m hm => ⟨hm, by simp⟩
    have hreturn := hinsert.bind fun _ =>
      Leads.pure (a := answer) (Q := fun answer m => P m ∧ m.known[node]? = some answer) fun _ hm => hm
    cases answer with
    | none => exact hreturn
    | some type =>
      have hnote : Leads (fun m => P (m.learn node (some type)))
          (Resolve.note (·.recordType node type)) fun _ m =>
            P { m with known := m.known.insert node (some type) } := Leads.note fun _ hm => hm
      exact hnote.bind fun _ => hreturn

end Rules

/-! ### Expressions -/

section Calls

variable {t : Tree} {s : Scope} {env : Env} {P : Memory → Prop}

/-- The nodes that may tell the results of a call: what its kind names, and what the kind of its
callee names. -/
def callParts (t : Tree) (call : Nat) : List Nat :=
  (t.kind call).refs ++ (t.kind call).refs.flatMap fun callee => (t.kind callee).refs

variable (hpackage : ∀ m node path, P m → P { m with facts := m.facts.recordPackage node path })

include hpackage

theorem leads_recordPackage (node : Nat) (path : String) :
    Leads P (Resolve.note (·.recordPackage node path)) fun _ => P :=
  Leads.note fun m hm => hpackage m node path hm

theorem leads_callResults {typeOf : Nat → Resolve (Option GoType)} {id : Nat}
    (htypeOf : ∀ part ∈ callParts t id, Leads P (typeOf part) fun _ => P) :
    Leads P (callResults t s typeOf env id) fun _ => P := by
  have hdone : ∀ results : Results, Leads P (pure results) fun _ => P :=
    fun _ => .pure fun _ hm => hm
  unfold callResults
  split
  · rename_i callee args hkind
    have hrefs : (t.kind id).refs = callee :: args := by rw [hkind]; rfl
    split
    · split
      · exact hdone _
      · split
        · exact hdone _
        · split
          · exact hdone _
          · exact hdone _
          · exact hdone _
          · exact hdone _
          · split
            · rename_i first hfirst
              refine (htypeOf first (List.mem_append_left _ ?_)).bind fun _ => hdone _
              rw [hrefs]
              exact List.mem_cons_of_mem callee (List.mem_of_mem_head? hfirst)
            · exact hdone _
          · exact hdone _
    · rename_i operand field hcallee
      split
      · exact hdone _
      · split
        · exact (leads_recordPackage hpackage _ _).bind fun _ => hdone _
        · refine (htypeOf operand (List.mem_append_right _ ?_)).bind fun receiver => ?_
          · refine List.mem_flatMap.mpr ⟨callee, by simp [hrefs], ?_⟩
            rw [hcallee]
            exact List.mem_cons_self
          split
          · exact hdone _
          · split
            · exact hdone _
            · split
              · split <;> exact hdone _
              · exact hdone _
    · exact hdone _
  · exact hdone _

theorem leads_assignedTypes (htype : ∀ id, Leads P (exprType t s env id) fun _ => P)
    (values : List Nat) (targets : Nat) :
    Leads P (assignedTypes t s env values targets) fun _ => P := by
  unfold assignedTypes
  split
  · exact .mapM htype values
  · split
    · rename_i single _
      exact (htype single).bind fun _ => leads_callResults hpackage fun part _ => htype part
    · exact .pure fun _ hm => hm

end Calls

section Expressions

variable {t : Tree} {s : Scope} {env : Env} {P : Memory → Prop} (hP : Kept t s env P)

include hP

/-- An identifier is told by the environment. -/
theorem leads_computeType_ident {typeOf : Nat → Resolve (Option GoType)} {id : Nat} {name : String}
    (hkind : t.kind id = .ident name) :
    Leads (fun m => P m ∧ m.known[id]? = none) (computeType t s typeOf env id) fun answer m =>
      P (m.learn id answer) := by
  have hname : t.ident? id = some name := Tree.ident?_eq_some_iff.mpr hkind
  have hlearn : ∀ m, P m ∧ m.known[id]? = none → P (m.learn id (identType s env name)) := by
    rintro m ⟨hm, hunknown⟩
    refine hP.answer m id _ hm fun other hother => ⟨hunknown, ?_⟩
    rw [Option.some.inj (hname.symm.trans hother)]
  unfold computeType
  rw [hkind]
  unfold identType at hlearn
  dsimp only
  cases himport : s.importOf? env name with
  | some path =>
    simp only [himport, Option.isSome_some, if_true] at hlearn
    exact Leads.bind (.note fun m h => ⟨hP.package m id path h.1, h.2⟩) fun _ => .pure hlearn
  | none =>
    simp only [himport, Option.isSome_none, Bool.false_eq_true, if_false] at hlearn
    dsimp only
    split
    · rename_i hword
      rw [if_pos hword] at hlearn
      exact .pure hlearn
    · rename_i hword
      rw [if_neg hword] at hlearn
      exact .pure hlearn

private theorem leads_computeType {typeOf : Nat → Resolve (Option GoType)}
    (htypeOf : ∀ part, Leads P (typeOf part) fun _ => P) (id : Nat) :
    Leads (fun m => P m ∧ m.known[id]? = none) (computeType t s typeOf env id) fun answer m =>
      P (m.learn id answer) := by
  by_cases hident : ∃ name, t.kind id = .ident name
  · obtain ⟨name, hkind⟩ := hident
    exact leads_computeType_ident hP hkind
  have hparts : Leads P (computeType t s typeOf env id) fun _ => P := by
    have hdone : ∀ answer : Option GoType, Leads P (pure answer) fun _ => P :=
      fun _ => .pure fun _ hm => hm
    unfold computeType
    split
    · exact absurd ⟨_, ‹_›⟩ hident
    · split <;> exact hdone _
    · exact hdone _
    · refine (htypeOf _).bind fun inner => ?_
      split
      · exact hdone _
      · split <;> exact hdone _
      · exact hdone _
      · exact hdone _
    · exact (leads_callResults hP.package fun part _ => htypeOf part).bind fun _ => hdone _
    · split
      · exact hdone _
      · refine (htypeOf _).bind fun owner => ?_
        split
        · exact hdone _
        · split
          · split <;> exact hdone _
          · exact hdone _
    · split
      · exact htypeOf _
      · exact hdone _
    · exact hdone _
  refine (hparts.weaken fun _ hm => hm.1).mono fun answer m hm => ?_
  exact hP.answer m id answer hm fun name hname =>
    absurd ⟨name, Tree.ident?_eq_some_iff.mp hname⟩ hident

/-- Finding the type of an expression makes it known and keeps what growth keeps. -/
theorem leads_exprType (id : Nat) :
    Leads P (exprType t s env id) fun _ m => P m ∧ m.known[id]?.isSome := by
  have hupTo : ∀ depth id, Leads P (exprTypeUpTo t s env depth id) fun _ => P := by
    intro depth
    induction depth with
    | zero => exact fun _ => .pure fun _ hm => hm
    | succ depth ih =>
      intro id
      exact (leads_remember (leads_computeType hP ih id)).mono fun _ _ hm => hm.1
  exact (leads_remember (leads_computeType hP (hupTo t.size) id)).mono fun _ _ hm =>
    ⟨hm.1, by simp [hm.2]⟩

theorem Kept.leads_assignedTypes (values : List Nat) (targets : Nat) :
    Leads P (assignedTypes t s env values targets) fun _ => P :=
  Go.leads_assignedTypes hP.package (fun id => (leads_exprType hP id).mono fun _ _ hm => hm.1)
    values targets

end Expressions

/-! ### Bindings -/

def fieldNames (t : Tree) (list : Nat) : List Nat :=
  (t.children list).flatMap fun field =>
    match t.kind field with
    | .field names _ _ => names
    | _ => []

section Bindings

variable {t : Tree} {s : Scope} {env : Env} {target : Nat}

/-- A binding is an answer about its target; without a name and a type nothing is done. -/
theorem leads_bind {P : Memory → Prop} {Q : Env → Memory → Prop} (type : Option GoType)
    (hkeep : ∀ m, P m → Q env m)
    (hbind : ∀ word found, t.ident? target = some word → ∀ m, P m →
      Q (env.insert word found) (m.learn target (some found))) :
    Leads P (bind t env target type) Q := by
  unfold bind
  split
  · rename_i word found hword
    split
    · exact .pure hkeep
    · have hnote : Leads P (Resolve.note (·.recordType target found)) fun _ m =>
          Q (env.insert word found) { m with known := m.known.insert target (some found) } :=
        Leads.note fun m hm => hbind word found hword m hm
      exact hnote.bind fun _ => Leads.bind (.modify fun _ hm => hm) fun _ => .pure fun _ hm => hm
  · exact .pure hkeep

/-- Fields are bound one by one; what they are found to be is no answer about an expression. -/
theorem leads_bindFields {I : Env → Memory → Prop} {list : Option Nat}
    (hstep : ∀ l ∈ list, ∀ target ∈ fieldNames t l, ∀ word, t.ident? target = some word →
      ∀ found env m, I env m →
        I (env.insert word found) { m with facts := m.facts.recordType target found }) :
    Leads (I env) (bindFields t s env list) I := by
  cases list with
  | none => exact .pure fun _ hm => hm
  | some l =>
    refine Leads.foldlM (I := fun _ env m => I env m) (fun before field after hsplit env => ?_) env
    have hfield : field ∈ t.children l := by
      rw [hsplit]
      exact List.mem_append_right before List.mem_cons_self
    split
    · rename_i names type tag hkind
      split
      · exact .pure fun _ hm => hm
      · rename_i found _
        refine Leads.foldlM (I := fun _ env m => I env m) (fun front target back hnames env => ?_) env
        have htarget : target ∈ names := by
          rw [hnames]
          exact List.mem_append_right front List.mem_cons_self
        split
        · exact .pure fun _ hm => hm
        · rename_i word hword
          refine Leads.bind (.note fun m hm => ?_) fun _ => .pure fun _ hm => hm
          refine hstep l rfl target (List.mem_flatMap.mpr ⟨field, hfield, ?_⟩) word hword found env m hm
          rwa [hkind]
    · exact .pure fun _ hm => hm

end Bindings

end Lintel.Go
