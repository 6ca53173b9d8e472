import Lintel.Proofs.Facts.Methods
import Lintel.Proofs.Go.Answers
import Lintel.Proofs.Go.Linked

/-!
# Types of package-level values

Package-level values are read one declaration after the other, with an environment of the values
before. Nothing is recorded of them earlier, and when all are read, what is recorded of a name is
what the environment says of it.
-/

namespace Lintel.Go

open Lintel.Text

/-! ### Names of values -/

def valueNames (t : Tree) (decl : Nat) : List Nat :=
  match t.kind decl with
  | .varDecl | .constDecl => (t.children decl).flatMap fun spec =>
    match t.kind spec with
    | .valueSpec names _ _ => names
    | _ => []
  | _ => []

def packageNames (t : Tree) : List Nat :=
  (t.children t.root).flatMap (valueNames t)

section Names

variable {t : Tree} {decl id : Nat}

theorem exists_spec_of_mem_valueNames (h : id ∈ valueNames t decl) :
    (t.kind decl = .varDecl ∨ t.kind decl = .constDecl) ∧ ∃ spec ∈ t.children decl,
      ∃ names type values, t.kind spec = .valueSpec names type values ∧ id ∈ names := by
  have hspec : ∀ spec, (id ∈ match t.kind spec with
      | .valueSpec names _ _ => names
      | _ => []) → ∃ names type values, t.kind spec = .valueSpec names type values ∧ id ∈ names := by
    intro spec hid
    split at hid
    · exact ⟨_, _, _, ‹_›, hid⟩
    · cases hid
  unfold valueNames at h
  split at h
  · obtain ⟨spec, hmem, hid⟩ := List.mem_flatMap.mp h
    exact ⟨.inl ‹_›, spec, hmem, hspec spec hid⟩
  · obtain ⟨spec, hmem, hid⟩ := List.mem_flatMap.mp h
    exact ⟨.inr ‹_›, spec, hmem, hspec spec hid⟩
  · cases h

private theorem mem_valueNames (hdecl : t.kind decl = .varDecl ∨ t.kind decl = .constDecl)
    {spec : Nat} (hspec : spec ∈ t.children decl) {names values : List Nat} {type : Option Nat}
    (hkind : t.kind spec = .valueSpec names type values) (hid : id ∈ names) :
    id ∈ valueNames t decl := by
  have hmem : id ∈ (t.children decl).flatMap fun spec =>
      match t.kind spec with
      | .valueSpec names _ _ => names
      | _ => [] := List.mem_flatMap.mpr ⟨spec, hspec, by rwa [hkind]⟩
  unfold valueNames
  rcases hdecl with hdecl | hdecl <;> rwa [hdecl]

end Names

/-! ### Before values are read -/

/-- No expression has been typed, and nothing is recorded of package-level values. -/
structure Fresh (t : Tree) (m : Memory) : Prop where
  known : ∀ id : Nat, m.known[id]? = none
  types : ∀ value ∈ packageNames t, m.facts.types[value]? = none

section Reading

variable {t : Tree} {s : Scope} {id : Nat}

theorem Fresh.updateMethods {m : Memory} (h : Fresh t m) (type : GoType)
    (update : MethodSet → MethodSet) :
    Fresh t { m with facts := m.facts.updateMethods type update } :=
  ⟨h.known, fun value hvalue => by rw [FactTable.types_updateMethods, h.types value hvalue]⟩

theorem Fresh.recordType {m : Memory} (h : Fresh t m) {node : Nat} (hnode : node ∉ packageNames t)
    (type : GoType) : Fresh t { m with facts := m.facts.recordType node type } := by
  refine ⟨h.known, fun value hvalue => ?_⟩
  have hne : node ≠ value := fun heq => hnode (heq ▸ hvalue)
  rw [← h.types value hvalue]
  exact Std.TreeMap.getElem?_insert.trans (if_neg (by simpa using hne))

private theorem readImport_fresh (t : Tree) (s : Scope) (spec : Nat) :
    Leads (Fresh t) (readImport t s spec) fun s' m => s'.globals = s.globals ∧ Fresh t m := by
  have hnote : ∀ node path, Leads (Fresh t) (Resolve.note (·.recordPackage node path))
      fun _ => Fresh t := fun _ _ => Leads.note fun _ hm => ⟨hm.known, hm.types⟩
  unfold readImport
  split
  · refine (hnote _ _).bind fun _ => Leads.bind (Leads.forIn (fun child _ => ?_) _ _) fun _ => ?_
    · split
      · exact (hnote _ _).bind fun _ => .pure fun _ hm => hm
      · exact .pure fun _ hm => hm
    · split <;> exact .pure fun _ hm => ⟨rfl, hm⟩
  · exact .pure fun _ hm => ⟨rfl, hm⟩

variable (hrefs : ∀ id, (t.kind id).refs ⊆ t.children id)

include hrefs

private theorem not_mem_packageNames {node : Nat} (hnode : node ∈ (t.kind id).refs)
    (hkind : ∀ names type values, t.kind id ≠ .valueSpec names type values) :
    node ∉ packageNames t := by
  intro hmem
  obtain ⟨decl, -, hdecl⟩ := List.mem_flatMap.mp hmem
  obtain ⟨-, spec, -, names, type, values, hspec, hname⟩ := exists_spec_of_mem_valueNames hdecl
  have hpart : node ∈ t.children spec := hrefs spec (by
    rw [hspec]
    exact List.mem_append_left _ (List.mem_append_left _ hname))
  obtain rfl := Tree.parent_unique (hrefs id hnode) hpart
  exact hkind _ _ _ hspec

private theorem readTypeName_fresh :
    Leads (Fresh t) (readTypeName t s id) fun s' m => s'.globals = s.globals ∧ Fresh t m := by
  unfold readTypeName
  split
  · rename_i name type hkind
    have hname : name ∉ packageNames t := not_mem_packageNames hrefs
      (by rw [hkind]; exact List.mem_cons_self) (by simp [hkind])
    split
    · exact .pure fun _ hm => ⟨rfl, hm⟩
    · rename_i word _
      refine Leads.bind (.note fun m hm => ?_) fun _ => .pure fun _ hm => ⟨rfl, hm⟩
      exact (hm.updateMethods (s.localType word) _).recordType hname (s.localType word)
  · exact .pure fun _ hm => ⟨rfl, hm⟩

private theorem readField_fresh (table : Env) (field : Nat) :
    Leads (Fresh t) (readField t s table field) fun _ => Fresh t := by
  unfold readField
  split
  · rename_i names type tag hkind
    split
    · exact .pure fun _ hm => hm
    · rename_i found _
      refine Leads.foldlM (I := fun _ _ => Fresh t) (fun before name after hsplit table => ?_) _
      have hname : name ∉ packageNames t := not_mem_packageNames hrefs
        (by rw [hkind, hsplit]; simp [NodeKind.refs]) (by simp [hkind])
      split
      · exact .pure fun _ hm => hm
      · exact Leads.bind (.note fun m hm => hm.recordType hname found) fun _ => .pure fun _ hm => hm
  · exact .pure fun _ hm => hm

private theorem readFields_fresh :
    Leads (Fresh t) (readFields t s id) fun s' m => s'.globals = s.globals ∧ Fresh t m := by
  unfold readFields
  split
  · split
    · exact Leads.bind (Leads.foldlM (I := fun _ _ => Fresh t)
        (fun _ field _ _ table => readField_fresh hrefs table field) _) fun _ =>
          .pure fun _ hm => ⟨rfl, hm⟩
    · exact .pure fun _ hm => ⟨rfl, hm⟩
  · exact .pure fun _ hm => ⟨rfl, hm⟩

omit hrefs in
private theorem readSignature_fresh (parts : FuncParts) :
    Leads (Fresh t) (readSignature t s parts) fun s' m => s'.globals = s.globals ∧ Fresh t m := by
  unfold readSignature
  split
  · exact .pure fun _ hm => ⟨rfl, hm⟩
  · split
    · exact .pure fun _ hm => ⟨rfl, hm⟩
    · split
      · exact .pure fun _ hm => ⟨rfl, hm⟩
      · exact Leads.bind (.note fun m hm => hm.updateMethods _ _) fun _ =>
          .pure fun _ hm => ⟨rfl, hm⟩

omit hrefs in
theorem leads_foldlM_scopes {f : Scope → Nat → Resolve Scope} {ids : List Nat}
    (h : ∀ s id, Leads (Fresh t) (f s id) fun s' m => s'.globals = s.globals ∧ Fresh t m)
    (s : Scope) :
    Leads (Fresh t) (ids.foldlM f s) fun s' m => s'.globals = s.globals ∧ Fresh t m := by
  refine (Leads.foldlM (I := fun _ s' m => s'.globals = s.globals ∧ Fresh t m)
    (fun _ id _ _ s' m hm => ?_) s).weaken fun m hm => ⟨rfl, hm⟩
  obtain ⟨hglobals, hm⟩ := hm
  have hnext := h s' id m hm
  exact ⟨hnext.1.trans hglobals, hnext.2⟩

theorem readNames_fresh (s : Scope) (decl : Nat) :
    Leads (Fresh t) (readNames t s decl) fun s' m => s'.globals = s.globals ∧ Fresh t m := by
  unfold readNames
  split
  · exact leads_foldlM_scopes (readImport_fresh t) s
  · exact leads_foldlM_scopes (fun _ _ => readTypeName_fresh hrefs) s
  · exact .pure fun _ hm => ⟨rfl, hm⟩

theorem readShapes_fresh (s : Scope) (decl : Nat) :
    Leads (Fresh t) (readShapes t s decl) fun s' m => s'.globals = s.globals ∧ Fresh t m := by
  unfold readShapes
  split
  · exact leads_foldlM_scopes (fun _ _ => readFields_fresh hrefs) s
  · exact readSignature_fresh _
  · exact .pure fun _ hm => ⟨rfl, hm⟩

end Reading

/-! ### Values -/

/-- What is recorded of a package-level name is what the environment says of it. -/
structure Told (t : Tree) (name : String) (env : Env) (m : Memory) : Prop where
  source : ∀ type, env[name]? = some type → ∃ value ∈ packageNames t, t.ident? value = some name ∧
    m.facts.types[value]? = some type ∧ m.known[value]? = some (some type)
  bare : env[name]? = none → ∀ value ∈ packageNames t, t.ident? value = some name →
    m.facts.types[value]? = none

section Values

variable {t : Tree} {s : Scope} {env : Env} {name : String} {m : Memory}
  (hword : name ≠ "true" ∧ name ≠ "false")

theorem Fresh.told (h : Fresh t m) (name : String) : Told t name ∅ m :=
  ⟨fun type htype => by simp at htype, fun _ value hvalue _ => h.types value hvalue⟩

theorem Told.learn_of_ne (h : Told t name env m) {node : Nat} (hnode : t.ident? node ≠ some name)
    (answer : Option GoType) : Told t name env (m.learn node answer) := by
  have hne : ∀ value, t.ident? value = some name → node ≠ value := by
    rintro value hvalue rfl
    exact hnode hvalue
  constructor
  · intro type htype
    obtain ⟨value, hvalue, hname, hrecorded, hknown⟩ := h.source type htype
    refine ⟨value, hvalue, hname, ?_, ?_⟩
    · rw [getElem?_types_learn, if_neg (hne value hname), hrecorded]
    · rw [getElem?_known_learn, if_neg (hne value hname), hknown]
  · intro henv value hvalue hname
    rw [getElem?_types_learn, if_neg (hne value hname), h.bare henv value hvalue hname]

include hword

/-- Without package-level values an identifier is told by the environment alone. -/
theorem identType_of_no_globals (hglobals : s.globals = ∅) : identType s env name = env[name]? := by
  unfold identType Scope.importOf?
  rw [hglobals]
  cases henv : env[name]? with
  | some type =>
    have hcontains : env.contains name = true := by
      rw [Std.TreeMap.contains_eq_isSome_getElem?, henv, Option.isSome_some]
    simp [hcontains, hword]
  | none =>
    simp [hword]

private theorem told_kept (hglobals : s.globals = ∅) : Kept t s env (Told t name env) := by
  refine ⟨fun m _ _ hm => ⟨hm.source, hm.bare⟩, fun m node answer hm hnode => ?_⟩
  by_cases hname : t.ident? node = some name
  · obtain ⟨hunknown, rfl⟩ := hnode name hname
    rw [identType_of_no_globals hword hglobals]
    constructor
    · intro type htype
      obtain ⟨value, hvalue, hvalueName, hrecorded, hknown⟩ := hm.source type htype
      have hne : node ≠ value := by
        rintro rfl
        rw [hunknown] at hknown
        cases hknown
      refine ⟨value, hvalue, hvalueName, ?_, ?_⟩
      · rw [getElem?_types_learn, if_neg hne, hrecorded]
      · rw [getElem?_known_learn, if_neg hne, hknown]
    · intro henv value hvalue hvalueName
      rw [getElem?_types_learn, henv, Option.none_or, ite_self, hm.bare henv value hvalue hvalueName]
  · exact hm.learn_of_ne hname answer

omit hword in
private theorem bind_told {target : Nat} (htarget : target ∈ packageNames t)
    (type : Option GoType) :
    Leads (Told t name env) (bind t env target type) (Told t name) := by
  refine leads_bind type (fun _ hm => hm) fun word found hwordName m hm => ?_
  by_cases heq : word = name
  · subst heq
    constructor
    · intro type htype
      rw [Std.TreeMap.getElem?_insert_self] at htype
      refine ⟨target, htarget, hwordName, ?_, ?_⟩
      · rw [getElem?_types_learn, if_pos rfl, htype, Option.some_or]
      · rw [getElem?_known_learn, if_pos rfl, htype]
    · intro henv
      rw [Std.TreeMap.getElem?_insert_self] at henv
      cases henv
  · have hsame : (env.insert word found)[name]? = env[name]? := by
      rw [Std.TreeMap.getElem?_insert, if_neg (by simpa using heq)]
    have hother : t.ident? target ≠ some name := by simpa [hwordName] using heq
    have hlearnt := hm.learn_of_ne hother (some found)
    exact ⟨hsame ▸ hlearnt.source, hsame ▸ hlearnt.bare⟩

private theorem bindSpec_told (hglobals : s.globals = ∅) {spec : Nat}
    (hspec : ∀ names type values, t.kind spec = .valueSpec names type values →
      ∀ target ∈ names, target ∈ packageNames t) :
    Leads (Told t name env) (bindSpec t s env spec) (Told t name) := by
  unfold bindSpec
  split
  · rename_i names type values hkind
    refine ((told_kept hword hglobals).leads_assignedTypes values names.length).bind fun inferred => ?_
    refine Leads.foldlM (I := fun _ env => Told t name env) (fun before p after hsplit env => ?_) env
    have hmem : p ∈ names.zipIdx := by
      rw [hsplit]
      exact List.mem_append_right before List.mem_cons_self
    exact bind_told (hspec names type values hkind p.1 (List.fst_mem_of_mem_zipIdx hmem)) _
  · exact .pure fun _ hm => hm

theorem readValues_told (s : Scope) {decl : Nat} (hdecl : decl ∈ t.children t.root) :
    Leads (Told t name s.globals) (readValues t s decl) fun s' => Told t name s'.globals := by
  have hspecs : ∀ inner : Scope, inner.globals = ∅ →
      (t.kind decl = .varDecl ∨ t.kind decl = .constDecl) →
      Leads (Told t name s.globals) ((t.children decl).foldlM (fun env spec => do
        let env ← bindSpec t inner env spec
        walkAll t (fun _ node => do let _ ← exprType t inner env node; return ()) () spec
        return env) s.globals) (Told t name) := by
    intro inner hglobals hkind
    refine Leads.foldlM (I := fun _ env => Told t name env) (fun before spec after hsplit env => ?_)
      s.globals
    have hspec : spec ∈ t.children decl := by
      rw [hsplit]
      exact List.mem_append_right before List.mem_cons_self
    refine (bindSpec_told hword hglobals fun names type values hvalue target htarget => ?_).bind
      fun env => ?_
    · exact List.mem_flatMap.mpr ⟨decl, hdecl, mem_valueNames hkind hspec hvalue htarget⟩
    · rw [walkAll_eq_foldlM]
      refine Leads.bind (Leads.foldlM (I := fun _ _ => Told t name env) (fun _ node _ _ _ => ?_) ())
        fun _ => .pure fun _ hm => hm
      exact (leads_exprType (told_kept hword hglobals) node).bind fun _ => .pure fun _ hm => hm.1
  unfold readValues
  split
  · exact (hspecs _ rfl (.inl ‹_›)).bind fun _ => .pure fun _ hm => hm
  · exact (hspecs _ rfl (.inr ‹_›)).bind fun _ => .pure fun _ hm => hm
  · exact .pure fun _ hm => hm

end Values

end Lintel.Go
