import Lintel.Proofs.Go.Denotes

/-!
# Reading the declarations of a file

Before the first expression is typed, the scope has the imports of the file and the fields of its
structs, and only names that are declared have a type.
-/

namespace Lintel.Go

open Lintel.Text

/-- The nodes that a node binds or declares. They may be given a type that is not the answer about
an expression. -/
def targetsOf (t : Tree) (id : Nat) : List Nat :=
  match t.kind id with
  | .typeSpec name _ => [name]
  | .valueSpec names _ _ | .field names _ _ => names
  | .assignStmt targets _ _ => targets
  | _ => []

/-- A node is a name that some node binds or declares. -/
def IsTarget (t : Tree) (id : Nat) : Prop :=
  (t.ident? id).isSome ∧ ∃ parent, id ∈ targetsOf t parent

/-- No expression has been typed. -/
structure Unasked (t : Tree) (m : Memory) : Prop where
  known : ∀ id : Nat, m.known[id]? = none
  types : ∀ id : Nat, ¬ IsTarget t id → m.facts.types[id]? = none

/-- A scope goes on to one that has further imports, of which later ones count first. -/
structure Scope.Imports (s s' : Scope) (entries : List (String × String)) : Prop where
  package : s'.package = s.package
  structFields : s'.structFields = s.structFields
  imports : ∀ name : String, s'.imports[name]? = (entries.reverse.lookup name).or s.imports[name]?

section Reading

variable {t : Tree} {package : Option String} {s s' : Scope} {m : Memory} {id : Nat}

theorem mem_refs_of_mem_targetsOf {parent : Nat} (h : id ∈ targetsOf t parent) :
    id ∈ (t.kind parent).refs := by
  unfold targetsOf at h
  split at h <;> simp_all [NodeKind.refs]

theorem Unasked.recordType (h : Unasked t m) {node : Nat} (hnode : IsTarget t node) (type : GoType) :
    Unasked t { m with facts := m.facts.recordType node type } := by
  refine ⟨h.known, fun id hid => ?_⟩
  have hne : node ≠ id := by
    rintro rfl
    exact hid hnode
  rw [← h.types id hid]
  exact Std.TreeMap.getElem?_insert.trans (if_neg (by simpa using hne))

theorem Unasked.updateMethods (h : Unasked t m) (type : GoType) (update : MethodSet → MethodSet) :
    Unasked t { m with facts := m.facts.updateMethods type update } :=
  ⟨h.known, fun id hid => by rw [FactTable.types_updateMethods, h.types id hid]⟩

/-! ### Names -/

theorem Scope.Imports.refl (s : Scope) : s.Imports s [] :=
  ⟨rfl, rfl, fun name => by simp⟩

theorem Scope.Imports.trans {s'' : Scope} {entries later : List (String × String)}
    (h : s.Imports s' entries) (h' : s'.Imports s'' later) : s.Imports s'' (entries ++ later) := by
  refine ⟨h'.package.trans h.package, h'.structFields.trans h.structFields, fun name => ?_⟩
  rw [h'.imports, h.imports, List.reverse_append, List.lookup_append, Option.or_assoc]

theorem Scope.imports_insert (s : Scope) (name path : String) :
    s.Imports { s with imports := s.imports.insert name path } [(name, path)] := by
  refine ⟨rfl, rfl, fun other => ?_⟩
  rw [Std.TreeMap.getElem?_insert]
  by_cases h : name = other
  · simp [h]
  · have hbeq : (other == name) = false := by simpa using Ne.symm h
    simp [h, hbeq]

/-- Readings that import one after the other import all. -/
theorem leads_foldlM_imports {f : Scope → Nat → Resolve Scope}
    (entriesOf : Nat → List (String × String))
    (h : ∀ s id, Leads (Unasked t) (f s id) fun s' m => s.Imports s' (entriesOf id) ∧ Unasked t m)
    (ids : List Nat) (s : Scope) :
    Leads (Unasked t) (ids.foldlM f s) fun s' m =>
      s.Imports s' (ids.flatMap entriesOf) ∧ Unasked t m := by
  refine (Leads.foldlM (I := fun before s' m => s.Imports s' (before.flatMap entriesOf) ∧ Unasked t m)
    (fun before id _ _ s' m hm => ?_) s).weaken fun m hm => ⟨.refl s, hm⟩
  obtain ⟨hbefore, hm⟩ := hm
  obtain ⟨hstep, hnext⟩ := h s' id m hm
  rw [List.flatMap_append, List.flatMap_singleton]
  exact ⟨hbefore.trans hstep, hnext⟩

private theorem readImport_imports (t : Tree) (s : Scope) (spec : Nat) :
    Leads (Unasked t) (readImport t s spec) fun s' m =>
      s.Imports s' (importPair? t spec).toList ∧ Unasked t m := by
  have hnote : ∀ node path, Leads (Unasked t) (Resolve.note (·.recordPackage node path))
      fun _ => Unasked t := fun _ _ => Leads.note fun _ hm => ⟨hm.known, hm.types⟩
  unfold readImport
  split
  · rename_i path localName hkind
    simp only [importPair?, hkind]
    refine (hnote _ _).bind fun _ => Leads.bind (Leads.forIn (fun child _ => ?_) _ _) fun _ => ?_
    · split
      · exact (hnote _ _).bind fun _ => .pure fun _ hm => hm
      · exact .pure fun _ hm => hm
    · split
      · exact .pure fun _ hm => ⟨.refl s, hm⟩
      · exact .pure fun _ hm => ⟨.refl s, hm⟩
      · rename_i name hblank hdot
        rw [if_neg (by simpa using ⟨hblank, hdot⟩)]
        exact .pure fun _ hm => ⟨s.imports_insert _ _, hm⟩
      · rw [if_neg (by simp)]
        exact .pure fun _ hm => ⟨s.imports_insert _ _, hm⟩
  · rename_i hkind
    have hnone : importPair? t spec = none := by
      unfold importPair?
      split
      · exact absurd ‹_› (hkind _ _)
      · rfl
    rw [hnone]
    exact .pure fun _ hm => ⟨.refl s, hm⟩

theorem isTarget_of_mem (parent : Nat) {word : String} (hmem : id ∈ targetsOf t parent)
    (hname : t.ident? id = some word) : IsTarget t id :=
  ⟨by rw [hname, Option.isSome_some], parent, hmem⟩

private theorem readTypeName_imports (t : Tree) (s : Scope) (spec : Nat) :
    Leads (Unasked t) (readTypeName t s spec) fun s' m => s.Imports s' [] ∧ Unasked t m := by
  unfold readTypeName
  split
  · rename_i name type hkind
    split
    · exact .pure fun _ hm => ⟨.refl s, hm⟩
    · rename_i word hname
      have htarget : IsTarget t name :=
        isTarget_of_mem spec (by rw [targetsOf, hkind]; exact List.mem_cons_self) hname
      refine Leads.bind (.note fun m hm => ?_) fun _ => .pure fun _ hm => ⟨⟨rfl, rfl, ?_⟩, hm⟩
      · exact (hm.updateMethods (s.localType word) _).recordType htarget (s.localType word)
      · exact fun name => by simp
  · exact .pure fun _ hm => ⟨.refl s, hm⟩

private theorem readNames_imports (s : Scope) (decl : Nat) :
    Leads (Unasked t) (readNames t s decl) fun s' m => s.Imports s' (importsOf t decl) ∧ Unasked t m := by
  unfold readNames
  split
  · rename_i hkind
    simp only [importsOf, hkind]
    exact leads_foldlM_imports _ (readImport_imports t) _ s
  · rename_i hkind
    refine (leads_foldlM_imports (fun _ => []) (readTypeName_imports t) _ s).mono
      fun s' m hm => ⟨?_, hm.2⟩
    have hnone : importsOf t decl = (t.children decl).flatMap fun _ => [] := by
      simp [importsOf, hkind]
    rw [hnone]
    exact hm.1
  · rename_i himport _
    have hnone : importsOf t decl = [] := by
      unfold importsOf
      split
      · exact absurd ‹_› himport
      · rfl
    rw [hnone]
    exact .pure fun _ hm => ⟨.refl s, hm⟩

/-! ### Shapes -/

/-- Declarations have been read: the scope says of types and fields what the file does. -/
structure HasRead (t : Tree) (package : Option String) (s : Scope) (m : Memory) : Prop where
  reads : s.Reads t package
  fields : s.FieldsRecorded t package m.facts
  unasked : Unasked t m

/-- When the names of a file are read, its imports are known. -/
theorem leads_readNames (package : Option String) :
    Leads (Unasked t) ((t.children t.root).foldlM (readNames t) (Scope.empty package))
      (HasRead t package) := by
  refine (leads_foldlM_imports (importsOf t) readNames_imports _ _).mono fun s m ⟨himports, hm⟩ => ?_
  refine ⟨⟨himports.package, fun name => ?_⟩, fun name member T hmember => ?_, hm⟩
  · rw [himports.imports]
    simp [Scope.empty, importPath?]
  · rw [himports.structFields] at hmember
    simp [Scope.empty] at hmember

def TableRecorded (t : Tree) (package : Option String) (name : String) (table : Env)
    (m : Memory) : Prop :=
  ∀ member T, table[member]? = some T → HasMember t package m.facts name member T

section Shapes

variable {name : String} {table : Env} {entry : Nat}

theorem TableRecorded.insert (h : TableRecorded t package name table m) {member : String}
    {T : GoType} (hmember : HasMember t package m.facts name member T) :
    TableRecorded t package name (table.insert member T) m := by
  intro other U hother
  rw [Std.TreeMap.getElem?_insert] at hother
  split at hother
  · rename_i heq
    obtain rfl := Std.LawfulEqCmp.eq_of_compare heq
    obtain rfl := Option.some.inj hother
    exact hmember
  · exact h other U hother

variable (hrefs : ∀ id, (t.kind id).refs ⊆ t.children id)

include hrefs

/-- A field gets the type of its entry, also if it had one before. -/
theorem HasMember.recordType (hs : s.Reads t package) {facts : FactTable} {name member : String}
    {T found : GoType} (h : HasMember t package facts name member T) {names : List Nat} {type : Nat}
    {tag : Option String} (hkind : t.kind entry = .field names type tag)
    (hfound : Denotes t package type found) {field : Nat} (hfield : field ∈ names) :
    HasMember t package (facts.recordType field found) name member T := by
  refine h.mono fun other names' type' tag' _ hother hdenotes field' hfield' hrecorded => ?_
  by_cases heq : field = field'
  · subst heq
    have hchild : field ∈ t.children entry := hrefs entry (by
      rw [hkind]
      exact List.mem_append_left _ hfield)
    have hchild' : field ∈ t.children other := hrefs other (by
      rw [hother]
      exact List.mem_append_left _ hfield')
    obtain rfl := Tree.parent_unique hchild hchild'
    obtain ⟨-, rfl, -⟩ := NodeKind.field.inj (hkind.symm.trans hother)
    rw [hs.denotes_unique hrefs hdenotes hfound]
    exact Std.TreeMap.getElem?_insert_self
  · exact (Std.TreeMap.getElem?_insert.trans (if_neg (by simpa using heq))).trans hrecorded

private theorem readField_hasRead (hentry : IsEntry t name entry) :
    Leads (fun m => HasRead t package s m ∧ TableRecorded t package name table m)
      (readField t s table entry)
      fun table m => HasRead t package s m ∧ TableRecorded t package name table m := by
  unfold readField
  split
  · rename_i names type tag hkind
    split
    · exact .pure fun _ hm => hm
    · rename_i found hfound
      intro m hm
      have hdenotes : Denotes t package type found :=
        (hm.1.reads.typeExpr_eq_some_iff hrefs).mp hfound
      refine Leads.foldlM (I := fun _ table m =>
        HasRead t package s m ∧ TableRecorded t package name table m)
        (fun before field after hsplit table => ?_) _ m ⟨hm.1, ?_⟩
      · have hfield : field ∈ names := by
          rw [hsplit]
          exact List.mem_append_right before List.mem_cons_self
        split
        · exact .pure fun _ hm => hm
        · rename_i word hname
          have htarget : IsTarget t field :=
            isTarget_of_mem entry (by rw [targetsOf, hkind]; exact hfield) hname
          refine Leads.bind (.note fun m hm => ?_) fun _ => .pure fun _ hm => hm
          have hkeep : ∀ {name member T}, HasMember t package m.facts name member T →
              HasMember t package (m.facts.recordType field found) name member T := fun hmember =>
            hmember.recordType hrefs hm.1.reads hkind hdenotes hfield
          refine ⟨⟨hm.1.reads, fun name member T hmember => hkeep (hm.1.fields name member T hmember),
            hm.1.unasked.recordType htarget found⟩, ?_⟩
          refine TableRecorded.insert (fun member T hmember => hkeep (hm.2 member T hmember)) ?_
          exact ⟨entry, names, type, tag, hentry, hkind, hdenotes,
            .inl ⟨field, hfield, hname, Std.TreeMap.getElem?_insert_self⟩⟩
      · split
        · rename_i embedded hembedded
          exact hm.2.insert ⟨entry, [], type, tag, hentry, hkind, hdenotes, .inr ⟨rfl, hembedded⟩⟩
        · exact hm.2
  · exact .pure fun _ hm => hm

private theorem readFields_hasRead {decl spec : Nat} (hdecl : decl ∈ t.children t.root)
    (hkind : t.kind decl = .typeDecl) (hspec : spec ∈ t.children decl) :
    Leads (HasRead t package s) (readFields t s spec) (HasRead t package) := by
  unfold readFields
  split
  · rename_i word type hspecKind
    split
    · rename_i name fields hname hstruct
      have hfold : Leads (HasRead t package s) ((t.children fields).foldlM (readField t s) ∅)
          fun table m => HasRead t package s m ∧ TableRecorded t package name table m := by
        refine (Leads.foldlM (I := fun _ table m =>
          HasRead t package s m ∧ TableRecorded t package name table m)
          (fun before entry after hsplit table => ?_) ∅).weaken fun m hm => ⟨hm, ?_⟩
        · have hentry : entry ∈ t.children fields := by
            rw [hsplit]
            exact List.mem_append_right before List.mem_cons_self
          exact readField_hasRead hrefs
            ⟨decl, hdecl, hkind, spec, hspec, word, type, fields, hspecKind, hname, hstruct, hentry⟩
        · exact fun member T hmember => by simp at hmember
      refine hfold.bind fun table => .pure fun m ⟨hm, htable⟩ => ?_
      refine ⟨⟨hm.reads.package, hm.reads.imports⟩, fun other member T hmember => ?_, hm.unasked⟩
      rw [Std.TreeMap.getD_insert] at hmember
      split at hmember
      · rename_i heq
        obtain rfl := Std.LawfulEqCmp.eq_of_compare heq
        exact htable member T hmember
      · exact hm.fields other member T hmember
    · exact .pure fun _ hm => hm
  · exact .pure fun _ hm => hm

omit hrefs in
private theorem readSignature_hasRead (parts : FuncParts) :
    Leads (HasRead t package s) (readSignature t s parts) (HasRead t package) := by
  have hscope : ∀ {s' : Scope} {m : Memory}, s'.package = s.package → s'.imports = s.imports →
      s'.structFields = s.structFields → HasRead t package s m → HasRead t package s' m := by
    intro s' m hpackage himports hfields hm
    refine ⟨⟨hpackage.trans hm.reads.package, fun name => ?_⟩, fun name member T hmember => ?_,
      hm.unasked⟩
    · rw [himports, hm.reads.imports]
    · rw [hfields] at hmember
      exact hm.fields name member T hmember
  unfold readSignature
  split
  · exact .pure fun _ hm => hm
  · split
    · exact .pure fun _ hm => hscope rfl rfl rfl hm
    · split
      · exact .pure fun _ hm => hm
      · refine Leads.bind (Q := fun _ => HasRead t package s) (.note fun m hm => ?_) fun _ =>
          .pure fun _ hm => hscope rfl rfl rfl hm
        refine ⟨hm.reads, fun name member T hmember => ?_, hm.unasked.updateMethods _ _⟩
        refine (hm.fields name member T hmember).mono fun _ _ _ _ _ _ _ field _ hrecorded => ?_
        exact (congrArg (·[field]?) (FactTable.types_updateMethods ..)).trans hrecorded

/-- When the shapes of a file are read, the fields of its structs are known. -/
theorem leads_readShapes (s : Scope) :
    Leads (HasRead t package s) ((t.children t.root).foldlM (readShapes t) s) (HasRead t package) := by
  refine Leads.foldlM (I := fun _ s => HasRead t package s) (fun before decl after hsplit s => ?_) s
  have hdecl : decl ∈ t.children t.root := by
    rw [hsplit]
    exact List.mem_append_right before List.mem_cons_self
  unfold readShapes
  split
  · rename_i hkind
    refine Leads.foldlM (I := fun _ s => HasRead t package s) (fun before spec after hspecs s => ?_) s
    have hspec : spec ∈ t.children decl := by
      rw [hspecs]
      exact List.mem_append_right before List.mem_cons_self
    exact readFields_hasRead hrefs hdecl hkind hspec
  · exact readSignature_hasRead _
  · exact .pure fun _ hm => hm

end Shapes

end Reading

end Lintel.Go
