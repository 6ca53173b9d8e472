import Lintel.Proofs.Go.Globals

/-!
# What declarations of a file say

A type expression denotes a type, where a qualified name is resolved by the imports of the file:
of two imports under one name the last one counts. The first two readings of a file end with a
scope that says just this of type expressions, and of a field of a struct only what is also
recorded of the field.
-/

namespace Lintel.Go

open Lintel.Text

/-! ### Imports -/

/-- The name that an import is used by, and its path. -/
def importPair? (t : Tree) (spec : Nat) : Option (String × String) :=
  match t.kind spec with
  | .importSpec path localName =>
    if localName = some "_" ∨ localName = some "." then none
    else some (localName.getD (defaultLocalName path), path)
  | _ => none

def importsOf (t : Tree) (decl : Nat) : List (String × String) :=
  match t.kind decl with
  | .importDecl => (t.children decl).flatMap fun spec => (importPair? t spec).toList
  | _ => []

/-- The path that is imported under a name, by the last import that has it. -/
def importPath? (t : Tree) (name : String) : Option String :=
  ((t.children t.root).flatMap (importsOf t)).reverse.lookup name

/-! ### Type expressions -/

/-- A node is a type expression that denotes a type, in a file of a package. -/
inductive Denotes (t : Tree) (package : Option String) : Nat → GoType → Prop
  | error {id : Nat} : t.kind id = .ident "error" → Denotes t package id .error
  | basic {id : Nat} {name : String} : t.kind id = .ident name → name ≠ "error" →
      name ∈ basicTypes → Denotes t package id (.basic name)
  | declared {id : Nat} {name : String} : t.kind id = .ident name → name ≠ "error" →
      name ∉ basicTypes → Denotes t package id (.named package name)
  | imported {id operand field : Nat} {qualifier name : String} :
      t.kind id = .selectorExpr operand field → t.ident? operand = some qualifier →
      t.ident? field = some name →
      Denotes t package id (.named (some ((importPath? t qualifier).getD qualifier)) name)
  | pointer {id elem : Nat} {T : GoType} : t.kind id = .pointerType elem →
      Denotes t package elem T → Denotes t package id (.pointer T)
  | slice {id elem : Nat} {T : GoType} : t.kind id = .other "slice_type" →
      (t.children id).head? = some elem → Denotes t package elem T →
      Denotes t package id (.slice T)
  | generic {id base : Nat} {T : GoType} : t.kind id = .other "generic_type" →
      (t.children id).head? = some base → Denotes t package base T → Denotes t package id T
  | parenthesized {id inner : Nat} {T : GoType} : t.kind id = .other "parenthesized_type" →
      (t.children id).head? = some inner → Denotes t package inner T → Denotes t package id T

/-- A scope that has the package of a file and its imports. -/
structure Scope.Reads (s : Scope) (t : Tree) (package : Option String) : Prop where
  package : s.package = package
  imports : ∀ name : String, s.imports[name]? = importPath? t name

section Types

variable {t : Tree} {package : Option String} {s s' : Scope} {id : Nat} {T : GoType}

private theorem denotes_of_typeExprUpTo (hs : s.Reads t package) :
    ∀ {depth id : Nat} {T : GoType}, typeExprUpTo t s depth id = some T → Denotes t package id T := by
  intro depth
  induction depth with
  | zero =>
    intro id T h
    cases h
  | succ depth ih =>
    intro id T h
    rw [typeExprUpTo] at h
    split at h
    · rename_i name hkind
      split at h
      · rename_i herror
        obtain rfl := Option.some.inj h
        rw [beq_iff_eq] at herror
        exact .error (herror ▸ hkind)
      · rename_i herror
        rw [beq_iff_eq] at herror
        split at h
        · rename_i hbasic
          obtain rfl := Option.some.inj h
          exact .basic hkind herror (List.contains_iff_mem.mp hbasic)
        · rename_i hbasic
          obtain rfl := Option.some.inj h
          rw [Scope.localType, hs.package]
          exact .declared hkind herror fun hmem => hbasic (List.contains_iff_mem.mpr hmem)
    · rename_i operand field hkind
      obtain ⟨qualifier, hqualifier, h⟩ := Option.bind_eq_some_iff.mp h
      obtain ⟨name, hname, h⟩ := Option.bind_eq_some_iff.mp h
      obtain rfl := Option.some.inj h
      rw [Std.TreeMap.getD_eq_getD_getElem?, hs.imports]
      exact .imported hkind hqualifier hname
    · rename_i elem hkind
      obtain ⟨T, helem, rfl⟩ := Option.map_eq_some_iff.mp h
      exact .pointer hkind (ih helem)
    · rename_i hkind
      obtain ⟨elem, hhead, h⟩ := Option.bind_eq_some_iff.mp h
      obtain ⟨T, helem, h⟩ := Option.bind_eq_some_iff.mp h
      obtain rfl := Option.some.inj h
      exact .slice hkind hhead (ih helem)
    · rename_i hkind
      obtain ⟨base, hhead, hbase⟩ := Option.bind_eq_some_iff.mp h
      exact .generic hkind hhead (ih hbase)
    · rename_i hkind
      obtain ⟨inner, hhead, hinner⟩ := Option.bind_eq_some_iff.mp h
      exact .parenthesized hkind hhead (ih hinner)
    · cases h

/-- The depth that type expressions are looked into is enough: parts come before the whole. -/
theorem Denotes.typeExprUpTo_eq (hs : s.Reads t package)
    (hrefs : ∀ id, (t.kind id).refs ⊆ t.children id) (h : Denotes t package id T) :
    ∀ {depth : Nat}, id < depth → typeExprUpTo t s depth id = some T := by
  have hhead : ∀ {id child depth : Nat}, id < depth + 1 → (t.children id).head? = some child →
      child < depth := fun hid hchild =>
    Nat.lt_of_lt_of_le (Tree.lt_of_mem_children (List.mem_of_mem_head? hchild))
      (Nat.le_of_lt_succ hid)
  induction h with
  | error hkind =>
    rintro (_ | depth) hid
    · cases hid
    · simp [typeExprUpTo, hkind]
  | basic hkind herror hbasic =>
    rintro (_ | depth) hid
    · cases hid
    · simp [typeExprUpTo, hkind, herror, hbasic]
  | declared hkind herror hbasic =>
    rintro (_ | depth) hid
    · cases hid
    · simp [typeExprUpTo, hkind, herror, hbasic, Scope.localType, hs.package]
  | imported hkind hqualifier hname =>
    rintro (_ | depth) hid
    · cases hid
    · simp [typeExprUpTo, hkind, hqualifier, hname, Std.TreeMap.getD_eq_getD_getElem?, hs.imports]
  | @pointer id elem T hkind _ ih =>
    rintro (_ | depth) hid
    · cases hid
    · have hchild : elem ∈ t.children id := hrefs id (by rw [hkind]; exact List.mem_cons_self)
      have helem : elem < depth :=
        Nat.lt_of_lt_of_le (Tree.lt_of_mem_children hchild) (Nat.le_of_lt_succ hid)
      simp [typeExprUpTo, hkind, ih helem]
  | slice hkind hfirst _ ih =>
    rintro (_ | depth) hid
    · cases hid
    · simp [typeExprUpTo, hkind, hfirst, ih (hhead hid hfirst)]
  | generic hkind hfirst _ ih =>
    rintro (_ | depth) hid
    · cases hid
    · simp [typeExprUpTo, hkind, hfirst, ih (hhead hid hfirst)]
  | parenthesized hkind hfirst _ ih =>
    rintro (_ | depth) hid
    · cases hid
    · simp [typeExprUpTo, hkind, hfirst, ih (hhead hid hfirst)]

theorem Denotes.lt_size (h : Denotes t package id T) : id < t.size := by
  refine Nat.lt_of_not_le fun hsize => ?_
  have hfile := Tree.kind_eq_file_of_size_le hsize
  cases h <;> simp_all

/-- A scope that reads a file makes of a type expression what it denotes. -/
theorem Scope.Reads.typeExpr_eq_some_iff (hs : s.Reads t package)
    (hrefs : ∀ id, (t.kind id).refs ⊆ t.children id) :
    typeExpr t s id = some T ↔ Denotes t package id T :=
  ⟨denotes_of_typeExprUpTo hs, fun h => h.typeExprUpTo_eq hs hrefs (Nat.lt_succ_of_lt h.lt_size)⟩

theorem Scope.Reads.typeExpr_congr (hs : s.Reads t package) (hs' : s'.Reads t package)
    (hrefs : ∀ id, (t.kind id).refs ⊆ t.children id) : typeExpr t s = typeExpr t s' := by
  funext id
  refine Option.ext fun T => ?_
  rw [hs.typeExpr_eq_some_iff hrefs, hs'.typeExpr_eq_some_iff hrefs]

/-- A type expression denotes one type only. -/
theorem Scope.Reads.denotes_unique (hs : s.Reads t package)
    (hrefs : ∀ id, (t.kind id).refs ⊆ t.children id) {other : GoType}
    (h : Denotes t package id T) (hother : Denotes t package id other) : T = other :=
  Option.some.inj (((hs.typeExpr_eq_some_iff hrefs).mpr h).symm.trans
    ((hs.typeExpr_eq_some_iff hrefs).mpr hother))

end Types

/-! ### Fields of structs -/

def IsEntry (t : Tree) (name : String) (entry : Nat) : Prop :=
  ∃ decl ∈ t.children t.root, t.kind decl = .typeDecl ∧ ∃ spec ∈ t.children decl,
    ∃ word type fields, t.kind spec = .typeSpec word type ∧ t.ident? word = some name ∧
      t.kind type = .structType fields ∧ entry ∈ t.children fields

/-- A struct that the file declares under a name has a member of a type: a field with a name
whose recorded type it is, or an embedded type that the member is called by. -/
def HasMember (t : Tree) (package : Option String) (facts : FactTable) (name member : String)
    (T : GoType) : Prop :=
  ∃ entry names type tag, IsEntry t name entry ∧ t.kind entry = .field names type tag ∧
    Denotes t package type T ∧
      ((∃ field ∈ names, t.ident? field = some member ∧ facts.typeOf? field = some T) ∨
        names = [] ∧ T.name? = some member)

/-- What a scope says of the fields of structs is recorded of them. -/
def Scope.FieldsRecorded (s : Scope) (t : Tree) (package : Option String) (facts : FactTable) :
    Prop :=
  ∀ name member T, (s.structFields.getD name ∅)[member]? = some T →
    HasMember t package facts name member T

section Fields

variable {t : Tree} {package : Option String} {s : Scope} {facts : FactTable} {name member : String}
  {T : GoType}

/-- A struct loses no member to what happens elsewhere. -/
theorem HasMember.mono {facts' : FactTable} (h : HasMember t package facts name member T)
    (hkeep : ∀ entry names type tag, IsEntry t name entry → t.kind entry = .field names type tag →
      Denotes t package type T → ∀ field ∈ names, facts.types[field]? = some T →
        facts'.types[field]? = some T) :
    HasMember t package facts' name member T := by
  obtain ⟨entry, names, type, tag, hentry, hkind, hdenotes, hmember⟩ := h
  refine ⟨entry, names, type, tag, hentry, hkind, hdenotes, hmember.imp_left ?_⟩
  rintro ⟨field, hfield, hname, hrecorded⟩
  exact ⟨field, hfield, hname, hkeep entry names type tag hentry hkind hdenotes field hfield hrecorded⟩

variable (hrefs : ∀ id, (t.kind id).refs ⊆ t.children id)

include hrefs

theorem IsEntry.field_below {entry : Nat} (h : IsEntry t name entry) {names : List Nat} {type : Nat}
    {tag : Option String} (hkind : t.kind entry = .field names type tag) {field : Nat}
    (hfield : field ∈ names) :
    ∃ decl ∈ t.children t.root, t.kind decl = .typeDecl ∧ field ∈ t.preorder decl := by
  obtain ⟨decl, hdecl, hdeclKind, spec, hspec, word, struct, fields, hspecKind, -, hstruct, hentry⟩ := h
  refine ⟨decl, hdecl, hdeclKind, Tree.mem_preorder_iff.mpr ?_⟩
  have hself : t.Below decl decl := .refl
  have hstructChild : struct ∈ t.children spec := hrefs spec (by
    rw [hspecKind]
    exact List.mem_cons_of_mem _ List.mem_cons_self)
  have hfields : fields ∈ t.children struct := hrefs struct (by
    rw [hstruct]
    exact List.mem_cons_self)
  have hfieldChild : field ∈ t.children entry := hrefs entry (by
    rw [hkind]
    exact List.mem_append_left _ hfield)
  exact ((((hself.tail hspec).tail hstructChild).tail hfields).tail hentry).tail hfieldChild

/-- Outside of declarations of types nothing happens to fields of structs. -/
theorem Scope.FieldsRecorded.agree (h : s.FieldsRecorded t package facts) {decl : Nat}
    (hdecl : decl ∈ t.children t.root) (hkind : t.kind decl ≠ .typeDecl) {m m' : Memory}
    (hagree : AgreeOutside (· ∈ t.preorder decl) m m') (hm' : m'.facts = facts) :
    s.FieldsRecorded t package m.facts := by
  subst hm'
  refine fun name member T hmember => (h name member T hmember).mono ?_
  intro entry names type tag hentry hentryKind _ field hfield hrecorded
  obtain ⟨home, hhome, hhomeKind, hbelow⟩ := hentry.field_below hrefs hentryKind hfield
  have hne : home ≠ decl := by
    rintro rfl
    exact hkind hhomeKind
  rw [hagree.types field (Tree.not_mem_preorder_of_ne hhome hdecl hne hbelow), hrecorded]

end Fields

end Lintel.Go
