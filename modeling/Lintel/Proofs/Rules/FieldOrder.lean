import Lintel.Proofs.Rules.Declarations
import Lintel.Proofs.Rules.Style
import Lintel.Proofs.Rules.TypeNames

/-!
# Order of fields

Of a declared struct those fields are reported, in order, that are exported but come after one that
is not. The name of an embedded field is that of its type, without star, package and type arguments.
It is read off the source text, where type arguments are left on it, and where a dot in them is
taken for that of a package.
-/

namespace Lintel

open Lintel.Text

/-! ### Latecomers -/

/-- The entries of a class that come after one that is not of the class. -/
def latecomers {α : Type} (p : α → Bool) (as : List α) : List α :=
  (as.dropWhile p).filter p

section Latecomers

variable {α β : Type} {p : α → Bool} {as : List α} {a : α}

private theorem latecomers_cons_of_pos (ha : p a = true) :
    latecomers p (a :: as) = latecomers p as := by
  rw [latecomers, List.dropWhile_cons_of_pos ha, latecomers]

private theorem latecomers_cons_of_neg (ha : ¬ p a = true) :
    latecomers p (a :: as) = as.filter p := by
  rw [latecomers, List.dropWhile_cons_of_neg ha, List.filter_cons_of_neg ha]

private theorem mem_latecomers_iff : a ∈ latecomers p as ↔
    ∃ before after, as = before ++ a :: after ∧ p a = true ∧ ∃ b ∈ before, p b = false := by
  induction as with
  | nil => simp [latecomers]
  | cons x xs ih =>
    by_cases hx : p x = true
    · rw [latecomers_cons_of_pos hx, ih]
      constructor
      · rintro ⟨before, after, rfl, ha, b, hb, hpb⟩
        exact ⟨x :: before, after, rfl, ha, b, List.mem_cons_of_mem x hb, hpb⟩
      · rintro ⟨before, after, heq, ha, b, hb, hpb⟩
        cases before with
        | nil => cases hb
        | cons y before =>
          obtain ⟨rfl, rfl⟩ := List.cons.inj heq
          rcases List.mem_cons.mp hb with rfl | hb
          · exact absurd hx (by simp [hpb])
          · exact ⟨before, after, rfl, ha, b, hb, hpb⟩
    · rw [latecomers_cons_of_neg hx, List.mem_filter]
      constructor
      · rintro ⟨hmem, ha⟩
        obtain ⟨before, after, rfl⟩ := List.append_of_mem hmem
        exact ⟨x :: before, after, rfl, ha, x, List.mem_cons_self, by simpa using hx⟩
      · rintro ⟨before, after, heq, ha, b, hb, -⟩
        cases before with
        | nil => cases hb
        | cons y before =>
          obtain ⟨rfl, rfl⟩ := List.cons.inj heq
          exact ⟨by simp, ha⟩

private theorem latecomers_sublist (p : α → Bool) (as : List α) : (latecomers p as).Sublist as :=
  List.filter_sublist.trans (List.dropWhile_sublist p)

private theorem latecomers_map (f : β → α) (bs : List β) :
    latecomers p (bs.map f) = (latecomers (p ∘ f) bs).map f := by
  rw [latecomers, List.dropWhile_map, List.filter_map, latecomers]

end Latecomers

/-! ### Names of fields -/

/-- A field has a name: its own one or, if it is embedded, that of its type, be it instantiated or
behind a star. -/
inductive FieldNamed (t : Tree) : Nat → String → Prop
  | name {node : Nat} {name : String} (hname : TypeNamed t node name) : FieldNamed t node name
  | generic {node base : Nat} {args : List Nat} {name : String}
      (hkind : t.kind node = .other "generic_type") (hchildren : t.children node = base :: args)
      (hbase : TypeNamed t base name) : FieldNamed t node name
  | pointer {node elem : Nat} {name : String} (hkind : t.kind node = .pointerType elem)
      (helem : FieldNamed t elem name) : FieldNamed t node name

/-- A field is written without gaps and without dots in type arguments. With its name what is shown
of it: the name, and behind it the type arguments as they are written. -/
inductive FieldWritten (t : Tree) : Nat → String → String → Prop
  | name {node : Nat} {name : String} (hname : NameWritten t node name) :
      FieldWritten t node name name
  | generic {node base : Nat} {args : List Nat} {name arguments : String}
      (hkind : t.kind node = .other "generic_type") (hchildren : t.children node = base :: args)
      (hbase : NameWritten t base name) (htext : t.text node = t.text base ++ arguments)
      (hnoDot : '.' ∉ arguments.toList) : FieldWritten t node name (name ++ arguments)
  | pointer {node elem : Nat} {name shown : String} (hkind : t.kind node = .pointerType elem)
      (htext : t.text node = "*" ++ t.text elem) (helem : FieldWritten t elem name shown) :
      FieldWritten t node name shown

section Names

variable {t : Tree} {node : Nat} {name shown : String}

theorem FieldWritten.fieldNamed (h : FieldWritten t node name shown) : FieldNamed t node name := by
  induction h with
  | name hname => exact .name hname.typeNamed
  | generic hkind hchildren hbase => exact .generic hkind hchildren hbase.typeNamed
  | pointer hkind _ _ ih => exact .pointer hkind ih

@[simp] private theorem shownFieldName_star (text : String) :
    shownFieldName ("*" ++ text) = shownFieldName text := by
  have hstar : "*".toList = ['*'] := rfl
  simp [shownFieldName, trimLeft, hstar]

/-- What is shown of a name with something behind it that holds no dot. -/
theorem NameWritten.shown_append (h : NameWritten t node name) {arguments : String}
    (hnoDot : '.' ∉ arguments.toList) :
    shownFieldName (t.text node ++ arguments) = name ++ arguments := by
  have hword := h.isWord
  have hplain : '.' ∉ (name ++ arguments).toList := by
    rw [String.toList_append, List.mem_append]
    exact fun hmem => hmem.elim hword.noDot hnoDot
  have hdot : ".".toList = ['.'] := rfl
  cases h with
  | word hkind _ htext =>
    obtain ⟨c, cs, hname⟩ := List.exists_cons_of_ne_nil
      fun hnil => hword.ne_empty (String.toList_eq_nil_iff.mp hnil)
    have hstar : (c == '*') = false := by
      rw [beq_eq_false_iff_ne]
      rintro rfl
      exact hword.noStar (by simp [hname])
    have htrim : trimLeft (· == '*') (name ++ arguments).toList = (name ++ arguments).toList := by
      simp [trimLeft, hname, hstar]
    rw [htext, shownFieldName, htrim]
    exact lastPiece_dot_eq_iff.mpr ⟨hplain, .inl rfl⟩
  | @qualified package field hkind hname _ htext =>
    have htrim : trimLeft (· == '*') (t.text package ++ "." ++ name ++ arguments).toList =
        (String.ofList ((t.text package).toList.dropWhile (· == '*')) ++ "."
          ++ (name ++ arguments)).toList := by
      simpa [hdot] using trimLeft_append_cons (c := '.') (p := (· == '*')) rfl
    rw [htext, shownFieldName, htrim]
    exact lastPiece_dot_eq_iff.mpr ⟨hplain, .inr ⟨_, rfl⟩⟩

theorem FieldWritten.shown_eq (h : FieldWritten t node name shown) :
    shownFieldName (t.text node) = shown := by
  induction h with
  | name hname =>
    have hall := @NameWritten.shown_append _ _ _ hname "" (by simp)
    rwa [String.append_empty, String.append_empty] at hall
  | generic _ _ hbase htext hnoDot => rw [htext, hbase.shown_append hnoDot]
  | pointer _ htext _ ih => rw [htext, shownFieldName_star, ih]

/-- Type arguments do not change whether a name is exported. -/
theorem isExported_append (hname : name ≠ "") (arguments : String) :
    isExported (name ++ arguments) = isExported name := by
  obtain ⟨c, cs, hcs⟩ := List.exists_cons_of_ne_nil
    fun hnil => hname (String.toList_eq_nil_iff.mp hnil)
  simp [isExported, hcs]

theorem FieldWritten.isExported_eq (h : FieldWritten t node name shown) :
    isExported shown = isExported name := by
  induction h with
  | name _ => rfl
  | generic _ _ hbase _ _ => exact isExported_append hbase.isWord.ne_empty _
  | pointer _ _ _ ih => exact ih

end Names

/-! ### Reports -/

def isExportedField (t : Tree) (node : Nat) : Bool :=
  isExported (shownFieldName (t.text node))

def lateFields (t : Tree) (decl : TypeDecl) : List Nat :=
  match t.kind decl.type with
  | .structType fields => latecomers (isExportedField t) ((t.members fields).map (·.1))
  | _ => []

def orderFinding (pass : Pass Published) (node : Nat) : Diagnostic :=
  let name := shownFieldName (pass.tree.text node)
  pass.finding (pass.tree.span node)
    s!"exported field `{name}` should be declared before unexported fields"

structure WrittenField (t : Tree) where
  node : Nat
  name : String
  shown : String
  written : FieldWritten t node name shown

section Reports

variable {limits : StyleLimits} {pass : Pass Published}

/-- After an unexported field all exported ones are reported. -/
theorem checkFieldOrder_true (nodes : List Nat) : checkFieldOrder pass true nodes =
    (nodes.filter (isExportedField pass.tree)).map (orderFinding pass) := by
  induction nodes with
  | nil => rfl
  | cons node nodes ih =>
    rw [checkFieldOrder, ih, List.filter_cons]
    by_cases hexported : isExportedField pass.tree node = true
    · rw [if_pos hexported]
      exact if_pos hexported
    · rw [if_neg hexported]
      exact if_neg hexported

/-- No field is reported before the first unexported one. -/
theorem checkFieldOrder_false (nodes : List Nat) : checkFieldOrder pass false nodes =
    (latecomers (isExportedField pass.tree) nodes).map (orderFinding pass) := by
  induction nodes with
  | nil => rfl
  | cons node nodes ih =>
    rw [checkFieldOrder, ih, checkFieldOrder_true]
    by_cases hexported : isExportedField pass.tree node = true
    · rw [latecomers_cons_of_pos hexported]
      exact if_pos hexported
    · rw [latecomers_cons_of_neg hexported]
      exact if_neg hexported

private theorem filter_orderWords_checkStruct (h : pass.tree.Grounded) {decl : TypeDecl}
    {fields : Nat} (hkind : pass.tree.kind decl.type = .structType fields) :
    Yields (checkStruct limits pass decl) fun ds => ds.filter (Diagnostic.beginsWith orderWords) =
      (lateFields pass.tree decl).map (orderFinding pass) := by
  have hsizes : ((tooMany s!"struct `{decl.name}`" (pass.tree.members fields).length limits.fields
      "fields").map fun message => pass.finding (pass.tree.span decl.nameNode) message).filter
        (Diagnostic.beginsWith orderWords) = [] := by
    refine filter_beginsWith_eq_nil (fun d hd => ?_) (rfl : keepApart sizeWords orderWords = true)
    have hsubject : s!"struct `{decl.name}`" = "struct `" ++ (decl.name ++ "`") := by
      simp only [toString, String.append_assoc]
    obtain ⟨message, hmessage, rfl⟩ := List.mem_map.mp hd
    exact tooMany_words (List.mem_cons_of_mem _ List.mem_cons_self) hsubject hmessage
  have horder : (checkFieldOrder pass false ((pass.tree.members fields).map (·.1))).filter
      (Diagnostic.beginsWith orderWords) =
        checkFieldOrder pass false ((pass.tree.members fields).map (·.1)) :=
    List.filter_eq_self.mpr (checkFieldOrder_words _ _)
  rw [checkStruct_eq h hkind, lateFields, hkind]
  refine .pure ?_
  rw [List.filter_append, hsizes, List.nil_append, horder, checkFieldOrder_false]

/-- Of fields written without gaps the late ones are told by their names. -/
theorem lateFields_eq {t : Tree} {decl : TypeDecl} {list : Nat}
    (hkind : t.kind decl.type = .structType list) {fields : List (WrittenField t)}
    (hfields : fields.map (·.node) = (t.members list).map (·.1)) :
    lateFields t decl = (latecomers (fun field => isExported field.name) fields).map (·.node) := by
  have hexported : isExportedField t ∘ (·.node) =
      fun field : WrittenField t => isExported field.name := by
    funext field
    rw [Function.comp_apply, isExportedField, field.written.shown_eq, field.written.isExported_eq]
  rw [lateFields, hkind, ← hexported, ← latecomers_map, hfields]

end Reports

/-- Of every declared struct exactly the fields that are exported and come after one that is not are
reported, in order, unless a comment silences the rule there. Where all fields of the struct are
written without gaps and without dots in type arguments, these are the fields whose names are so. -/
theorem styleLimits_fieldOrder {pass : Pass Published} (h : pass.tree.Grounded)
    (limits : StyleLimits) (severity : Severity)
    (hsupplied : Supplied pass.tree (styleLimits limits severity).requires pass.results) :
    ∃ (structs : List TypeDecl) (ds : List Diagnostic),
      (styleLimits limits severity).run pass = .ok (.report ds) ∧
      (∀ decl, decl ∈ structs ↔
        DeclaresType pass.tree decl ∧ ∃ list, pass.tree.kind decl.type = .structType list) ∧
      (structs.map (·.spec)).Nodup ∧
      (structs.map (·.spec)).Sublist (pass.tree.preorder pass.tree.root) ∧
      ds.filter (Diagnostic.beginsWith orderWords) =
        (structs.flatMap (lateFields pass.tree)).map (orderFinding pass) ∧
      (pass.heard ds).filter (Diagnostic.beginsWith orderWords) =
        ((structs.flatMap (lateFields pass.tree)).filter pass.hears).map (orderFinding pass) ∧
      ∀ decl ∈ structs, ∀ list, pass.tree.kind decl.type = .structType list →
        ∀ fields : List (WrittenField pass.tree),
          fields.map (·.node) = (pass.tree.members list).map (·.1) →
            ∃ late : List (WrittenField pass.tree),
              lateFields pass.tree decl = late.map (·.node) ∧ late.Sublist fields ∧
              (∀ field, field ∈ late ↔ ∃ before after, fields = before ++ field :: after ∧
                isExported field.name = true ∧ ∃ f ∈ before, isExported f.name = false) ∧
              ∀ field ∈ fields, FieldNamed pass.tree field.node field.name ∧
                (orderFinding pass field.node).message =
                  s!"exported field `{field.shown}` should be declared before unexported fields" := by
  obtain ⟨decls, report, hdecls, hrun⟩ := exists_styleReport h limits severity hsupplied
  have hplaces : (decls.structs.map (·.spec)).Sublist (pass.tree.preorder pass.tree.root) :=
    (List.filter_sublist.map _).trans (types_sublist h hdecls)
  have horder : report.diagnostics.filter (Diagnostic.beginsWith orderWords) =
      (decls.structs.flatMap (lateFields pass.tree)).map (orderFinding pass) := by
    rw [report.filter_orderWords, List.map_flatMap]
    refine filter_of_gather (fun decl hdecl => ?_) report.structs_ok
    obtain ⟨-, list, hkind⟩ := (mem_structs_iff h hdecls).mp hdecl
    exact filter_orderWords_checkStruct h hkind
  refine ⟨decls.structs, report.diagnostics, hrun, fun decl => mem_structs_iff h hdecls,
    hplaces.nodup (Tree.nodup_preorder_root _), hplaces, horder, ?_, ?_⟩
  · rw [Pass.filter_heard, horder]
    exact Pass.heard_map fun node _ => rfl
  · intro decl _ list hkind fields hfields
    refine ⟨_, lateFields_eq hkind hfields, latecomers_sublist _ _, fun field => mem_latecomers_iff,
      fun field _ => ⟨field.written.fieldNamed, ?_⟩⟩
    simp only [orderFinding, Pass.finding, field.written.shown_eq]

/-- A struct with names in a group, and with embedded types behind a star and with arguments. -/
def mixedFields : SourceFile :=
  .ofText "a.go" ("package a\n\ntype T struct \x7b\n\tx, Y int\n\t*p.Base\n\tList[int]\n" ++
    "\tZ string\n\x7d\n") ""

theorem styleLimits_fieldOrder_mixedFields : ∃ t decls, Go.parse mixedFields = .ok t ∧
    ∃ (structs : List TypeDecl) (ds : List Diagnostic),
      (styleLimits .standard).run (stylePass .standard t decls) = .ok (.report ds) ∧
      (ds.filter (Diagnostic.beginsWith orderWords)).map (·.message) =
        ["exported field `Y` should be declared before unexported fields",
          "exported field `Base` should be declared before unexported fields",
          "exported field `List[int]` should be declared before unexported fields",
          "exported field `Z` should be declared before unexported fields"] ∧
      ∃ decl ∈ structs, ∃ fields late : List (WrittenField t),
        fields.map (·.name) = ["x", "Y", "Base", "List", "Z"] ∧ late.Sublist fields ∧
        lateFields t decl = late.map (·.node) := by
  have hread : ((Go.parse mixedFields).toOption.bind fun t =>
      (Declarations.ofIndex t (.ofTree t)).toOption.bind fun decls =>
        ((styleLimits .standard).run (stylePass .standard t decls)).toOption.map fun outcome =>
          decide ((outcome.reported.filter (Diagnostic.beginsWith orderWords)).map (·.message) =
              ["exported field `Y` should be declared before unexported fields",
                "exported field `Base` should be declared before unexported fields",
                "exported field `List[int]` should be declared before unexported fields",
                "exported field `Z` should be declared before unexported fields"] ∧
            decls.structs.map (·.type) = [22] ∧ t.kind 22 = .structType 21 ∧
            (t.members 21).map (·.1) = [3, 4, 10, 16, 18] ∧
            NameWritten t 3 "x" ∧ NameWritten t 4 "Y" ∧
            (t.kind 10 = .pointerType 9 ∧ t.text 10 = "*" ++ t.text 9 ∧ NameWritten t 9 "Base") ∧
            (t.kind 16 = .other "generic_type" ∧ t.children 16 = [12, 15] ∧
              t.text 16 = t.text 12 ++ "[int]" ∧ NameWritten t 12 "List") ∧
            NameWritten t 18 "Z")) = some true := by
    decide +kernel
  obtain ⟨t, decls, outcome, hparse, hgrounded, hdecls, hrun, hdecide⟩ := exists_of_read hread
  obtain ⟨hmessages, hstructs, hlist, hmembers, hx, hY, ⟨hstar, hstarText, hBase⟩,
    ⟨hgeneric, hchildren, hargs, hList⟩, hZ⟩ := of_decide_eq_true hdecide
  obtain ⟨structs, ds, hds, hmem, -, -, -, -, hwritten⟩ :=
    @styleLimits_fieldOrder (stylePass .standard t decls) hgrounded .standard .warning
      (supplied_indexResults hdecls (List.Subset.refl _))
  obtain rfl := Except.ok.inj (hrun.symm.trans hds)
  obtain ⟨decl, hdecl, htype⟩ := List.map_eq_singleton_iff.mp hstructs
  have hdeclared : decl ∈ structs := (hmem decl).mpr
    ((mem_structs_iff hgrounded hdecls).mp (hdecl ▸ List.mem_singleton_self decl))
  let fields : List (WrittenField t) :=
    [⟨3, "x", "x", .name hx⟩, ⟨4, "Y", "Y", .name hY⟩,
      ⟨10, "Base", "Base", .pointer hstar hstarText (.name hBase)⟩,
      ⟨16, "List", _, .generic hgeneric hchildren hList hargs (by decide)⟩,
      ⟨18, "Z", "Z", .name hZ⟩]
  obtain ⟨late, hlate, hsublist, -⟩ := hwritten decl hdeclared 21 (htype ▸ hlist) fields hmembers.symm
  exact ⟨t, decls, hparse, structs, ds, hds, hmessages, decl, hdeclared, fields, late, rfl, hsublist,
    hlate⟩

/-- An exported field behind an embedded type with an argument of another package. -/
def instanceFirst : SourceFile :=
  .ofText "a.go" "package a\n\ntype T struct \x7b\n\tBox[b.c]\n\tName int\n\x7d\n" ""

/-- All fields of the struct are exported, and yet one of them is reported to come too late. -/
theorem styleLimits_reports_behindInstance : ∃ t decls outcome, Go.parse instanceFirst = .ok t ∧
    (styleLimits .standard).run (stylePass .standard t decls) = .ok outcome ∧
    (∃ decl list box name, DeclaresType t decl ∧ t.kind decl.type = .structType list ∧
      (t.members list).map (·.1) = [box, name] ∧
      FieldNamed t box "Box" ∧ isExported "Box" = true ∧
      FieldNamed t name "Name" ∧ isExported "Name" = true) ∧
    (((stylePass .standard t decls).heard outcome.reported).filter
        (Diagnostic.beginsWith orderWords)).map (·.message) =
      ["exported field `Name` should be declared before unexported fields"] := by
  have hread : ((Go.parse instanceFirst).toOption.bind fun t =>
      (Declarations.ofIndex t (.ofTree t)).toOption.bind fun decls =>
        ((styleLimits .standard).run (stylePass .standard t decls)).toOption.map fun outcome =>
          decide (decls.structs.map (·.type) = [15] ∧ t.kind 15 = .structType 14 ∧
            (t.members 14).map (·.1) = [9, 11] ∧
            t.kind 9 = .other "generic_type" ∧ t.children 9 = [3, 8] ∧ t.kind 3 = .ident "Box" ∧
            t.kind 11 = .ident "Name" ∧
            (((stylePass .standard t decls).heard outcome.reported).filter
              (Diagnostic.beginsWith orderWords)).map (·.message) =
                ["exported field `Name` should be declared before unexported fields"])) =
      some true := by
    decide +kernel
  obtain ⟨t, decls, outcome, hparse, hgrounded, hdecls, hrun, hdecide⟩ := exists_of_read hread
  obtain ⟨hstructs, hlist, hmembers, hinstance, hchildren, hbox, hname, hmessages⟩ :=
    of_decide_eq_true hdecide
  obtain ⟨decl, hdecl, htype⟩ := List.map_eq_singleton_iff.mp hstructs
  have hdeclares : DeclaresType t decl :=
    ((mem_structs_iff hgrounded hdecls).mp (hdecl ▸ List.mem_singleton_self decl)).1
  exact ⟨t, decls, outcome, hparse, hrun, ⟨decl, 14, 9, 11, hdeclares, htype ▸ hlist, hmembers,
    .generic hinstance hchildren (.word hbox), by decide, .name (.word hname), by decide⟩, hmessages⟩

end Lintel
