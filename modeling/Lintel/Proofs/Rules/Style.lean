import Lintel.Go.Frontend
import Lintel.Proofs.Rules.Kinds
import Lintel.Proofs.Rules.Members
import Lintel.Proofs.Rules.Success

/-!
# Parts of a report on style

A report on style is put together from parts: package, imports, functions, structs, interfaces and
names. The words with which the messages of the parts begin keep the kinds of findings apart, so
that what is reported of imports, of sizes and of the order of fields can be read off single parts.
-/

namespace Lintel

open Lintel.Text

/-- With what the messages about the name of a package begin. -/
def packageWords : List String :=
  ["package name `"]

def importWords : List String :=
  [ImportClass.standard, .thirdParty, .internal].map ImportClass.label

def sizeWords : List String :=
  ["function `", "struct `", "interface `"]

def orderWords : List String :=
  ["exported field `"]

def nameWords : List String :=
  ["interface name `", "constant `", "name `"]

/-- A report on style, part by part. -/
structure StyleReport (limits : StyleLimits) (pass : Pass Published) (decls : Declarations) where
  functions : List Diagnostic
  structs : List Diagnostic
  interfaces : List Diagnostic
  names : List Diagnostic
  functions_ok : gather (checkFunctionSize limits pass) decls.funcs = .ok functions
  structs_ok : gather (checkStruct limits pass) decls.structs = .ok structs
  interfaces_ok : gather (checkInterface limits pass) decls.interfaces = .ok interfaces
  names_ok : checkNames pass (.ofTree pass.tree) = .ok names

def StyleReport.diagnostics {limits : StyleLimits} {pass : Pass Published} {decls : Declarations}
    (report : StyleReport limits pass decls) : List Diagnostic :=
  checkPackage pass ++ checkImports pass (.ofTree pass.tree) ++ report.functions ++ report.structs
    ++ report.interfaces ++ report.names

section Words

variable {limits : StyleLimits} {pass : Pass Published}

theorem checkPackage_words : ∀ d ∈ checkPackage pass, d.beginsWith packageWords = true := by
  intro d hd
  obtain ⟨clause, -, hd⟩ := List.mem_flatMap.mp hd
  split at hd
  · split at hd
    · cases hd
    · rw [List.mem_singleton.mp hd]
      apply beginsWith_of_message (List.mem_singleton_self _)
      simp only [Pass.finding, String.append_assoc]
      rfl
  · cases hd

theorem checkImports_words (index : NodeIndex) :
    ∀ d ∈ checkImports pass index, d.beginsWith importWords = true := by
  intro d hd
  obtain ⟨⟨earlier, later⟩, -, hd⟩ := List.mem_flatMap.mp hd
  unfold checkImportPair at hd
  dsimp only at hd
  split at hd
  · rw [List.mem_singleton.mp hd]
    have hlabel : ∀ c : ImportClass, c.label ∈ importWords := by
      intro c
      cases c <;> simp [importWords]
    apply beginsWith_of_message (hlabel (.ofPath later.2 pass.unit.module))
    simp only [Pass.finding, String.append_assoc]
    rfl
  · cases hd

/-- What is said of too large a count begins with what is counted. -/
theorem tooMany_words {subject what head rest message : String} {count most : Nat} {span : Span}
    (hhead : head ∈ sizeWords) (hsubject : subject = head ++ rest)
    (hmessage : message ∈ tooMany subject count most what) :
    (pass.finding span message).beginsWith sizeWords = true := by
  unfold tooMany at hmessage
  split at hmessage
  · rw [List.mem_singleton.mp hmessage, hsubject]
    apply beginsWith_of_message hhead
    simp only [Pass.finding, toString, String.append_assoc]
    rfl
  · cases hmessage

private theorem checkFunctionSize_words (decl : FuncDecl) :
    Yields (checkFunctionSize limits pass decl)
    fun ds => ∀ d ∈ ds, d.beginsWith sizeWords = true := by
  have hsizes : ∀ statements params results,
      ∀ d ∈ (tooMany s!"function `{decl.name}`" statements limits.statements "statements"
        ++ tooMany s!"function `{decl.name}`" params limits.params "parameters"
        ++ tooMany s!"function `{decl.name}`" results limits.results "results").map
          fun message => pass.finding (pass.tree.span decl.node) message,
        d.beginsWith sizeWords = true := by
    intro statements params results d hd
    have hsubject : s!"function `{decl.name}`" = "function `" ++ (decl.name ++ "`") := by
      simp only [toString, String.append_assoc]
    obtain ⟨message, hmessage, rfl⟩ := List.mem_map.mp hd
    simp only [List.mem_append] at hmessage
    rcases hmessage with (hmessage | hmessage) | hmessage <;>
      exact tooMany_words List.mem_cons_self hsubject hmessage
  unfold checkFunctionSize
  dsimp only
  split
  · exact .pure (by simp)
  · split
    · exact .bind fun _ _ => .bind fun _ _ => .bind fun _ _ => .pure (hsizes _ _ _)
    · exact .bind fun _ _ => .bind fun _ _ => .bind fun _ _ => .bind fun _ _ =>
        .pure (hsizes _ _ _)

theorem checkFieldOrder_words (afterHidden : Bool) (nodes : List Nat) :
    ∀ d ∈ checkFieldOrder pass afterHidden nodes, d.beginsWith orderWords = true := by
  induction nodes generalizing afterHidden with
  | nil => simp [checkFieldOrder]
  | cons node nodes ih =>
    intro d hd
    rw [checkFieldOrder] at hd
    split at hd
    · rcases List.mem_append.mp hd with hd | hd
      · split at hd
        · rw [List.mem_singleton.mp hd]
          apply beginsWith_of_message (List.mem_singleton_self _)
          simp only [Pass.finding, String.append_assoc]
          rfl
        · cases hd
      · exact ih afterHidden d hd
    · exact ih true d hd

/-- What is said of a struct is about its size or about the order of its fields. -/
theorem checkStruct_words (decl : TypeDecl) : Yields (checkStruct limits pass decl)
    fun ds => ∀ d ∈ ds, d.beginsWith (sizeWords ++ orderWords) = true := by
  unfold checkStruct
  dsimp only
  split
  · refine .bind fun fields _ => .bind fun names _ => .pure fun d hd => ?_
    rw [Diagnostic.beginsWith, List.any_append, Bool.or_eq_true]
    rcases List.mem_append.mp hd with hsize | horder
    · have hhead : "struct `" ∈ sizeWords := by simp [sizeWords]
      have hsubject : s!"struct `{decl.name}`" = "struct `" ++ (decl.name ++ "`") := by
        simp only [toString, String.append_assoc]
      obtain ⟨message, hmessage, rfl⟩ := List.mem_map.mp hsize
      exact .inl (tooMany_words hhead hsubject hmessage)
    · exact .inr (checkFieldOrder_words false names d horder)
  · exact .pure (by simp)

private theorem sizeProblem_words {name message : String} {methods most : Nat} {span : Span}
    (hmessage : message ∈ sizeProblem name methods most) :
    (pass.finding span message).beginsWith sizeWords = true := by
  unfold sizeProblem at hmessage
  split at hmessage
  · have hhead : "interface `" ∈ sizeWords := by simp [sizeWords]
    rw [List.mem_singleton.mp hmessage]
    apply beginsWith_of_message hhead
    simp only [Pass.finding, String.append_assoc]
    rfl
  · cases hmessage

theorem nameProblem_words {name message : String} {span : Span}
    (hmessage : message ∈ nameProblem name) :
    (pass.finding span message).beginsWith nameWords = true := by
  unfold nameProblem at hmessage
  split at hmessage
  · cases hmessage
  · rw [List.mem_singleton.mp hmessage]
    apply beginsWith_of_message List.mem_cons_self
    simp only [Pass.finding, String.append_assoc]
    rfl

/-- What is said of an interface is about its size or about its name. -/
theorem checkInterface_words (decl : TypeDecl) : Yields (checkInterface limits pass decl)
    fun ds => ∀ d ∈ ds, d.beginsWith (sizeWords ++ nameWords) = true := by
  refine .bind fun methods _ => .pure fun d hd => ?_
  obtain ⟨message, hmessage, rfl⟩ := List.mem_map.mp hd
  rw [Diagnostic.beginsWith, List.any_append, Bool.or_eq_true]
  rcases List.mem_append.mp hmessage with hsize | hname
  · exact .inl (sizeProblem_words hsize)
  · exact .inr (nameProblem_words hname)

private theorem checkConstant_words (node : Nat) :
    ∀ d ∈ checkConstant pass node, d.beginsWith nameWords = true := by
  intro d hd
  unfold checkConstant at hd
  split at hd
  · split at hd
    · have hhead : "constant `" ∈ nameWords := by simp [nameWords]
      rw [List.mem_singleton.mp hd]
      apply beginsWith_of_message hhead
      simp only [Pass.finding, String.append_assoc]
      rfl
    · cases hd
  · cases hd

private theorem checkMixedName_words (node : Nat) :
    ∀ d ∈ checkMixedName pass node, d.beginsWith nameWords = true := by
  intro d hd
  unfold checkMixedName at hd
  split at hd
  · split at hd
    · have hhead : "name `" ∈ nameWords := by simp [nameWords]
      rw [List.mem_singleton.mp hd]
      apply beginsWith_of_message hhead
      simp only [Pass.finding, String.append_assoc]
      rfl
    · cases hd
  · cases hd

private theorem checkNames_words (index : NodeIndex) : Yields (checkNames pass index)
    fun ds => ∀ d ∈ ds, d.beginsWith nameWords = true := by
  refine .bind fun constants _ => .bind fun others _ => .pure fun d hd => ?_
  rcases List.mem_append.mp hd with hd | hd
  · obtain ⟨node, -, hd⟩ := List.mem_flatMap.mp hd
    exact checkConstant_words node d hd
  · obtain ⟨node, -, hd⟩ := List.mem_flatMap.mp hd
    exact checkMixedName_words node d hd

end Words

/-! ### Structs and interfaces -/

section Types

variable {limits : StyleLimits} {pass : Pass Published} (h : pass.tree.Grounded) {decl : TypeDecl}

include h

theorem checkStruct_eq {fields : Nat} (hkind : pass.tree.kind decl.type = .structType fields) :
    checkStruct limits pass decl =
      .ok ((tooMany s!"struct `{decl.name}`" (pass.tree.members fields).length limits.fields
          "fields").map (fun message => pass.finding (pass.tree.span decl.nameNode) message)
        ++ checkFieldOrder pass false ((pass.tree.members fields).map (·.1))) := by
  have hfields : pass.tree.follow fields = .ok fields :=
    h.follow decl.type (by simp [hkind, NodeKind.refs])
  have hnames : gather (fieldNameNodes pass.tree) (pass.tree.children fields) =
      .ok ((pass.tree.members fields).map (·.1)) := by
    rw [gather_eq_ok_flatMap fun entry _ => h.fieldNameNodes_eq entry, Tree.members,
      List.map_flatMap]
  unfold checkStruct
  simp only [hkind, hfields, hnames, Tree.fieldCount_eq, Tree.membersOf_some, bind, Except.bind, pure,
    Except.pure]

theorem checkInterface_eq {elems : List Nat}
    (hkind : pass.tree.kind decl.type = .interfaceType elems) : checkInterface limits pass decl =
      .ok ((interfaceProblems decl.name (elems.countP fun elem => pass.tree.tag elem == .methodSpec)
        limits.methods).map fun problem => pass.finding (pass.tree.span decl.nameNode) problem) := by
  have helems : elems.mapM pass.tree.follow = .ok elems :=
    h.followAll_eq decl.type (by simp [hkind, NodeKind.refs])
  unfold checkInterface methodCount
  simp only [hkind, helems, bind, Except.bind, pure, Except.pure]

end Types

/-! ### Reports -/

section Reports

variable {limits : StyleLimits} {pass : Pass Published} {decls : Declarations}

theorem exists_styleReport (h : pass.tree.Grounded) (limits : StyleLimits) (severity : Severity)
    (hsupplied : Supplied pass.tree (styleLimits limits severity).requires pass.results) :
    ∃ decls, ∃ report : StyleReport limits pass decls,
      Declarations.ofIndex pass.tree (.ofTree pass.tree) = .ok decls ∧
      (styleLimits limits severity).run pass = .ok (.report report.diagnostics) := by
  have hindex : pass.nodeIndex = .ok (.ofTree pass.tree) := hsupplied.nodeIndex List.mem_cons_self
  obtain ⟨decls, hdecls, hpublished⟩ :
      ∃ decls, Declarations.ofIndex pass.tree (.ofTree pass.tree) = .ok decls ∧
        pass.declarations = .ok decls :=
    hsupplied.declarations (List.mem_cons_of_mem _ List.mem_cons_self)
  obtain ⟨functions, hfunctions⟩ := exists_gather fun decl (_ : decl ∈ decls.funcs) =>
    exists_checkFunctionSize h limits decl
  obtain ⟨structs, hstructs⟩ := exists_gather fun decl (_ : decl ∈ decls.structs) =>
    exists_checkStruct h limits decl
  obtain ⟨interfaces, hinterfaces⟩ := exists_gather fun decl (_ : decl ∈ decls.interfaces) =>
    exists_checkInterface h limits decl
  obtain ⟨names, hnames⟩ := exists_checkNames h (.ofTree pass.tree)
  refine ⟨decls, ⟨functions, structs, interfaces, names, hfunctions, hstructs, hinterfaces, hnames⟩,
    hdecls, ?_⟩
  simp [styleLimits, hindex, hpublished, hfunctions, hstructs, hinterfaces, hnames, bind,
    Except.bind, pure, Except.pure, StyleReport.diagnostics]

namespace StyleReport

variable (report : StyleReport limits pass decls)

theorem functions_words : ∀ d ∈ report.functions, d.beginsWith sizeWords = true :=
  gather_forall (fun decl _ => checkFunctionSize_words decl) _ report.functions_ok

private theorem structs_words :
    ∀ d ∈ report.structs, d.beginsWith (sizeWords ++ orderWords) = true :=
  gather_forall (fun decl _ => checkStruct_words decl) _ report.structs_ok

private theorem interfaces_words :
    ∀ d ∈ report.interfaces, d.beginsWith (sizeWords ++ nameWords) = true :=
  gather_forall (fun decl _ => checkInterface_words decl) _ report.interfaces_ok

theorem names_words : ∀ d ∈ report.names, d.beginsWith nameWords = true :=
  checkNames_words (.ofTree pass.tree) _ report.names_ok

theorem filter_sizeWords : report.diagnostics.filter (Diagnostic.beginsWith sizeWords) =
    report.functions ++ report.structs.filter (Diagnostic.beginsWith sizeWords) ++
      report.interfaces.filter (Diagnostic.beginsWith sizeWords) := by
  have hpackage : (checkPackage pass).filter (Diagnostic.beginsWith sizeWords) = [] :=
    filter_beginsWith_eq_nil checkPackage_words rfl
  have himports : (checkImports pass (.ofTree pass.tree)).filter (Diagnostic.beginsWith sizeWords) =
      [] := filter_beginsWith_eq_nil (checkImports_words _) rfl
  have hfunctions : report.functions.filter (Diagnostic.beginsWith sizeWords) = report.functions :=
    List.filter_eq_self.mpr report.functions_words
  have hnames : report.names.filter (Diagnostic.beginsWith sizeWords) = [] :=
    filter_beginsWith_eq_nil report.names_words rfl
  simp only [diagnostics, List.filter_append, hpackage, himports, hfunctions, hnames, List.nil_append,
    List.append_nil]

theorem filter_orderWords : report.diagnostics.filter (Diagnostic.beginsWith orderWords) =
    report.structs.filter (Diagnostic.beginsWith orderWords) := by
  have hpackage : (checkPackage pass).filter (Diagnostic.beginsWith orderWords) = [] :=
    filter_beginsWith_eq_nil checkPackage_words rfl
  have himports : (checkImports pass (.ofTree pass.tree)).filter (Diagnostic.beginsWith orderWords) =
      [] := filter_beginsWith_eq_nil (checkImports_words _) rfl
  have hfunctions : report.functions.filter (Diagnostic.beginsWith orderWords) = [] :=
    filter_beginsWith_eq_nil report.functions_words rfl
  have hinterfaces : report.interfaces.filter (Diagnostic.beginsWith orderWords) = [] :=
    filter_beginsWith_eq_nil report.interfaces_words rfl
  have hnames : report.names.filter (Diagnostic.beginsWith orderWords) = [] :=
    filter_beginsWith_eq_nil report.names_words rfl
  simp only [diagnostics, List.filter_append, hpackage, himports, hfunctions, hinterfaces, hnames,
    List.nil_append, List.append_nil]

theorem filter_importWords : report.diagnostics.filter (Diagnostic.beginsWith importWords) =
    checkImports pass (.ofTree pass.tree) := by
  have hpackage : (checkPackage pass).filter (Diagnostic.beginsWith importWords) = [] :=
    filter_beginsWith_eq_nil checkPackage_words rfl
  have himports : (checkImports pass (.ofTree pass.tree)).filter (Diagnostic.beginsWith importWords) =
      checkImports pass (.ofTree pass.tree) := List.filter_eq_self.mpr (checkImports_words _)
  have hfunctions : report.functions.filter (Diagnostic.beginsWith importWords) = [] :=
    filter_beginsWith_eq_nil report.functions_words rfl
  have hstructs : report.structs.filter (Diagnostic.beginsWith importWords) = [] :=
    filter_beginsWith_eq_nil report.structs_words rfl
  have hinterfaces : report.interfaces.filter (Diagnostic.beginsWith importWords) = [] :=
    filter_beginsWith_eq_nil report.interfaces_words rfl
  have hnames : report.names.filter (Diagnostic.beginsWith importWords) = [] :=
    filter_beginsWith_eq_nil report.names_words rfl
  simp only [diagnostics, List.filter_append, hpackage, himports, hfunctions, hstructs, hinterfaces,
    hnames, List.nil_append, List.append_nil]

end StyleReport

end Reports

def stylePass (limits : StyleLimits) (t : Tree) (decls : Declarations) : Pass Published :=
  ⟨⟨t, Go.resolve t (some "a") [], none⟩, (styleLimits limits).info, indexResults t decls⟩

end Lintel
