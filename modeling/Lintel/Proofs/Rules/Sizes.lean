import Lintel.Proofs.Go.Linked
import Lintel.Proofs.Rules.Declarations
import Lintel.Proofs.Rules.Style

/-!
# Sizes of functions and types

Five things are counted: the statements, parameters and results of declared functions, the fields of
declared structs, and the methods of declared interfaces. Each of them has a limit of its own, and of
each declaration everything is reported once that is above its limit.
-/

namespace Lintel

open Lintel.Text

/-! ### Measures -/

inductive Aspect where
  | statements
  | params
  | results
  | fields
  | methods
  deriving DecidableEq

def StyleLimits.most (limits : StyleLimits) : Aspect → Nat
  | .statements => limits.statements
  | .params => limits.params
  | .results => limits.results
  | .fields => limits.fields
  | .methods => limits.methods

/-- How much of something a declaration has. The place is the node at which this is reported. -/
structure Measure where
  aspect : Aspect
  declaration : Nat
  place : Nat
  name : String
  count : Nat
  deriving DecidableEq

/-- What is counted of a file. Statements are the nodes right in a body, whatever they contain, and
methods are the specifications of methods right in an interface. Parameters, results and fields are
counted one for every name, and one for an entry without names. -/
inductive Measured (t : Tree) : Measure → Prop
  | statements {func body : Nat} {name : String} {parts : FuncParts} : DeclaresFunc t func name →
      t.funcParts? func = some parts → parts.body = some body →
      Measured t ⟨.statements, func, func, name, (t.children body).length⟩
  | params {func : Nat} {name : String} {parts : FuncParts} : DeclaresFunc t func name →
      t.funcParts? func = some parts →
      Measured t ⟨.params, func, func, name, (t.members parts.params).length⟩
  | results {func : Nat} {name : String} : DeclaresFunc t func name →
      Measured t ⟨.results, func, func, name, (t.results func).length⟩
  | fields {decl : TypeDecl} {fields : Nat} : DeclaresType t decl →
      t.kind decl.type = .structType fields →
      Measured t ⟨.fields, decl.spec, decl.nameNode, decl.name, (t.members fields).length⟩
  | methods {decl : TypeDecl} {elems : List Nat} : DeclaresType t decl →
      t.kind decl.type = .interfaceType elems →
      Measured t ⟨.methods, decl.spec, decl.nameNode, decl.name,
        elems.countP fun elem => t.tag elem == .methodSpec⟩

def funcMeasures (t : Tree) (func : Nat × String) : List Measure :=
  match t.funcParts? func.1 with
  | none => []
  | some parts =>
    (parts.body.toList.map fun body =>
      ⟨.statements, func.1, func.1, func.2, (t.children body).length⟩) ++
    [⟨.params, func.1, func.1, func.2, (t.members parts.params).length⟩,
      ⟨.results, func.1, func.1, func.2, (t.results func.1).length⟩]

def typeMeasures (t : Tree) (decl : TypeDecl) : List Measure :=
  match t.kind decl.type with
  | .structType fields =>
    [⟨.fields, decl.spec, decl.nameNode, decl.name, (t.members fields).length⟩]
  | .interfaceType elems =>
    [⟨.methods, decl.spec, decl.nameNode, decl.name,
      elems.countP fun elem => t.tag elem == .methodSpec⟩]
  | _ => []

/-- What is counted of a file: of functions, then of structs, then of interfaces. -/
def measures (t : Tree) (decls : Declarations) : List Measure :=
  (declaredFuncs t).flatMap (funcMeasures t) ++ decls.structs.flatMap (typeMeasures t)
    ++ decls.interfaces.flatMap (typeMeasures t)

def Measure.key (m : Measure) : Aspect × Nat :=
  (m.aspect, m.declaration)

section Measures

variable {t : Tree} {decls : Declarations} {decl : TypeDecl} {m : Measure}

theorem DeclaresFunc.exists_parts {func : Nat} {name : String} (h : DeclaresFunc t func name) :
    ∃ parts, t.funcParts? func = some parts := by
  obtain ⟨parts, -, hkind, -⟩ := h
  exact ⟨parts, by rw [Tree.funcParts?, hkind]; rfl⟩

private theorem measured_of_mem_funcMeasures {func : Nat × String}
    (hfunc : DeclaresFunc t func.1 func.2) (hm : m ∈ funcMeasures t func) : Measured t m := by
  obtain ⟨parts, hparts⟩ := hfunc.exists_parts
  simp only [funcMeasures, hparts, List.mem_append, List.mem_map, Option.mem_toList, List.mem_cons,
    List.not_mem_nil, or_false] at hm
  rcases hm with ⟨body, hbody, rfl⟩ | rfl | rfl
  · exact .statements hfunc hparts hbody
  · exact .params hfunc hparts
  · exact .results hfunc

private theorem measured_of_mem_typeMeasures (hdecl : DeclaresType t decl)
    (hm : m ∈ typeMeasures t decl) :
    Measured t m := by
  unfold typeMeasures at hm
  split at hm
  · rename_i fields hkind
    rw [List.mem_singleton.mp hm]
    exact .fields hdecl hkind
  · rename_i elems hkind
    rw [List.mem_singleton.mp hm]
    exact .methods hdecl hkind
  · cases hm

private theorem mem_measures_iff (h : t.Grounded)
    (hdecls : Declarations.ofIndex t (.ofTree t) = .ok decls) :
    m ∈ measures t decls ↔ Measured t m := by
  simp only [measures, List.mem_append, List.mem_flatMap, mem_structs_iff h hdecls,
    mem_interfaces_iff h hdecls]
  constructor
  · rintro ((⟨func, hfunc, hm⟩ | ⟨decl, ⟨hdecl, -⟩, hm⟩) | ⟨decl, ⟨hdecl, -⟩, hm⟩)
    · exact measured_of_mem_funcMeasures (mem_declaredFuncs_iff.mp hfunc) hm
    · exact measured_of_mem_typeMeasures hdecl hm
    · exact measured_of_mem_typeMeasures hdecl hm
  · intro hm
    cases hm with
    | statements hfunc hparts hbody =>
      exact .inl (.inl ⟨_, mem_declaredFuncs_iff.mpr hfunc, by simp [funcMeasures, hparts, hbody]⟩)
    | params hfunc hparts =>
      exact .inl (.inl ⟨_, mem_declaredFuncs_iff.mpr hfunc, by simp [funcMeasures, hparts]⟩)
    | results hfunc =>
      obtain ⟨parts, hparts⟩ := hfunc.exists_parts
      exact .inl (.inl ⟨_, mem_declaredFuncs_iff.mpr hfunc, by simp [funcMeasures, hparts]⟩)
    | fields hdecl hkind =>
      exact .inl (.inr ⟨_, ⟨hdecl, _, hkind⟩, by simp [typeMeasures, hkind]⟩)
    | methods hdecl hkind =>
      exact .inr ⟨_, ⟨hdecl, _, hkind⟩, by simp [typeMeasures, hkind]⟩

/-- Blocks without repetitions that belong to different owners make a list without repetitions. -/
theorem nodup_flatMap_of_owner {α β : Type} {f : α → List β} (owner : α → Nat) (ownerOf : β → Nat)
    {as : List α} (has : (as.map owner).Nodup) (hblock : ∀ a ∈ as, (f a).Nodup)
    (howner : ∀ a, ∀ b ∈ f a, ownerOf b = owner a) : (as.flatMap f).Nodup := by
  refine List.nodup_flatMap.mpr ⟨hblock, (List.pairwise_map.mp has).imp fun hne b hb hb' => hne ?_⟩
  rw [← howner _ b hb, ← howner _ b hb']

private theorem key_of_mem_funcMeasures {func : Nat × String} (hm : m ∈ funcMeasures t func) :
    m.key.2 = func.1 ∧ m.key.1 ∈ [Aspect.statements, .params, .results] := by
  unfold funcMeasures at hm
  split at hm
  · cases hm
  · simp only [List.mem_append, List.mem_map, List.mem_cons, List.not_mem_nil, or_false] at hm
    rcases hm with ⟨body, -, rfl⟩ | rfl | rfl <;> simp [Measure.key]

private theorem nodup_funcKeys (t : Tree) :
    (((declaredFuncs t).flatMap (funcMeasures t)).map Measure.key).Nodup := by
  have howner : ((declaredFuncs t).map (·.1)).Nodup :=
    (declaredFuncs_sublist t).nodup (Tree.nodup_preorder_root t)
  rw [List.map_flatMap]
  refine nodup_flatMap_of_owner (·.1) (·.2) howner (fun func _ => ?_) fun func key hkey => ?_
  · unfold funcMeasures
    split
    · exact List.nodup_nil
    · rename_i parts hparts
      cases parts.body <;> simp [Measure.key]
  · obtain ⟨m, hm, rfl⟩ := List.mem_map.mp hkey
    exact (key_of_mem_funcMeasures hm).1

private theorem spec_of_mem_typeMeasures (hm : m ∈ typeMeasures t decl) : m.key.2 = decl.spec := by
  unfold typeMeasures at hm
  split at hm
  · rw [List.mem_singleton.mp hm]
    rfl
  · rw [List.mem_singleton.mp hm]
    rfl
  · cases hm

private theorem nodup_typeKeys {types : List TypeDecl} (htypes : (types.map (·.spec)).Nodup) :
    ((types.flatMap (typeMeasures t)).map Measure.key).Nodup := by
  rw [List.map_flatMap]
  refine nodup_flatMap_of_owner (·.spec) (·.2) htypes (fun decl _ => ?_) fun decl key hkey => ?_
  · unfold typeMeasures
    split
    · exact List.nodup_singleton _
    · exact List.nodup_singleton _
    · exact List.nodup_nil
  · obtain ⟨m, hm, rfl⟩ := List.mem_map.mp hkey
    exact spec_of_mem_typeMeasures hm

private theorem aspect_of_mem_typeKeys {types : List TypeDecl} {aspect : Aspect}
    (h : ∀ decl ∈ types, ∀ m ∈ typeMeasures t decl, m.aspect = aspect) :
    ∀ key ∈ (types.flatMap (typeMeasures t)).map Measure.key, key.1 = aspect := by
  intro key hkey
  obtain ⟨m, hm, rfl⟩ := List.mem_map.mp hkey
  obtain ⟨decl, hdecl, hm⟩ := List.mem_flatMap.mp hm
  exact h decl hdecl m hm

private theorem nodup_measures (h : t.Grounded)
    (hdecls : Declarations.ofIndex t (.ofTree t) = .ok decls) :
    ((measures t decls).map Measure.key).Nodup := by
  have hspecs : (decls.types.map (·.spec)).Nodup :=
    (types_sublist h hdecls).nodup (Tree.nodup_preorder_root t)
  have hstructs : ∀ key ∈ (decls.structs.flatMap (typeMeasures t)).map Measure.key,
      key.1 = .fields := by
    refine aspect_of_mem_typeKeys fun decl hdecl m hm => ?_
    obtain ⟨-, fields, hkind⟩ := (mem_structs_iff h hdecls).mp hdecl
    simp only [typeMeasures, hkind, List.mem_singleton] at hm
    rw [hm]
  have hinterfaces : ∀ key ∈ (decls.interfaces.flatMap (typeMeasures t)).map Measure.key,
      key.1 = .methods := by
    refine aspect_of_mem_typeKeys fun decl hdecl m hm => ?_
    obtain ⟨-, elems, hkind⟩ := (mem_interfaces_iff h hdecls).mp hdecl
    simp only [typeMeasures, hkind, List.mem_singleton] at hm
    rw [hm]
  have hfuncs : ∀ key ∈ ((declaredFuncs t).flatMap (funcMeasures t)).map Measure.key,
      key.1 ∈ [Aspect.statements, .params, .results] := by
    intro key hkey
    obtain ⟨m, hm, rfl⟩ := List.mem_map.mp hkey
    obtain ⟨func, -, hm⟩ := List.mem_flatMap.mp hm
    exact (key_of_mem_funcMeasures hm).2
  rw [measures, List.map_append, List.map_append, List.nodup_append, List.nodup_append]
  refine ⟨⟨nodup_funcKeys t, nodup_typeKeys (hspecs.sublist (List.filter_sublist.map _)), ?_⟩,
    nodup_typeKeys (hspecs.sublist (List.filter_sublist.map _)), ?_⟩
  · rintro key hkey other hother rfl
    have hfunc := hfuncs key hkey
    rw [hstructs key hother] at hfunc
    exact absurd hfunc (by decide)
  · rintro key hkey other hother rfl
    have hmethods := hinterfaces key hother
    rcases List.mem_append.mp hkey with hkey | hkey
    · have hfunc := hfuncs key hkey
      rw [hmethods] at hfunc
      exact absurd hfunc (by decide)
    · rw [hstructs key hkey] at hmethods
      cases hmethods

end Measures

/-! ### Reports -/

def Measure.message (limits : StyleLimits) (m : Measure) : String :=
  match m.aspect with
  | .statements => tooManyText s!"function `{m.name}`" "statements"
  | .params => tooManyText s!"function `{m.name}`" "parameters"
  | .results => tooManyText s!"function `{m.name}`" "results"
  | .fields => tooManyText s!"struct `{m.name}`" "fields"
  | .methods =>
    s!"interface `{m.name}` declares {m.count} methods (max: {limits.most m.aspect})"
where
  tooManyText (subject what : String) : String :=
    s!"{subject} has {m.count} {what} (max: {limits.most m.aspect})"

/-- With what a message begins, by what is counted. -/
def Aspect.head : Aspect → String
  | .fields => "struct `"
  | .methods => "interface `"
  | _ => "function `"

theorem Aspect.head_mem_sizeWords (aspect : Aspect) : aspect.head ∈ sizeWords := by
  cases aspect <;> simp [Aspect.head, sizeWords]

def sizeFinding (limits : StyleLimits) (pass : Pass Published) (m : Measure) : Diagnostic :=
  pass.finding (pass.tree.span m.place) (m.message limits)

def StyleLimits.exceededBy (limits : StyleLimits) (m : Measure) : Bool :=
  limits.most m.aspect < m.count

private theorem mem_filter_exceededBy_iff {t : Tree} {limits : StyleLimits} {decls : Declarations}
    {m : Measure} (h : t.Grounded) (hdecls : Declarations.ofIndex t (.ofTree t) = .ok decls) :
    m ∈ (measures t decls).filter limits.exceededBy ↔
      Measured t m ∧ limits.most m.aspect < m.count := by
  rw [List.mem_filter, mem_measures_iff h hdecls, StyleLimits.exceededBy, decide_eq_true_eq]

section Reports

variable {limits : StyleLimits} {pass : Pass Published}

private theorem map_tooMany {m : Measure} {subject what : String}
    (hmessage : m.message limits = s!"{subject} has {m.count} {what} (max: {limits.most m.aspect})") :
    (tooMany subject m.count (limits.most m.aspect) what).map
        (fun message => pass.finding (pass.tree.span m.place) message) =
      ([m].filter limits.exceededBy).map (sizeFinding limits pass) := by
  unfold tooMany StyleLimits.exceededBy
  by_cases hlimit : limits.most m.aspect < m.count
  · simp [hlimit, sizeFinding, hmessage]
  · simp [hlimit]

private theorem checkFunctionSize_eq (h : pass.tree.Grounded) (decl : FuncDecl) :
    checkFunctionSize limits pass decl =
      .ok (((funcMeasures pass.tree (decl.node, decl.name)).filter limits.exceededBy).map
        (sizeFinding limits pass)) := by
  unfold checkFunctionSize funcMeasures
  dsimp only
  cases hparts : pass.tree.funcParts? decl.node with
  | none => rfl
  | some parts =>
    have hrefs := Tree.refs_subset_of_funcParts? hparts
    have hparams : pass.tree.follow parts.params = .ok parts.params :=
      h.follow decl.node (hrefs (by simp [FuncParts.refs]))
    have hresults : pass.tree.followOption parts.results = .ok parts.results := by
      refine h.followOption_eq decl.node fun list hlist => hrefs ?_
      simp [FuncParts.refs, Option.mem_def.mp hlist]
    have hlist : pass.tree.results decl.node = pass.tree.membersOf parts.results := by
      rw [Tree.results, hparts]
      rfl
    have hsizes := @map_tooMany limits pass
      ⟨.params, decl.node, decl.node, decl.name, (pass.tree.members parts.params).length⟩
      s!"function `{decl.name}`" "parameters" rfl
    have hcounts := @map_tooMany limits pass
      ⟨.results, decl.node, decl.node, decl.name, (pass.tree.results decl.node).length⟩
      s!"function `{decl.name}`" "results" rfl
    dsimp only [StyleLimits.most] at hsizes hcounts
    cases hbody : parts.body with
    | none =>
      have hnone : tooMany s!"function `{decl.name}`" 0 limits.statements "statements" = [] := rfl
      simp only [hbody, hparams, hresults, Tree.fieldCount_eq, Tree.membersOf_some, bind, Except.bind,
        pure, Except.pure]
      rw [hnone, List.nil_append, ← hlist, List.map_append, hsizes, hcounts, ← List.map_append,
        ← List.filter_append]
      rfl
    | some body =>
      have hfollow : pass.tree.follow body = .ok body :=
        h.follow decl.node (hrefs (by simp [FuncParts.refs, hbody]))
      have hstatements := @map_tooMany limits pass
        ⟨.statements, decl.node, decl.node, decl.name, (pass.tree.children body).length⟩
        s!"function `{decl.name}`" "statements" rfl
      dsimp only [StyleLimits.most] at hstatements
      simp only [hbody, hparams, hresults, hfollow, Tree.fieldCount_eq, Tree.membersOf_some, bind,
        Except.bind, pure, Except.pure]
      rw [← hlist, List.map_append, List.map_append, hstatements, hsizes, hcounts,
        ← List.map_append, ← List.map_append, ← List.filter_append, ← List.filter_append]
      rfl

@[simp] private theorem beginsWith_sizeFinding (m : Measure) :
    (sizeFinding limits pass m).beginsWith sizeWords = true := by
  refine beginsWith_iff.mpr ⟨m.aspect.head, m.aspect.head_mem_sizeWords, ?_⟩
  simp only [sizeFinding, Pass.finding, Measure.message]
  cases m.aspect with
  | methods =>
    simp only [toString, String.append_assoc]
    exact ⟨_, rfl⟩
  | _ =>
    simp only [Measure.message.tooManyText, toString, String.append_assoc]
    exact ⟨_, rfl⟩

private theorem filter_sizeFindings (ms : List Measure) :
    (ms.map (sizeFinding limits pass)).filter (Diagnostic.beginsWith sizeWords) =
      ms.map (sizeFinding limits pass) := by
  refine List.filter_eq_self.mpr fun d hd => ?_
  obtain ⟨m, -, rfl⟩ := List.mem_map.mp hd
  exact beginsWith_sizeFinding m

private theorem filter_checkStruct (h : pass.tree.Grounded) {decl : TypeDecl} {fields : Nat}
    (hkind : pass.tree.kind decl.type = .structType fields) :
    Yields (checkStruct limits pass decl) fun ds => ds.filter (Diagnostic.beginsWith sizeWords) =
      ((typeMeasures pass.tree decl).filter limits.exceededBy).map (sizeFinding limits pass) := by
  have hsizes := @map_tooMany limits pass
    ⟨.fields, decl.spec, decl.nameNode, decl.name, (pass.tree.members fields).length⟩
    s!"struct `{decl.name}`" "fields" rfl
  have horder : (checkFieldOrder pass false ((pass.tree.members fields).map (·.1))).filter
      (Diagnostic.beginsWith sizeWords) = [] :=
    filter_beginsWith_eq_nil (checkFieldOrder_words _ _) rfl
  dsimp only [StyleLimits.most] at hsizes
  rw [checkStruct_eq h hkind, typeMeasures, hkind]
  refine .pure ?_
  rw [List.filter_append, horder, List.append_nil, hsizes]
  exact filter_sizeFindings _

private theorem filter_checkInterface (h : pass.tree.Grounded) {decl : TypeDecl} {elems : List Nat}
    (hkind : pass.tree.kind decl.type = .interfaceType elems) :
    Yields (checkInterface limits pass decl) fun ds => ds.filter (Diagnostic.beginsWith sizeWords) =
      ((typeMeasures pass.tree decl).filter limits.exceededBy).map (sizeFinding limits pass) := by
  have hname : ((nameProblem decl.name).map fun problem =>
      pass.finding (pass.tree.span decl.nameNode) problem).filter (Diagnostic.beginsWith sizeWords) =
      [] := by
    refine filter_beginsWith_eq_nil (fun d hd => ?_) (rfl : keepApart nameWords sizeWords = true)
    obtain ⟨problem, hproblem, rfl⟩ := List.mem_map.mp hd
    exact nameProblem_words hproblem
  rw [checkInterface_eq h hkind, typeMeasures, hkind]
  refine .pure ?_
  rw [interfaceProblems, List.map_append, List.filter_append, hname, List.append_nil,
    ← filter_sizeFindings]
  congr 1
  unfold sizeProblem StyleLimits.exceededBy
  by_cases hlimit : limits.methods < elems.countP fun elem => pass.tree.tag elem == .methodSpec
  · simp [hlimit, StyleLimits.most, sizeFinding, Measure.message]
  · simp [hlimit, StyleLimits.most]

/-- The part of a report that is about sizes has a finding for each measure above its limit. -/
theorem StyleReport.sizes (h : pass.tree.Grounded) {decls : Declarations}
    (hdecls : Declarations.ofIndex pass.tree (.ofTree pass.tree) = .ok decls)
    (report : StyleReport limits pass decls) :
    report.diagnostics.filter (Diagnostic.beginsWith sizeWords) =
      ((measures pass.tree decls).filter limits.exceededBy).map (sizeFinding limits pass) := by
  have hfunctions : report.functions = (declaredFuncs pass.tree).flatMap fun func =>
      ((funcMeasures pass.tree func).filter limits.exceededBy).map (sizeFinding limits pass) := by
    have hall := gather_eq_ok_flatMap fun decl (_ : decl ∈ decls.funcs) =>
      @checkFunctionSize_eq limits pass h decl
    rw [← Except.ok.inj (hall.symm.trans report.functions_ok), ← funcs_ofIndex_map hdecls,
      List.flatMap_map]
  have hstructs := filter_of_gather (fun decl hdecl => by
    obtain ⟨-, fields, hkind⟩ := (mem_structs_iff h hdecls).mp hdecl
    exact @filter_checkStruct limits pass h decl fields hkind) report.structs_ok
  have hinterfaces := filter_of_gather (fun decl hdecl => by
    obtain ⟨-, elems, hkind⟩ := (mem_interfaces_iff h hdecls).mp hdecl
    exact @filter_checkInterface limits pass h decl elems hkind) report.interfaces_ok
  rw [report.filter_sizeWords, hfunctions, hstructs, hinterfaces, measures]
  simp only [List.filter_append, List.map_append, List.filter_flatMap, List.map_flatMap]

end Reports

/-- Of every size above its limit there is exactly one finding, and of no other one: of functions,
of structs and of interfaces, in this order. Comments can silence it, and without any all are heard. -/
theorem styleLimits_sizes {pass : Pass Published} (h : pass.tree.Grounded) (limits : StyleLimits)
    (severity : Severity)
    (hsupplied : Supplied pass.tree (styleLimits limits severity).requires pass.results) :
    ∃ (ms : List Measure) (ds : List Diagnostic),
      (styleLimits limits severity).run pass = .ok (.report ds) ∧
      (∀ m, m ∈ ms ↔ Measured pass.tree m ∧ limits.most m.aspect < m.count) ∧
      (ms.map Measure.key).Nodup ∧
      ds.filter (Diagnostic.beginsWith sizeWords) = ms.map (sizeFinding limits pass) ∧
      (pass.heard ds).filter (Diagnostic.beginsWith sizeWords) =
        (ms.filter fun m => pass.hears m.place).map (sizeFinding limits pass) ∧
      (HasNoDirective pass.file.content →
        (pass.heard ds).filter (Diagnostic.beginsWith sizeWords) =
          ms.map (sizeFinding limits pass)) := by
  obtain ⟨decls, report, hdecls, hrun⟩ := exists_styleReport h limits severity hsupplied
  have hsizes := report.sizes h hdecls
  have hheard : (pass.heard report.diagnostics).filter (Diagnostic.beginsWith sizeWords) =
      (((measures pass.tree decls).filter limits.exceededBy).filter fun m => pass.hears m.place).map
        (sizeFinding limits pass) := by
    rw [Pass.filter_heard, hsizes]
    exact Pass.heard_map fun m _ => rfl
  refine ⟨(measures pass.tree decls).filter limits.exceededBy, report.diagnostics, hrun,
    fun m => mem_filter_exceededBy_iff h hdecls,
    (nodup_measures h hdecls).sublist (List.filter_sublist.map _), hsizes, hheard, fun hquiet => ?_⟩
  rw [hheard]
  congr 1
  exact List.filter_eq_self.mpr fun m _ => Pass.hears_of_hasNoDirective hquiet m.place

/-- Names in groups, entries without names, a statement with others in it, and an embedded type. -/
def countedMembers : SourceFile :=
  .ofText "a.go" ("package a\n\ntype T struct \x7b\n\ta, b int\n\tU\n\x7d\n\n" ++
    "type R interface \x7b\n\tU\n\tm()\n\x7d\n\n" ++
    "func f(x, y int, z U) (int, error) \x7b\n\tg(func() \x7b h(); h() \x7d)\n" ++
    "\treturn x, nil\n\x7d\n") ""

def tightLimits : StyleLimits :=
  ⟨1, 3, 0, 2, 1⟩

theorem styleLimits_sizes_countedMembers : ∃ t decls, Go.parse countedMembers = .ok t ∧
    ∃ (ms : List Measure) (ds : List Diagnostic),
      (styleLimits tightLimits).run (stylePass tightLimits t decls) = .ok (.report ds) ∧
      (∀ m, m ∈ ms ↔ Measured t m ∧ tightLimits.most m.aspect < m.count) ∧
      ∀ text, text ∈ (ds.filter (Diagnostic.beginsWith sizeWords)).map (·.message) ↔
        text ∈ ["function `f` has 2 statements (max: 1)", "function `f` has 2 results (max: 0)",
          "struct `T` has 3 fields (max: 2)"] := by
  have hread : ((Go.parse countedMembers).toOption.bind fun t =>
      (Declarations.ofIndex t (.ofTree t)).toOption.map fun decls => decide (
        ((measures t decls).filter tightLimits.exceededBy).map (Measure.message tightLimits) =
          ["function `f` has 2 statements (max: 1)", "function `f` has 2 results (max: 0)",
            "struct `T` has 3 fields (max: 2)"])) = some true := by
    decide +kernel
  obtain ⟨t, hok, hrest⟩ := Option.bind_eq_some_iff.mp hread
  obtain ⟨decls, hindex, hdecide⟩ := Option.map_eq_some_iff.mp hrest
  have hparse : Go.parse countedMembers = .ok t := toOption_eq_some_iff.mp hok
  have hdecls : Declarations.ofIndex t (.ofTree t) = .ok decls := toOption_eq_some_iff.mp hindex
  have hgrounded : (stylePass tightLimits t decls).tree.Grounded := Go.grounded_of_parseWith hparse
  obtain ⟨ms, ds, hds, hmem, -, hall, -⟩ := styleLimits_sizes hgrounded tightLimits .warning
    (supplied_indexResults hdecls (List.Subset.refl _))
  have hcounted : ∀ m, m ∈ ms ↔ m ∈ (measures t decls).filter tightLimits.exceededBy :=
    fun m => (hmem m).trans (mem_filter_exceededBy_iff hgrounded hdecls).symm
  refine ⟨t, decls, hparse, ms, ds, hds, hmem, fun text => ?_⟩
  rw [hall, List.map_map, ← of_decide_eq_true hdecide]
  simp only [List.mem_map, hcounted]
  rfl

end Lintel
