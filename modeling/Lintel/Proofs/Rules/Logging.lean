import Lintel.Proofs.Rules.Declarations
import Lintel.Proofs.Rules.Kinds
import Lintel.Proofs.Rules.Members
import Lintel.Proofs.Rules.Success
import Lintel.Proofs.Tree.Pruned

/-!
# Errors that are returned without a log

A function should log an error before it returns one. It returns an error if one of its own returns
yields one, and it logs if some call in its body does, be it in a function literal. Of every
declared function it is reported once if it returns errors and does not log.
-/

namespace Lintel

open Lintel.Text

/-! ### Errors -/

/-- A node is known to be an error. -/
def IsErrorTyped (facts : FactTable) (id : Nat) : Prop :=
  facts.typeOf? id = some .error

/-- A declared result is an error: it is written so, or it is known to be one. -/
def IsErrorResult (t : Tree) (facts : FactTable) (type : Nat) : Prop :=
  t.text type = "error" ∨ IsErrorTyped facts type

/-- A return yields an error, given the types of the declared results, one for each of them, and what
it returns: something that is known to be an error, something in place of a declared error, or one
expression that passes on several results with an error among them. The word for no value is none. -/
inductive YieldsError (t : Tree) (facts : FactTable) (types results : List Nat) : Prop
  | typed {result : Nat} : result ∈ results → t.kind result ≠ .ident "nil" →
      IsErrorTyped facts result → YieldsError t facts types results
  | placed {i type result : Nat} : types[i]? = some type → results[i]? = some result →
      IsErrorResult t facts type → t.kind result ≠ .ident "nil" → YieldsError t facts types results
  | forwarded {type result : Nat} : results = [result] → 1 < types.length → type ∈ types →
      IsErrorResult t facts type → t.kind result ≠ .ident "nil" → YieldsError t facts types results

/-- A call of what a selector selects by a name, with arguments. -/
def CallsSelected (t : Tree) (call : Nat) (name : String) (args : List Nat) : Prop :=
  ∃ callee operand field, t.kind call = .callExpr callee args ∧
    t.kind callee = .selectorExpr operand field ∧ t.kind field = .ident name

/-- A call logs an error: one by the name `Error` that passes something on, or one by the name `Log`
that passes something that is known to be an error. -/
inductive LogsError (t : Tree) (facts : FactTable) (call : Nat) : Prop
  | error {args : List Nat} : CallsSelected t call "Error" args → args ≠ [] → LogsError t facts call
  | log {arg : Nat} {args : List Nat} : CallsSelected t call "Log" args → arg ∈ args →
      IsErrorTyped facts arg → LogsError t facts call

/-- Some return of a body yields an error; those of function literals in it are not its own. -/
def ReturnsError (t : Tree) (facts : FactTable) (func body : Nat) : Prop :=
  ∃ ret results, t.kind ret = .returnStmt results ∧ t.Below body ret ∧
    (∀ literal, t.tag literal = .funcLit → t.Below body literal → ¬ t.Below literal ret) ∧
    YieldsError t facts ((t.results func).map (·.2)) results

/-- A function with a body returns errors, and no call in the body logs one. -/
def ReturnsUnlogged (t : Tree) (facts : FactTable) (func : Nat) : Prop :=
  ∃ parts body, t.funcParts? func = some parts ∧ parts.body = some body ∧
    ReturnsError t facts func body ∧ ∀ call, t.Below body call → ¬ LogsError t facts call

section Errors

variable {t : Tree} {facts : FactTable} {id : Nat}

theorem isError_iff : facts.isError id = true ↔ IsErrorTyped facts id := by
  rw [FactTable.isError, IsErrorTyped, Option.any_eq_true]
  constructor
  · rintro ⟨type, htype, herror⟩
    unfold GoType.isError at herror
    split at herror
    · rw [htype, beq_iff_eq.mp herror]
      rfl
    · cases herror
  · exact fun h => ⟨.error, h, rfl⟩

theorem isNil_iff : isNil t id = true ↔ t.kind id = .ident "nil" := by
  rw [isNil, beq_iff_eq, Tree.ident?_eq_some_iff]

private theorem isErrorType_iff : isErrorType t facts id = true ↔ IsErrorResult t facts id := by
  simp [isErrorType, IsErrorResult, isError_iff]

/-- But for one value that is passed on for several results, values are compared place by place. -/
theorem fillsErrorSlot_eq_any {slots : List Bool} {results : List Nat}
    (h : results.length ≠ 1 ∨ slots.length ≤ 1) : fillsErrorSlot t slots results =
      (slots.zip results).any fun (slot, result) => slot && !isNil t result := by
  match results with
  | [] => simp [fillsErrorSlot]
  | [result] =>
    have hslots : slots.length ≤ 1 := by simpa using h
    match slots with
    | [] => rfl
    | [slot] => simp [fillsErrorSlot]
    | _ :: _ :: _ => simp at hslots
  | _ :: _ :: _ => rfl

/-- Some value stands in place of a declared error. -/
theorem any_zip_iff {types results : List Nat} :
    (((types.map (isErrorType t facts)).zip results).any fun (slot, result) =>
      slot && !isNil t result) = true ↔
    ∃ (i : Nat) (type result : Nat), types[i]? = some type ∧ results[i]? = some result ∧
      IsErrorResult t facts type ∧ t.kind result ≠ .ident "nil" := by
  simp only [List.any_eq_true, List.mem_iff_getElem?, List.getElem?_zip_eq_some, List.getElem?_map,
    Option.map_eq_some_iff, Prod.exists, Bool.and_eq_true, Bool.not_eq_true', ← Bool.not_eq_true,
    isNil_iff]
  constructor
  · rintro ⟨_, result, ⟨i, ⟨type, htype, rfl⟩, hresult⟩, herror, hnil⟩
    exact ⟨i, type, result, htype, hresult, isErrorType_iff.mp herror, hnil⟩
  · rintro ⟨i, type, result, htype, hresult, herror, hnil⟩
    exact ⟨_, result, ⟨i, ⟨type, htype, rfl⟩, hresult⟩, isErrorType_iff.mpr herror, hnil⟩

private theorem fillsErrorSlot_iff (types results : List Nat) :
    fillsErrorSlot t (types.map (isErrorType t facts)) results = true ↔
      (∃ (i : Nat) (type result : Nat), types[i]? = some type ∧ results[i]? = some result ∧
        IsErrorResult t facts type ∧ t.kind result ≠ .ident "nil") ∨
      ∃ type result, results = [result] ∧ 1 < types.length ∧ type ∈ types ∧
        IsErrorResult t facts type ∧ t.kind result ≠ .ident "nil" := by
  by_cases hforward : results.length = 1 ∧ 1 < types.length
  · obtain ⟨hone, hmany⟩ := hforward
    obtain ⟨result, rfl⟩ := List.length_eq_one_iff.mp hone
    have hfills : fillsErrorSlot t (types.map (isErrorType t facts)) [result] = true ↔
        (∃ type ∈ types, IsErrorResult t facts type) ∧ t.kind result ≠ .ident "nil" := by
      simp [fillsErrorSlot, hmany, isErrorType_iff, ← isNil_iff]
    rw [hfills]
    constructor
    · rintro ⟨⟨type, htype, herror⟩, hnil⟩
      exact .inr ⟨type, result, rfl, hmany, htype, herror, hnil⟩
    · rintro (⟨i, type, other, htype, hother, herror, hnil⟩ | ⟨type, other, hother, -, htype, herror, hnil⟩)
      · -- the value stands in the first place, and is passed on for all of them
        obtain rfl := List.mem_singleton.mp (List.mem_of_getElem? hother)
        exact ⟨⟨type, List.mem_of_getElem? htype, herror⟩, hnil⟩
      · obtain rfl := List.singleton_inj.mp hother
        exact ⟨⟨type, htype, herror⟩, hnil⟩
  · rw [fillsErrorSlot_eq_any, any_zip_iff]
    · refine (or_iff_left ?_).symm
      rintro ⟨type, result, rfl, hmany, -⟩
      exact hforward ⟨rfl, hmany⟩
    · rw [List.length_map]
      omega

private theorem yieldsError_iff (types results : List Nat) :
    (results.any (fun result => !isNil t result && facts.isError result) ||
      fillsErrorSlot t (types.map (isErrorType t facts)) results) = true ↔
    YieldsError t facts types results := by
  rw [Bool.or_eq_true, fillsErrorSlot_iff]
  simp only [List.any_eq_true, Bool.and_eq_true, Bool.not_eq_true', ← Bool.not_eq_true, isNil_iff,
    isError_iff]
  constructor
  · rintro (⟨result, hmem, hnil, herror⟩ | ⟨i, type, result, htype, hresult, herror, hnil⟩ |
      ⟨type, result, hone, hmany, htype, herror, hnil⟩)
    · exact .typed hmem hnil herror
    · exact .placed htype hresult herror hnil
    · exact .forwarded hone hmany htype herror hnil
  · intro h
    cases h with
    | typed hmem hnil herror => exact .inl ⟨_, hmem, hnil, herror⟩
    | placed htype hresult herror hnil => exact .inr (.inl ⟨_, _, _, htype, hresult, herror, hnil⟩)
    | forwarded hone hmany htype herror hnil =>
      exact .inr (.inr ⟨_, _, hone, hmany, htype, herror, hnil⟩)

/-- What a call by a selector logs is told by the name that is selected. -/
theorem logsError_iff {call callee operand field : Nat} {args : List Nat}
    (hkind : t.kind call = .callExpr callee args)
    (hselector : t.kind callee = .selectorExpr operand field) : LogsError t facts call ↔
      t.ident? field = some "Error" ∧ args ≠ [] ∨
        t.ident? field = some "Log" ∧ ∃ arg ∈ args, IsErrorTyped facts arg := by
  have hcalls : ∀ {name args'}, CallsSelected t call name args' ↔
      args' = args ∧ t.ident? field = some name := by
    intro name args'
    simp only [CallsSelected, hkind, NodeKind.callExpr.injEq, Tree.ident?_eq_some_iff]
    constructor
    · rintro ⟨_, _, _, ⟨rfl, rfl⟩, hother, hname⟩
      obtain ⟨-, rfl⟩ := NodeKind.selectorExpr.inj (hselector.symm.trans hother)
      exact ⟨rfl, hname⟩
    · rintro ⟨rfl, hname⟩
      exact ⟨callee, operand, field, ⟨rfl, rfl⟩, hselector, hname⟩
  constructor
  · rintro (⟨hcall, hargs⟩ | ⟨hcall, harg, herror⟩)
    · obtain ⟨rfl, hname⟩ := hcalls.mp hcall
      exact .inl ⟨hname, hargs⟩
    · obtain ⟨rfl, hname⟩ := hcalls.mp hcall
      exact .inr ⟨hname, _, harg, herror⟩
  · rintro (⟨hname, hargs⟩ | ⟨hname, arg, harg, herror⟩)
    · exact .error (hcalls.mpr ⟨rfl, hname⟩) hargs
    · exact .log (hcalls.mpr ⟨rfl, hname⟩) harg herror

/-- A call without a selector logs nothing. -/
theorem not_logsError {call : Nat} (h : ∀ name args, ¬ CallsSelected t call name args) :
    ¬ LogsError t facts call := by
  rintro (⟨hcall, -⟩ | ⟨hcall, -⟩)
  · exact h _ _ hcall
  · exact h _ _ hcall

end Errors

/-! ### Decisions -/

section Decisions

variable {t : Tree} (h : t.Grounded) (facts : FactTable)

include h

private theorem decides_yieldsError (types : List Nat) (id : Nat) :
    Decides (yieldsError t facts (types.map (isErrorType t facts)) id)
      (∃ results, t.kind id = .returnStmt results ∧ YieldsError t facts types results) := by
  unfold yieldsError
  cases hkind : t.kind id with
  | returnStmt results =>
    have hfollow : results.mapM t.follow = .ok results :=
      h.followAll_eq id (by simp [hkind, NodeKind.refs])
    simp only [hfollow]
    refine ⟨_, rfl, (yieldsError_iff types results).trans ?_⟩
    simp
  | _ => exact ⟨false, rfl, by simp⟩

private theorem decides_returnsError (func body : Nat) :
    Decides (returnsError t facts func body) (ReturnsError t facts func body) := by
  unfold returnsError
  rw [h.resultTypes_eq]
  obtain ⟨b, hb, hiff⟩ := Decides.anyM fun id (_ : id ∈ t.ownReturns body) =>
    decides_yieldsError h facts ((t.results func).map (·.2)) id
  refine ⟨b, hb, hiff.trans ?_⟩
  constructor
  · rintro ⟨ret, hret, results, hkind, hyields⟩
    obtain ⟨-, hbelow, hown⟩ := Tree.mem_ownReturns_iff.mp hret
    exact ⟨ret, results, hkind, hbelow, hown, hyields⟩
  · rintro ⟨ret, results, hkind, hbelow, hown, hyields⟩
    have htag : t.tag ret = .returnStmt := by
      rw [Tree.tag, hkind]
      rfl
    exact ⟨ret, Tree.mem_ownReturns_iff.mpr ⟨htag, hbelow, hown⟩, results, hkind, hyields⟩

private theorem decides_isErrorLogging (call : Nat) :
    Decides (isErrorLogging t facts call) (LogsError t facts call) := by
  unfold isErrorLogging Tree.isSelectorCall Tree.callArgs Tree.calleeName?
  cases hkind : t.kind call with
  | callExpr callee args =>
    have hcallee : t.follow callee = .ok callee := h.follow call (by simp [hkind, NodeKind.refs])
    have hargs : args.mapM t.follow = .ok args :=
      h.followAll_eq call (by simp [hkind, NodeKind.refs])
    cases hselector : t.kind callee with
    | selectorExpr operand field =>
      have hfield : t.follow field = .ok field := h.follow callee (by simp [hselector, NodeKind.refs])
      have htag : (t.tag callee == .selectorExpr) = true := by simp [Tree.tag, hselector, NodeKind.tag]
      simp only [hcallee, hargs, hselector, hfield, htag, bind, Except.bind, pure, Except.pure, if_true]
      rw [logsError_iff hkind hselector]
      split
      · rename_i hname
        exact ⟨_, rfl, by simp [hname]⟩
      · rename_i hname
        exact ⟨_, rfl, by simp [hname, isError_iff]⟩
      · rename_i herror hlog
        refine ⟨false, rfl, iff_of_false Bool.false_ne_true ?_⟩
        rintro (⟨hname, -⟩ | ⟨hname, -⟩)
        · exact herror hname
        · exact hlog hname
    | _ =>
      simp only [hcallee, Tree.tag, hselector, NodeKind.tag, bind, Except.bind, pure, Except.pure]
      refine ⟨false, rfl, iff_of_false Bool.false_ne_true (not_logsError ?_)⟩
      rintro name args ⟨_, _, _, hcall, hother, -⟩
      obtain ⟨rfl, -⟩ := NodeKind.callExpr.inj (hkind.symm.trans hcall)
      cases hselector.symm.trans hother
  | _ =>
    refine ⟨false, rfl, iff_of_false Bool.false_ne_true (not_logsError ?_)⟩
    rintro name args ⟨_, _, _, hcall, -⟩
    cases hkind.symm.trans hcall

end Decisions

/-! ### Reports -/

def unloggedWords : List String :=
  ["log errors before returning them in `"]

/-- With what the messages about calls that log begin. -/
def loggingWords : List String :=
  ["use structured logging", "use appropriate log level", "include relevant context",
    "avoid logging sensitive information"]

def unloggedFinding (pass : Pass Published) (func : Nat × String) : Diagnostic :=
  pass.finding (pass.tree.span func.1) s!"log errors before returning them in `{func.2}`"
    (some "Call logger.Error(...) before returning the error")

section Reports

variable {pass : Pass Published}

private theorem mem_calls_iff {t : Tree} {id call : Nat} :
    call ∈ t.calls id ↔ t.Below id call ∧ t.tag call = .callExpr := by
  rw [Tree.calls, Tree.findAll, Tree.visited_eq_preorder, List.mem_filter, Tree.mem_preorder_iff,
    beq_iff_eq]

theorem LogsError.tag {t : Tree} {facts : FactTable} {call : Nat} (h : LogsError t facts call) :
    t.tag call = .callExpr := by
  rcases h with ⟨⟨_, _, _, hkind, -⟩, -⟩ | ⟨⟨_, _, _, hkind, -⟩, -⟩
  · rw [Tree.tag, hkind]
    rfl
  · rw [Tree.tag, hkind]
    rfl

open Classical in
/-- A function is reported just if it returns errors and logs none. -/
theorem checkUnlogged_eq (h : pass.tree.Grounded) (decl : FuncDecl) : checkUnlogged pass decl =
    .ok (if ReturnsUnlogged pass.tree pass.facts decl.node then
      [unloggedFinding pass (decl.node, decl.name)] else []) := by
  unfold checkUnlogged
  dsimp only
  rw [h.body?_eq]
  cases hbody : (pass.tree.funcParts? decl.node).bind (·.body) with
  | none =>
    rw [if_neg]
    · rfl
    · rintro ⟨parts, body, hparts, hsome, -⟩
      simp [hparts, hsome] at hbody
  | some body =>
    obtain ⟨parts, hparts, hsome⟩ := Option.bind_eq_some_iff.mp hbody
    have hunlogged : ReturnsUnlogged pass.tree pass.facts decl.node ↔
        ReturnsError pass.tree pass.facts decl.node body ∧
          ∀ call, pass.tree.Below body call → ¬ LogsError pass.tree pass.facts call := by
      constructor
      · rintro ⟨parts', body', hparts', hsome', hreturns⟩
        obtain rfl := Option.some.inj (hparts.symm.trans hparts')
        obtain rfl := Option.some.inj (hsome.symm.trans hsome')
        exact hreturns
      · exact fun hreturns => ⟨parts, body, hparts, hsome, hreturns⟩
    obtain ⟨returns, hreturns, hiff⟩ := decides_returnsError h pass.facts decl.node body
    obtain ⟨logging, hlogging, hmem⟩ := Decides.select fun call (_ : call ∈ pass.tree.calls body) =>
      decides_isErrorLogging h pass.facts call
    have hempty : logging = [] ↔
        ∀ call, pass.tree.Below body call → ¬ LogsError pass.tree pass.facts call := by
      simp only [List.eq_nil_iff_forall_not_mem, hmem, mem_calls_iff, not_and]
      exact ⟨fun hnone call hbelow hlogs => hnone call ⟨hbelow, hlogs.tag⟩ hlogs,
        fun hnone call hcall => hnone call hcall.1⟩
    rw [hunlogged, ← hiff, ← hempty]
    cases returns with
    | false => simp [hreturns, bind, Except.bind, pure, Except.pure]
    | true =>
      cases logging with
      | nil => simp [hreturns, hlogging, bind, Except.bind, pure, Except.pure, unloggedFinding]
      | cons call calls => simp [hreturns, hlogging, bind, Except.bind, pure, Except.pure]

/-- The functions that return errors and log none are reported, in pre-order. -/
theorem exists_unlogged (h : pass.tree.Grounded) {decls : Declarations}
    (hdecls : Declarations.ofIndex pass.tree (.ofTree pass.tree) = .ok decls) :
    ∃ funcs : List (Nat × String), funcs.Sublist (declaredFuncs pass.tree) ∧
      (∀ func name, (func, name) ∈ funcs ↔ DeclaresFunc pass.tree func name ∧
        ReturnsUnlogged pass.tree pass.facts func) ∧
      gather (checkUnlogged pass) decls.funcs = .ok (funcs.map (unloggedFinding pass)) := by
  classical
  refine ⟨(declaredFuncs pass.tree).filter fun p => ReturnsUnlogged pass.tree pass.facts p.1,
    List.filter_sublist, fun func name => ?_, ?_⟩
  · rw [List.mem_filter, mem_declaredFuncs_iff, decide_eq_true_eq]
  · rw [gather_eq_ok_flatMap fun decl _ => checkUnlogged_eq h decl, ← funcs_ofIndex_map hdecls,
      ← flatMap_ite_singleton, List.flatMap_map]

private theorem fst_mem_loggingWords {t : Tree} {name : String} {args : List Nat}
    {problem : String × String}
    (h : problem ∈ loggingProblems t name args) : problem.1 ∈ loggingWords := by
  simp only [loggingProblems, List.mem_append, List.mem_ite_nil_left, List.mem_ite_nil_right,
    List.mem_singleton] at h
  rcases h with ((⟨-, rfl⟩ | ⟨-, rfl⟩) | ⟨-, rfl⟩) | ⟨-, rfl⟩ <;> simp [loggingWords]

private theorem checkLoggingCall_words (call : Nat) : Yields (checkLoggingCall pass call)
    fun ds => ∀ d ∈ ds, d.beginsWith loggingWords = true := by
  unfold checkLoggingCall
  refine .bind fun name _ => ?_
  split
  · exact .pure (by simp)
  · refine .bind fun args _ => .pure fun d hd => ?_
    obtain ⟨problem, hproblem, rfl⟩ := List.mem_map.mp hd
    refine beginsWith_iff.mpr ⟨problem.1, fst_mem_loggingWords hproblem, ?_⟩
    simp only [Pass.finding, String.append_assoc]
    exact ⟨_, rfl⟩

@[simp] private theorem beginsWith_unloggedFinding (func : Nat × String) :
    (unloggedFinding pass func).beginsWith unloggedWords = true := by
  refine beginsWith_iff.mpr ⟨_, List.mem_singleton_self _, ?_⟩
  simp only [unloggedFinding, Pass.finding, String.append_assoc]
  exact ⟨_, rfl⟩

end Reports

/-- Exactly the declared functions that return errors and log none are reported for it, each of them
once and in pre-order, unless a comment silences the rule where the function starts. -/
theorem structuredLogging_unlogged {pass : Pass Published} (h : pass.tree.Grounded)
    (severity : Severity)
    (hsupplied : Supplied pass.tree (structuredLogging severity).requires pass.results) :
    ∃ (funcs : List (Nat × String)) (ds : List Diagnostic),
      (structuredLogging severity).run pass = .ok (.report ds) ∧
      (∀ func name, (func, name) ∈ funcs ↔ DeclaresFunc pass.tree func name ∧
        ReturnsUnlogged pass.tree pass.facts func) ∧
      (funcs.map (·.1)).Nodup ∧ (funcs.map (·.1)).Sublist (pass.tree.preorder pass.tree.root) ∧
      ds.filter (Diagnostic.beginsWith unloggedWords) = funcs.map (unloggedFinding pass) ∧
      (pass.heard ds).filter (Diagnostic.beginsWith unloggedWords) =
        (funcs.filter fun func => pass.hears func.1).map (unloggedFinding pass) := by
  have hindex : pass.nodeIndex = .ok (.ofTree pass.tree) := hsupplied.nodeIndex List.mem_cons_self
  obtain ⟨decls, hdecls, hpublished⟩ :
      ∃ decls, Declarations.ofIndex pass.tree (.ofTree pass.tree) = .ok decls ∧
        pass.declarations = .ok decls :=
    hsupplied.declarations (List.mem_cons_of_mem _ List.mem_cons_self)
  obtain ⟨funcs, hsublist, hmem, hreturns⟩ := exists_unlogged h hdecls
  obtain ⟨calls, hcalls⟩ := exists_gather
    fun call (_ : call ∈ (NodeIndex.ofTree pass.tree).nodes .callExpr) => exists_checkLoggingCall h call
  have hwords : ∀ d ∈ calls, d.beginsWith loggingWords = true :=
    gather_forall (fun call _ => checkLoggingCall_words call) calls hcalls
  have hfindings : (calls ++ funcs.map (unloggedFinding pass)).filter
      (Diagnostic.beginsWith unloggedWords) = funcs.map (unloggedFinding pass) := by
    rw [List.filter_append, filter_beginsWith_eq_nil hwords rfl,
      List.nil_append, List.filter_eq_self]
    intro d hd
    obtain ⟨func, -, rfl⟩ := List.mem_map.mp hd
    exact beginsWith_unloggedFinding func
  have hplaces : (funcs.map (·.1)).Sublist (pass.tree.preorder pass.tree.root) :=
    (hsublist.map _).trans (declaredFuncs_sublist pass.tree)
  refine ⟨funcs, calls ++ funcs.map (unloggedFinding pass), ?_, hmem,
    hplaces.nodup (Tree.nodup_preorder_root _), hplaces, hfindings, ?_⟩
  · simp [structuredLogging, hindex, hpublished, hcalls, hreturns, bind, Except.bind, pure, Except.pure]
  · rw [Pass.filter_heard, hfindings]
    exact Pass.heard_map fun func _ => rfl

/-- A function with a forwarded error, and one whose error is that of a literal in it. -/
def unloggedErrors : SourceFile :=
  .ofText "a.go" ("package a\n\nfunc load() (n int, err error) \x7b\n\treturn read()\n\x7d\n\n" ++
    "func quiet() error \x7b\n\tf(func() error \x7b\n\t\treturn err\n\t\x7d)\n" ++
    "\treturn nil\n\x7d\n") ""

def loggingPass (t : Tree) (decls : Declarations) : Pass Published :=
  ⟨⟨t, Go.resolve t (some "a") [], none⟩, (structuredLogging .warning).info, indexResults t decls⟩

theorem structuredLogging_unlogged_unloggedErrors : ∃ t decls, Go.parse unloggedErrors = .ok t ∧
    ∃ (funcs : List (Nat × String)) (ds : List Diagnostic),
      (structuredLogging .warning).run (loggingPass t decls) = .ok (.report ds) ∧
      (∀ func name, (func, name) ∈ funcs ↔
        DeclaresFunc t func name ∧ ReturnsUnlogged t (loggingPass t decls).facts func) ∧
      (funcs.map (unloggedFinding (loggingPass t decls))).map (·.message) =
        ["log errors before returning them in `load`"] := by
  have hread : ((Go.parse unloggedErrors).toOption.bind fun t =>
      (Declarations.ofIndex t (.ofTree t)).toOption.bind fun decls =>
        ((structuredLogging .warning).run (loggingPass t decls)).toOption.map fun outcome => decide (
          (outcome.reported.filter (Diagnostic.beginsWith unloggedWords)).map (·.message) =
            ["log errors before returning them in `load`"])) = some true := by
    decide +kernel
  obtain ⟨t, decls, outcome, hparse, hgrounded, hdecls, hrun, hdecide⟩ := exists_of_read hread
  obtain ⟨funcs, ds, hds, hmem, -, -, hall, -⟩ :=
    @structuredLogging_unlogged (loggingPass t decls) hgrounded .warning
      (supplied_indexResults hdecls (List.Subset.refl _))
  obtain rfl := Except.ok.inj (hrun.symm.trans hds)
  refine ⟨t, decls, hparse, funcs, ds, hds, hmem, ?_⟩
  rw [← hall]
  exact of_decide_eq_true hdecide

end Lintel
