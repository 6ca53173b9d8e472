import Lintel.Proofs.Rules.Declarations
import Lintel.Proofs.Rules.Findings
import Lintel.Proofs.Rules.Members
import Lintel.Proofs.Rules.Success
import Lintel.Proofs.Rules.TypeNames

/-!
# Middleware

A function with a body is middleware if its only result is a handler. Whether a type is one is read
off its source text, after the last dot. For types that are written without gaps this is the name,
but of other types it is only how they end, so that some that only mention a handler are taken for
one. The next handler of middleware is the first of its parameters that is a handler.
-/

namespace Lintel

open Lintel.Text

/-! ### Handlers -/

def handlerWords : List String :=
  ["Handler", "HandlerFunc"]

/-- A type has the name of a handler. -/
def NamesHandler (t : Tree) (type : Nat) : Prop :=
  ∃ word ∈ handlerWords, TypeNamed t type word

/-- The text of a type is the name of a handler or ends in one behind a dot. -/
def EndsInHandler (t : Tree) (type : Nat) : Prop :=
  ∃ word ∈ handlerWords, t.text type = word ∨ ∃ before, t.text type = before ++ "." ++ word

/-- A type is read as a handler: it is no pointer, and it ends in the name of one. -/
def ReadsAsHandler (t : Tree) (type : Nat) : Prop :=
  t.tag type ≠ .pointerType ∧ EndsInHandler t type

/-- A type whose text does not mislead: it is written without gaps, it is a pointer, or it has no name
and does not end in one of a handler. -/
inductive PlainType (t : Tree) (type : Nat) : Prop
  | named {name : String} (hname : NameWritten t type name)
  | pointer (htag : t.tag type = .pointerType)
  | nameless (hname : ∀ name, ¬ TypeNamed t type name) (hends : ¬ EndsInHandler t type)

section Handlers

variable {t : Tree} {type : Nat}

theorem isHandlerType_iff : isHandlerType t type = true ↔ ReadsAsHandler t type := by
  have hnoDot : ∀ word ∈ handlerWords, '.' ∉ word.toList := by decide
  have hread : EndsInHandler t type ↔ ∃ word ∈ handlerWords,
      String.ofList (lastPiece (· == '.') (t.text type).toList) = word := by
    refine exists_congr fun word => and_congr_right fun hword => ?_
    rw [lastPiece_dot_eq_iff]
    exact (and_iff_right (hnoDot word hword)).symm
  unfold isHandlerType ReadsAsHandler
  rw [hread]
  by_cases htag : t.tag type = .pointerType
  · simp [htag]
  · simp [htag, handlerWords]

/-- A pointer has no name. -/
theorem not_typeNamed_of_pointer {name : String} (htag : t.tag type = .pointerType) :
    ¬ TypeNamed t type name := by
  intro h
  cases h with
  | word hkind => simp [Tree.tag, hkind, NodeKind.tag] at htag
  | qualified hkind => simp [Tree.tag, hkind, NodeKind.tag] at htag

theorem PlainType.readsAsHandler_iff (h : PlainType t type) :
    ReadsAsHandler t type ↔ NamesHandler t type := by
  cases h with
  | @named name hname =>
    have htag : t.tag type ≠ .pointerType := fun htag => not_typeNamed_of_pointer htag hname.typeNamed
    have hnames : NamesHandler t type ↔ name ∈ handlerWords :=
      ⟨fun ⟨word, hword, hother⟩ => hname.typeNamed.unique hother ▸ hword,
        fun hword => ⟨name, hword, hname.typeNamed⟩⟩
    have hread : ReadsAsHandler t type ↔ name ∈ handlerWords := by
      rw [← isHandlerType_iff, isHandlerType, hname.lastPiece_eq]
      simp [htag, handlerWords]
    rw [hread, hnames]
  | pointer htag =>
    refine iff_of_false (fun hread => hread.1 htag) ?_
    rintro ⟨word, -, hname⟩
    exact not_typeNamed_of_pointer htag hname
  | nameless hname hends =>
    exact iff_of_false (fun hread => hends hread.2) fun ⟨word, _, hother⟩ => hname word hother

end Handlers

/-! ### Signatures -/

/-- The first name of an entry of a parameter list, with the type of the entry. -/
def namedParam? (t : Tree) (entry : Nat) : Option (String × Nat) :=
  match t.kind entry with
  | .field names type _ => (names.head?.bind t.ident?).map (·, type)
  | _ => none

/-- The named parameters of a function that are the first ones of their entries. -/
def namedParams (t : Tree) (func : Nat) : List (String × Nat) :=
  ((t.funcParts? func).toList.flatMap fun parts => t.children parts.params).filterMap (namedParam? t)

/-- A function has one result, and that is a handler. -/
def ReturnsHandler (handler : Nat → Prop) (t : Tree) (func : Nat) : Prop :=
  ∃ node type, t.results func = [(node, type)] ∧ handler type

/-- The next handler is the first parameter that is a handler, or known by a name of its own. -/
inductive NextHandler (handler : Nat → Prop) (t : Tree) (func : Nat) : String → Prop
  | param {before after : List (String × Nat)} {name : String} {type : Nat}
      (hparams : namedParams t func = before ++ (name, type) :: after) (htype : handler type)
      (hfirst : ∀ p ∈ before, ¬ handler p.2) : NextHandler handler t func name
  | unnamed (hnone : ∀ p ∈ namedParams t func, ¬ handler p.2) : NextHandler handler t func "next"

/-- The result and the named parameters of a function have plain types. -/
structure PlainSignature (t : Tree) (func : Nat) : Prop where
  results : ∀ result ∈ t.results func, PlainType t result.2
  params : ∀ param ∈ namedParams t func, PlainType t param.2

section Signatures

variable {t : Tree} {func : Nat} {handler other : Nat → Prop}

private theorem decides_isMiddleware (h : t.Grounded) (func : Nat) :
    Decides (isMiddleware t func) (ReturnsHandler (ReadsAsHandler t) t func) := by
  unfold isMiddleware ReturnsHandler
  rw [h.resultTypes_eq]
  match hresults : t.results func with
  | [] => exact ⟨false, rfl, by simp⟩
  | [(node, type)] => exact ⟨_, rfl, by simp [isHandlerType_iff]⟩
  | _ :: _ :: _ => exact ⟨false, rfl, by simp⟩

private theorem handlerParam?_eq (h : t.Grounded) (entries : List Nat) : handlerParam? t entries =
    .ok (((entries.filterMap (namedParam? t)).find? fun p => isHandlerType t p.2).map (·.1)) := by
  induction entries with
  | nil => rfl
  | cons entry entries ih =>
    rw [handlerParam?, List.filterMap_cons, namedParam?]
    cases hkind : t.kind entry with
    | field names type tag =>
      have htype : t.follow type = .ok type := h.follow entry (by simp [hkind, NodeKind.refs])
      have hnames : t.followOption names.head? = .ok names.head? := by
        refine h.followOption_eq entry fun name hname => ?_
        simp [hkind, NodeKind.refs, List.mem_of_head? (Option.mem_def.mp hname)]
      simp only [htype, hnames, ih, bind, Except.bind, pure, Except.pure]
      cases hword : names.head?.bind t.ident? with
      | none => split <;> rfl
      | some word =>
        by_cases hhandler : isHandlerType t type = true
        · simp [hhandler]
        · simp [hhandler]
    | _ => exact ih

private theorem nextHandler_yields (h : t.Grounded) (func : Nat) :
    Yields (nextHandler t func) (NextHandler (ReadsAsHandler t) t func) := by
  unfold nextHandler
  cases hparts : t.funcParts? func with
  | none => exact .pure (.unnamed (by simp [namedParams, hparts]))
  | some parts =>
    have hparams : t.follow parts.params = .ok parts.params :=
      h.follow func (Tree.refs_subset_of_funcParts? hparts (by simp [FuncParts.refs]))
    have hnamed : (t.children parts.params).filterMap (namedParam? t) = namedParams t func := by
      simp [namedParams, hparts]
    simp only [hparams, handlerParam?_eq h, hnamed, bind, Except.bind, pure, Except.pure]
    refine .pure ?_
    cases hfind : (namedParams t func).find? fun p => isHandlerType t p.2 with
    | none =>
      refine .unnamed fun p hp => ?_
      rw [← isHandlerType_iff]
      exact List.find?_eq_none.mp hfind p hp
    | some p =>
      obtain ⟨htype, before, after, hsplit, hfirst⟩ := List.find?_eq_some_iff_append.mp hfind
      refine .param hsplit (isHandlerType_iff.mp htype) fun q hq => ?_
      rw [← isHandlerType_iff]
      simpa using hfirst q hq

theorem ReturnsHandler.congr (hsame : ∀ result ∈ t.results func, handler result.2 ↔ other result.2) :
    ReturnsHandler handler t func ↔ ReturnsHandler other t func := by
  refine exists_congr fun node => exists_congr fun type => and_congr_right fun hresults => ?_
  exact hsame (node, type) (by simp [hresults])

theorem NextHandler.congr {next : String}
    (hsame : ∀ param ∈ namedParams t func, handler param.2 ↔ other param.2)
    (h : NextHandler handler t func next) : NextHandler other t func next := by
  cases h with
  | @param before after name type hparams htype hfirst =>
    refine .param hparams ((hsame (next, type) (by simp [hparams])).mp htype) fun p hp => ?_
    rw [← hsame p (by simp [hparams, hp])]
    exact hfirst p hp
  | unnamed hnone =>
    refine .unnamed fun p hp => ?_
    rw [← hsame p hp]
    exact hnone p hp

end Signatures

/-! ### Reports -/

def contextFinding (pass : Pass Published) (func : Nat × String) (fix : Fix) : Diagnostic :=
  pass.finding (pass.tree.span func.1)
    s!"middleware `{func.2}` does not preserve the request context" none [fix]

def forwardFinding (pass : Pass Published) (func : Nat × String) (fix : Fix) : Diagnostic :=
  pass.finding (pass.tree.span func.1)
    s!"middleware `{func.2}` does not call the next handler" none [fix]

/-- A fix inserts a line with a call of a handler. -/
def Fix.CallsHandler (fix : Fix) (next : String) : Prop :=
  ∃ offset before after,
    fix.edits = [.insert offset (before ++ next ++ ".ServeHTTP(w, r)\n" ++ after)]

/-- What is reported of the context: nothing if a name that is called mentions it. -/
def ContextPart (pass : Pass Published) (func : Nat × String) (calls : List String)
    (ds : List Diagnostic) : Prop :=
  (∃ call ∈ calls, mentions "Context" call = true) ∧ ds = [] ∨
    (∀ call ∈ calls, mentions "Context" call = false) ∧ ∃ fix, ds = [contextFinding pass func fix]

/-- A name under which a request is forwarded. -/
def Forwards (call : String) : Prop :=
  call = "ServeHTTP" ∨ mentions "Handle" call = true

/-- What is reported of the next handler: nothing if a request is forwarded. -/
def ForwardPart (pass : Pass Published) (func : Nat × String) (calls : List String) (next : String)
    (ds : List Diagnostic) : Prop :=
  (∃ call ∈ calls, Forwards call) ∧ ds = [] ∨
    (∀ call ∈ calls, ¬ Forwards call) ∧
      ∃ fix : Fix, fix.CallsHandler next ∧ ds = [forwardFinding pass func fix]

/-- What is reported of a function: nothing unless it has a body and returns a handler. -/
inductive MiddlewareBlock (handler : Nat → Prop) (pass : Pass Published) (func : Nat × String) :
    List Diagnostic → Prop
  | bodiless (hbody : (pass.tree.funcParts? func.1).bind (·.body) = none) :
      MiddlewareBlock handler pass func []
  | other (hother : ¬ ReturnsHandler handler pass.tree func.1) : MiddlewareBlock handler pass func []
  | middleware {body : Nat} {calls : List String} {next : String} {lost stopped : List Diagnostic}
      (hreturns : ReturnsHandler handler pass.tree func.1)
      (hbody : (pass.tree.funcParts? func.1).bind (·.body) = some body)
      (hcalls : pass.tree.calleeNames body = .ok calls)
      (hnext : NextHandler handler pass.tree func.1 next)
      (hlost : ContextPart pass func calls lost)
      (hstopped : ForwardPart pass func calls next stopped) :
      MiddlewareBlock handler pass func (lost ++ stopped)

section Reports

variable {pass : Pass Published}

private theorem checkContext_part (decl : FuncDecl) (body : Nat) (calls : List String) :
    Yields (checkContext pass decl body calls) (ContextPart pass (decl.node, decl.name) calls) := by
  unfold checkContext
  split
  · rename_i hany
    exact .pure (.inl ⟨List.any_eq_true.mp hany, rfl⟩)
  · rename_i hany
    exact .bind fun fix _ => .pure (.inr ⟨by simpa using hany, fix, rfl⟩)

private theorem forwardFix_calls (next : String) (body : Nat) :
    Yields (forwardFix pass next body) fun fix => fix.CallsHandler next := by
  intro fix hfix
  unfold forwardFix at hfix
  split at hfix
  · rename_i last _
    refine ⟨(pass.tree.span last).start, "", pass.file.indentAt (pass.tree.span last).start, ?_⟩
    rw [edits_of_check hfix]
    simp only [toString, String.empty_append]
  · refine ⟨(pass.tree.span body).stop - 1, "\t",
      pass.file.indentAt ((pass.tree.span body).stop - 1), ?_⟩
    rw [edits_of_check hfix]
    simp only [toString]

private theorem checkForwarding_part (h : pass.tree.Grounded) (decl : FuncDecl) (body : Nat)
    (calls : List String) : Yields (checkForwarding pass decl body calls) fun ds =>
      ∃ next, NextHandler (ReadsAsHandler pass.tree) pass.tree decl.node next ∧
        ForwardPart pass (decl.node, decl.name) calls next ds := by
  obtain ⟨next, hnext⟩ := exists_nextHandler h decl.node
  have hchosen := nextHandler_yields h decl.node next hnext
  unfold checkForwarding
  split
  · rename_i hany
    obtain ⟨call, hcall, hforwards⟩ := List.any_eq_true.mp hany
    refine .pure ⟨next, hchosen, .inl ⟨⟨call, hcall, ?_⟩, rfl⟩⟩
    simpa [Forwards] using hforwards
  · rename_i hany
    refine .bind fun other hother => .bind fun fix hfix => .pure ?_
    refine ⟨next, hchosen, .inr ⟨?_, fix, ?_, rfl⟩⟩
    · simpa [Forwards] using hany
    · obtain rfl := Except.ok.inj (hnext.symm.trans hother)
      exact forwardFix_calls next body fix hfix

private theorem checkMiddleware_block (h : pass.tree.Grounded) (decl : FuncDecl) :
    Yields (checkMiddleware pass decl)
      (MiddlewareBlock (ReadsAsHandler pass.tree) pass (decl.node, decl.name)) := by
  obtain ⟨found, hfound, hiff⟩ := decides_isMiddleware h decl.node
  unfold checkMiddleware
  refine .bind fun b hb => ?_
  obtain rfl := Except.ok.inj (hfound.symm.trans hb)
  split
  · rename_i hreturns
    refine .bind fun body hbody => ?_
    rw [h.body?_eq] at hbody
    obtain rfl := Except.ok.inj hbody
    split
    · rename_i hnone
      exact .pure (.bodiless hnone)
    · rename_i body hsome
      refine .bind fun calls hcalls => .bind fun lost hlost => .bind fun stopped hstopped => .pure ?_
      obtain ⟨next, hnext, hpart⟩ := checkForwarding_part h decl body calls stopped hstopped
      exact .middleware (hiff.mp hreturns) hsome hcalls hnext
        (checkContext_part decl body calls lost hlost) hpart
  · rename_i hother
    exact .pure (.other (mt hiff.mpr hother))

/-- What is reported of a function depends on the types in its signature only. -/
theorem MiddlewareBlock.congr {handler other : Nat → Prop} {func : Nat × String}
    {block : List Diagnostic}
    (hresults : ∀ result ∈ pass.tree.results func.1, handler result.2 ↔ other result.2)
    (hparams : ∀ param ∈ namedParams pass.tree func.1, handler param.2 ↔ other param.2)
    (h : MiddlewareBlock handler pass func block) : MiddlewareBlock other pass func block := by
  cases h with
  | bodiless hbody => exact .bodiless hbody
  | other hother => exact .other (mt (ReturnsHandler.congr hresults).mpr hother)
  | middleware hreturns hbody hcalls hnext hlost hstopped =>
    exact .middleware ((ReturnsHandler.congr hresults).mp hreturns) hbody hcalls
      (hnext.congr hparams) hlost hstopped

end Reports

/-- Of every declared function with a body that returns one handler, and of no other one, it is
reported if it loses the context or does not call the next handler, which is its first parameter that
is a handler. Handlers are told by how their types are written, and where the types in a signature
are plain ones these are the types with the name of a handler. -/
theorem middlewareChain_handlers {pass : Pass Published} (h : pass.tree.Grounded)
    (severity : Severity)
    (hsupplied : Supplied pass.tree (middlewareChain severity).requires pass.results) :
    ∃ (funcs : List (Nat × String)) (blocks : List (List Diagnostic)),
      (middlewareChain severity).run pass = .ok (.report blocks.flatten) ∧
      (∀ func name, (func, name) ∈ funcs ↔ DeclaresFunc pass.tree func name) ∧
      (funcs.map (·.1)).Nodup ∧ (funcs.map (·.1)).Sublist (pass.tree.preorder pass.tree.root) ∧
      List.Forall₂ (fun func block =>
        MiddlewareBlock (ReadsAsHandler pass.tree) pass func block ∧
        (PlainSignature pass.tree func.1 → MiddlewareBlock (NamesHandler pass.tree) pass func block))
        funcs blocks := by
  obtain ⟨decls, hdecls, hpublished⟩ :
      ∃ decls, Declarations.ofIndex pass.tree (.ofTree pass.tree) = .ok decls ∧
        pass.declarations = .ok decls :=
    hsupplied.declarations List.mem_cons_self
  obtain ⟨ds, hds⟩ := exists_gather fun decl (_ : decl ∈ decls.funcs) => exists_checkMiddleware h decl
  obtain ⟨blocks, hblocks, rfl⟩ := gather_eq_ok_iff.mp hds
  refine ⟨declaredFuncs pass.tree, blocks, ?_, fun func name => mem_declaredFuncs_iff,
    (declaredFuncs_sublist _).nodup (Tree.nodup_preorder_root _), declaredFuncs_sublist _, ?_⟩
  · simp [middlewareChain, hpublished, hds, bind, Except.bind, pure, Except.pure]
  · rw [← funcs_ofIndex_map hdecls, List.forall₂_map_left_iff]
    refine hblocks.imp fun decl block hblock => ?_
    have hread := checkMiddleware_block h decl block hblock
    exact ⟨hread, fun hplain => hread.congr
      (fun result hresult => (hplain.results result hresult).readsAsHandler_iff)
      fun param hparam => (hplain.params param hparam).readsAsHandler_iff⟩

/-- Middleware whose next handler is its second parameter, and a function with two handlers. -/
def wrappingHandler : SourceFile :=
  .ofText "a.go" ("package a\n\nfunc wrap(n int, h http.Handler) http.HandlerFunc \x7b\n" ++
    "\treturn h\n\x7d\n\nfunc two() (a, b Handler) \x7b\n\treturn\n\x7d\n") ""

def middlewarePass (t : Tree) (decls : Declarations) : Pass Published :=
  ⟨⟨t, Go.resolve t (some "a") [], none⟩, (middlewareChain .warning).info, indexResults t decls⟩

theorem middlewareChain_handlers_wrappingHandler : ∃ t decls, Go.parse wrappingHandler = .ok t ∧
    ∃ (funcs : List (Nat × String)) (blocks : List (List Diagnostic)),
      (middlewareChain .warning).run (middlewarePass t decls) = .ok (.report blocks.flatten) ∧
      List.Forall₂ (fun func block =>
        PlainSignature t func.1 → MiddlewareBlock (NamesHandler t) (middlewarePass t decls) func block)
        funcs blocks ∧
      (∃ func, (func, "wrap") ∈ funcs ∧ PlainSignature t func) ∧
      blocks.flatten.map (·.message) = ["middleware `wrap` does not preserve the request context",
        "middleware `wrap` does not call the next handler"] ∧
      blocks.flatten.map (fun d => d.fixes.map (·.description)) =
        [["Capture and reattach the request context"], ["Call h.ServeHTTP before returning"]] := by
  have hread : ((Go.parse wrappingHandler).toOption.bind fun t =>
      (Declarations.ofIndex t (.ofTree t)).toOption.bind fun decls =>
        ((middlewareChain .warning).run (middlewarePass t decls)).toOption.map fun outcome => decide (
          (20, "wrap") ∈ declaredFuncs t ∧ t.results 20 = [(14, 14)] ∧ NameWritten t 14 "HandlerFunc" ∧
            namedParams t 20 = [("n", 4), ("h", 9)] ∧ NameWritten t 4 "int" ∧
            NameWritten t 9 "Handler" ∧
            outcome.reported.map (·.message) =
              ["middleware `wrap` does not preserve the request context",
                "middleware `wrap` does not call the next handler"] ∧
            outcome.reported.map (fun d => d.fixes.map (·.description)) =
              [["Capture and reattach the request context"],
                ["Call h.ServeHTTP before returning"]])) = some true := by
    decide +kernel
  obtain ⟨t, decls, outcome, hparse, hgrounded, hdecls, hrun, hdecide⟩ := exists_of_read hread
  obtain ⟨hwrap, hresults, hreturned, hnamed, hint, hnext, hmessages, hfixes⟩ :=
    of_decide_eq_true hdecide
  have hplain : PlainSignature t 20 := by
    constructor
    · simpa [hresults] using PlainType.named hreturned
    · simpa [hnamed] using And.intro (PlainType.named hint) (PlainType.named hnext)
  obtain ⟨funcs, blocks, hblocks, hmem, -, -, hall⟩ :=
    @middlewareChain_handlers (middlewarePass t decls) hgrounded .warning
      (supplied_indexResults hdecls (List.subset_cons_self _ _))
  obtain rfl := Except.ok.inj (hrun.symm.trans hblocks)
  exact ⟨t, decls, hparse, funcs, blocks, hblocks, hall.imp fun _ _ hblock => hblock.2,
    ⟨20, (hmem 20 "wrap").mpr (mem_declaredFuncs_iff.mp hwrap), hplain⟩, hmessages, hfixes⟩

def manyHandlers : SourceFile :=
  .ofText "a.go" ("package a\n\nfunc Handlers() []http.Handler \x7b\n\treturn nil\n\x7d\n") ""

/-- The only function returns no handler but a slice, and yet it is taken for middleware. -/
theorem middlewareChain_reports_slice : ∃ t decls outcome func type,
    Go.parse manyHandlers = .ok t ∧
    (middlewareChain .warning).run (middlewarePass t decls) = .ok outcome ∧
    declaredFuncs t = [(func, "Handlers")] ∧ t.results func = [(type, type)] ∧
    t.kind type = .other "slice_type" ∧ ¬ ReturnsHandler (NamesHandler t) t func ∧
    outcome.reported.map (·.message) =
      ["middleware `Handlers` does not preserve the request context",
        "middleware `Handlers` does not call the next handler"] := by
  have hread : ((Go.parse manyHandlers).toOption.bind fun t =>
      (Declarations.ofIndex t (.ofTree t)).toOption.bind fun decls =>
        ((middlewareChain .warning).run (middlewarePass t decls)).toOption.map fun outcome => decide (
          declaredFuncs t = [(13, "Handlers")] ∧ t.results 13 = [(7, 7)] ∧
            t.kind 7 = .other "slice_type" ∧
            outcome.reported.map (·.message) =
              ["middleware `Handlers` does not preserve the request context",
                "middleware `Handlers` does not call the next handler"])) = some true := by
    decide +kernel
  obtain ⟨t, decls, outcome, hparse, -, -, hrun, hdecide⟩ := exists_of_read hread
  obtain ⟨hfuncs, hresults, hkind, hmessages⟩ := of_decide_eq_true hdecide
  have hnames : ¬ ReturnsHandler (NamesHandler t) t 13 := by
    rintro ⟨node, type, hone, word, -, hname⟩
    rw [hresults] at hone
    cases hone
    cases hname with
    | word hident => cases hkind.symm.trans hident
    | qualified hselector => cases hkind.symm.trans hselector
  exact ⟨t, decls, outcome, 13, 7, hparse, hrun, hfuncs, hresults, hkind, hnames, hmessages⟩

end Lintel
