import Lintel.Proofs.Edit.Splice
import Lintel.Proofs.Except
import Lintel.Proofs.Rules.Questions
import Lintel.Rules.Presets

/-!
# What rules report

Every diagnostic of a rule is a finding made by its pass. Which fixes a rule attaches to
a finding is a relation between the range of the finding and the fix: two rules attach
any, the others none.
-/

namespace Lintel

/-- All diagnostics are findings of a pass about nodes, and their fixes suit the range of the
node. -/
def Finds {ρ : Type} (pass : Pass ρ) (Suits : Span → Fix → Prop) (ds : List Diagnostic) : Prop :=
  ∀ d ∈ ds, ∃ id message help fixes,
    d = pass.finding (pass.tree.span id) message help fixes ∧
      ∀ fix ∈ fixes, Suits (pass.tree.span id) fix

/-- The relation of the rules that attach no fixes. -/
def NoFix : Span → Fix → Prop :=
  fun _ _ => False

namespace Finds

variable {ρ : Type} {pass : Pass ρ} {Suits Wider : Span → Fix → Prop} {ds es : List Diagnostic}

theorem nil : Finds pass Suits [] := by
  intro d hd
  cases hd

theorem append (hd : Finds pass Suits ds) (he : Finds pass Suits es) :
    Finds pass Suits (ds ++ es) := by
  intro d h
  rcases List.mem_append.mp h with h | h
  · exact hd d h
  · exact he d h

theorem plain {id : Nat} {message : String} {help : Option String} :
    Finds pass Suits [pass.finding (pass.tree.span id) message help] := by
  intro d hd
  exact ⟨id, message, help, [], List.mem_singleton.mp hd, by simp⟩

theorem fixed {id : Nat} {message : String} {help : Option String} {fixes : List Fix}
    (h : ∀ fix ∈ fixes, Suits (pass.tree.span id) fix) :
    Finds pass Suits [pass.finding (pass.tree.span id) message help fixes] := by
  intro d hd
  exact ⟨id, message, help, fixes, List.mem_singleton.mp hd, h⟩

theorem flatMap {α : Type} {f : α → List Diagnostic} {as : List α}
    (h : ∀ a ∈ as, Finds pass Suits (f a)) : Finds pass Suits (as.flatMap f) := by
  intro d hd
  obtain ⟨a, ha, hd⟩ := List.mem_flatMap.mp hd
  exact h a ha d hd

theorem map {α : Type} {f : α → Diagnostic} {as : List α}
    (h : ∀ a ∈ as, Finds pass Suits [f a]) : Finds pass Suits (as.map f) := by
  rw [List.map_eq_flatMap]
  exact flatMap h

theorem mono (hd : Finds pass Suits ds) (h : ∀ span fix, Suits span fix → Wider span fix) :
    Finds pass Wider ds := by
  intro d hmem
  obtain ⟨id, message, help, fixes, rfl, hfixes⟩ := hd d hmem
  exact ⟨id, message, help, fixes, rfl, fun fix hfix => h _ fix (hfixes fix hfix)⟩

theorem gather {α : Type} {f : α → Check (List Diagnostic)} {as : List α}
    (h : ∀ a ∈ as, Yields (f a) (Finds pass Suits)) :
    Yields (Lintel.gather f as) (Finds pass Suits) :=
  gather_forall h

end Finds

/-- What a rule reports. -/
def Rule.Finds {ρ : Type} (rule : Rule ρ) (pass : Pass ρ) (Suits : Span → Fix → Prop) : Prop :=
  Yields (rule.run pass) fun outcome => Lintel.Finds pass Suits outcome.reported

variable {pass : Pass Published}

theorem treeIndex_finds : treeIndex.Finds pass NoFix :=
  .pure .nil

theorem declIndex_finds : declIndex.Finds pass NoFix :=
  .bind fun _ _ => .bind fun _ _ => .pure .nil

/-! ### Handlers and middleware -/

theorem checkHandler_finds (decl : FuncDecl) :
    Yields (checkHandler pass decl) (Finds pass NoFix) := by
  unfold checkHandler
  refine .bind fun isHandler _ => ?_
  split
  · refine .bind fun body _ => ?_
    split
    · exact .pure .nil
    · exact .bind fun calls _ => .pure (.map fun duty _ => .plain)
  · exact .pure .nil

theorem apiHandler_finds (severity : Severity) : (apiHandler severity).Finds pass NoFix :=
  .bind fun _ _ => .bind fun ds hds => .pure (Finds.gather (fun a _ => checkHandler_finds a) ds hds)

/-- A fix of middleware inserts at a point of the body of the function that the finding
is about. -/
def MendsBody (t : Tree) (span : Span) (fix : Fix) : Prop :=
  ∃ func body offset text,
    span = t.span func ∧ t.body? func = .ok (some body) ∧ fix.edits = [.insert offset text] ∧
      (offset = (t.span body).start + 1 ∨ (∃ last ∈ t.ownReturns body, offset = (t.span last).start)
        ∨ offset = (t.span body).stop - 1)

theorem edits_of_check {description : String} {e : TextEdit} {fix : Fix}
    (h : Fix.check description [e] = .ok fix) : fix.edits = [e] := by
  unfold Fix.check at h
  split at h
  · rename_i built hbuilt
    cases h
    rw [Fix.edits_of_ofEdits hbuilt, TextEdit.ascending, List.mergeSort_singleton]
  · cases h

theorem checkContext_finds {decl : FuncDecl} {body : Nat} {calls : List String}
    (hbody : pass.tree.body? decl.node = .ok (some body)) :
    Yields (checkContext pass decl body calls) (Finds pass (MendsBody pass.tree)) := by
  unfold checkContext
  split
  · exact .pure .nil
  · refine .bind fun fix hfix => .pure (.fixed fun other hother => ?_)
    rw [List.mem_singleton.mp hother]
    exact ⟨decl.node, body, _, _, rfl, hbody, edits_of_check hfix, .inl rfl⟩

theorem checkForwarding_finds {decl : FuncDecl} {body : Nat} {calls : List String}
    (hbody : pass.tree.body? decl.node = .ok (some body)) :
    Yields (checkForwarding pass decl body calls) (Finds pass (MendsBody pass.tree)) := by
  unfold checkForwarding
  split
  · exact .pure .nil
  · refine .bind fun next _ => .bind fun fix hfix => .pure (.fixed fun other hother => ?_)
    rw [List.mem_singleton.mp hother]
    unfold forwardFix at hfix
    split at hfix
    · rename_i last hlast
      exact ⟨decl.node, body, _, _, rfl, hbody, edits_of_check hfix,
        .inr (.inl ⟨last, List.mem_of_getLast? hlast, rfl⟩)⟩
    · exact ⟨decl.node, body, _, _, rfl, hbody, edits_of_check hfix, .inr (.inr rfl)⟩

theorem checkMiddleware_finds (decl : FuncDecl) :
    Yields (checkMiddleware pass decl) (Finds pass (MendsBody pass.tree)) := by
  unfold checkMiddleware
  refine .bind fun isMiddleware _ => ?_
  split
  · refine .bind fun found hfound => ?_
    split
    · exact .pure .nil
    · exact .bind fun calls _ => .bind fun lost hlost => .bind fun stopped hstopped =>
        .pure (.append (checkContext_finds hfound lost hlost)
          (checkForwarding_finds hfound stopped hstopped))
  · exact .pure .nil

theorem middlewareChain_finds (severity : Severity) :
    (middlewareChain severity).Finds pass (MendsBody pass.tree) :=
  .bind fun _ _ => .bind fun ds hds =>
    .pure (Finds.gather (fun a _ => checkMiddleware_finds a) ds hds)

/-! ### Entities, storage and tasks -/

theorem checkEntity_finds (decl : TypeDecl) :
    Yields (checkEntity pass decl) (Finds pass NoFix) := by
  unfold checkEntity
  refine .bind fun entity _ => ?_
  split
  · refine .pure (.append ?_ ?_)
    · unfold checkPlacement
      split
      · exact .nil
      · split
        · exact .nil
        · exact .plain
    · unfold checkValidation
      split
      · exact .nil
      · split
        · exact .nil
        · exact .plain
  · exact .pure .nil

theorem domainLayering_finds (severity : Severity) : (domainLayering severity).Finds pass NoFix :=
  .bind fun _ _ => .bind fun ds hds => .pure (Finds.gather (fun a _ => checkEntity_finds a) ds hds)

theorem checkStorage_finds (decls : Declarations) (decl : TypeDecl) :
    Yields (checkStorage pass decls decl) (Finds pass NoFix) := by
  unfold checkStorage
  refine .bind fun wraps _ => .bind fun begins _ => .pure (.append ?_ ?_)
  · split
    · exact .nil
    · exact .plain
  · split
    · exact .nil
    · exact .plain

theorem storageShape_finds (severity : Severity) : (storageShape severity).Finds pass NoFix :=
  .bind fun decls _ => .bind fun ds hds =>
    .pure (Finds.gather (fun a _ => checkStorage_finds decls a) ds hds)

/-- A fix of a task replaces a node, or inserts behind one. -/
def MendsNode (t : Tree) (_ : Span) (fix : Fix) : Prop :=
  ∃ id text, fix.edits = [.replace (t.span id) text] ∨ fix.edits = [.insert (t.span id).stop text]

theorem checkRename_finds (field : Nat) :
    Yields (checkRename pass field) (Finds pass (MendsNode pass.tree)) := by
  unfold checkRename
  split
  · exact .pure .nil
  · split
    · exact .pure .nil
    · refine .bind fun fix hfix => .pure (.fixed fun other hother => ?_)
      rw [List.mem_singleton.mp hother]
      exact ⟨field, _, .inl (edits_of_check hfix)⟩

private theorem timeFix_mends (value : Nat) (span : Span) :
    Yields (timeFix pass value) fun fixes => ∀ fix ∈ fixes, MendsNode pass.tree span fix := by
  unfold timeFix
  refine .bind fun current _ => ?_
  split
  · refine .bind fun fix hfix => .pure fun other hother => ?_
    rw [List.mem_singleton.mp hother]
    exact ⟨value, _, .inr (edits_of_check hfix)⟩
  · exact .pure (by simp)

theorem checkTime_finds (field value : Nat) :
    Yields (checkTime pass field value) (Finds pass (MendsNode pass.tree)) := by
  unfold checkTime
  dsimp only
  split
  · exact .pure .nil
  · refine .bind fun numeric _ => ?_
    split
    · exact .pure .nil
    · split
      · exact .pure .nil
      · split
        · exact .pure .nil
        · exact .bind fun fixes hfixes => .pure (.fixed (timeFix_mends value _ fixes hfixes))

theorem checkElement_finds (element : Nat) :
    Yields (checkElement pass element) (Finds pass (MendsNode pass.tree)) := by
  unfold checkElement
  refine .bind fun id _ => ?_
  split
  · refine .bind fun key _ => .bind fun value _ => ?_
    exact .bind fun renamed hrenamed => .bind fun timed htimed =>
      .pure (.append (checkRename_finds key renamed hrenamed) (checkTime_finds key value timed htimed))
  · exact .pure .nil

theorem checkTarget_finds (pair : Nat × Nat) :
    Yields (checkTarget pass pair) (Finds pass (MendsNode pass.tree)) := by
  unfold checkTarget
  refine .bind fun id _ => ?_
  split
  · split
    · exact .bind fun field _ => .bind fun value _ => checkTime_finds field value
    · exact .pure .nil
  · exact .pure .nil

theorem checkTaskNode_finds (id : Nat) :
    Yields (checkTaskNode pass id) (Finds pass (MendsNode pass.tree)) := by
  unfold checkTaskNode
  dsimp only
  split
  · split
    · exact Finds.gather fun element _ => checkElement_finds element
    · exact .pure .nil
  · split
    · exact .bind fun field _ => checkRename_finds field
    · exact .pure .nil
  · split
    · exact Finds.gather fun pair _ => checkTarget_finds pair
    · exact .pure .nil
  · exact .pure .nil

theorem taskFields_finds (severity : Severity) :
    (taskFields severity).Finds pass (MendsNode pass.tree) :=
  .bind fun ds hds => .pure (Finds.gather (fun a _ => checkTaskNode_finds a) ds hds)

/-! ### Errors and logging -/

theorem checkReturn_finds (id : Nat) : Yields (checkReturn pass id) (Finds pass NoFix) := by
  unfold checkReturn
  split
  · refine Finds.gather fun result _ => ?_
    unfold checkResult
    refine .bind fun result _ => ?_
    split
    · exact .pure .nil
    · exact .pure .plain
  · exact .pure .nil

theorem errorWrapping_finds (severity : Severity) : (errorWrapping severity).Finds pass NoFix :=
  .bind fun _ _ => .bind fun ds hds => .pure (Finds.gather (fun a _ => checkReturn_finds a) ds hds)

theorem checkLoggingCall_finds (call : Nat) :
    Yields (checkLoggingCall pass call) (Finds pass NoFix) := by
  unfold checkLoggingCall
  refine .bind fun name _ => ?_
  split
  · exact .pure .nil
  · exact .bind fun args _ => .pure (.map fun problem _ => .plain)

theorem checkUnlogged_finds (decl : FuncDecl) :
    Yields (checkUnlogged pass decl) (Finds pass NoFix) := by
  unfold checkUnlogged
  refine .bind fun body _ => ?_
  split
  · exact .pure .nil
  · refine .bind fun fails _ => ?_
    split
    · refine .bind fun logging _ => ?_
      split
      · exact .pure .plain
      · exact .pure .nil
    · exact .pure .nil

theorem structuredLogging_finds (severity : Severity) :
    (structuredLogging severity).Finds pass NoFix :=
  .bind fun _ _ => .bind fun _ _ => .bind fun calls hcalls => .bind fun returns hreturns =>
    .pure (.append (Finds.gather (fun a _ => checkLoggingCall_finds a) calls hcalls)
      (Finds.gather (fun a _ => checkUnlogged_finds a) returns hreturns))

/-! ### Interfaces -/

theorem checkContract_finds (decl : TypeDecl) :
    Yields (checkContract pass decl) (Finds pass NoFix) :=
  .bind fun _ _ => .pure (.map fun _ _ => .plain)

theorem interfaceContract_finds (severity : Severity) :
    (interfaceContract severity).Finds pass NoFix :=
  .bind fun _ _ => .bind fun ds hds => .pure (Finds.gather (fun a _ => checkContract_finds a) ds hds)

theorem interfaceLocation_finds (severity : Severity) :
    (interfaceLocation severity).Finds pass NoFix := by
  unfold Rule.Finds interfaceLocation
  dsimp only
  split
  · exact .pure .nil
  · exact .bind fun decls _ => .pure (.map fun decl _ => .plain)

/-! ### Style -/

theorem checkPackage_finds : Finds pass NoFix (checkPackage pass) := by
  refine .flatMap fun clause _ => ?_
  split
  · split
    · exact .nil
    · exact .plain
  · exact .nil

theorem checkImports_finds (index : NodeIndex) : Finds pass NoFix (checkImports pass index) := by
  refine .flatMap fun pair _ => ?_
  unfold checkImportPair
  dsimp only
  split
  · exact .plain
  · exact .nil

theorem checkNames_finds (index : NodeIndex) :
    Yields (checkNames pass index) (Finds pass NoFix) := by
  refine .bind fun constants _ => .bind fun others _ => .pure (.append ?_ ?_)
  · refine .flatMap fun node _ => ?_
    unfold checkConstant
    split
    · split
      · exact .plain
      · exact .nil
    · exact .nil
  · refine .flatMap fun node _ => ?_
    unfold checkMixedName
    split
    · split
      · exact .plain
      · exact .nil
    · exact .nil

theorem checkFunctionSize_finds (limits : StyleLimits) (decl : FuncDecl) :
    Yields (checkFunctionSize limits pass decl) (Finds pass NoFix) := by
  unfold checkFunctionSize
  dsimp only
  split
  · exact .pure .nil
  · split
    · exact .bind fun _ _ => .bind fun _ _ => .bind fun _ _ => .pure (.map fun _ _ => .plain)
    · exact .bind fun _ _ => .bind fun _ _ => .bind fun _ _ => .bind fun _ _ =>
        .pure (.map fun _ _ => .plain)

theorem checkFieldOrder_finds (afterHidden : Bool) (nodes : List Nat) :
    Finds pass NoFix (checkFieldOrder pass afterHidden nodes) := by
  induction nodes generalizing afterHidden with
  | nil => exact .nil
  | cons node nodes ih =>
    rw [checkFieldOrder]
    split
    · refine .append ?_ (ih afterHidden)
      split
      · exact .plain
      · exact .nil
    · exact ih true

theorem checkStruct_finds (limits : StyleLimits) (decl : TypeDecl) :
    Yields (checkStruct limits pass decl) (Finds pass NoFix) := by
  unfold checkStruct
  dsimp only
  split
  · exact .bind fun _ _ => .bind fun names _ =>
      .pure (.append (.map fun _ _ => .plain) (checkFieldOrder_finds false names))
  · exact .pure .nil

theorem checkInterface_finds (limits : StyleLimits) (decl : TypeDecl) :
    Yields (checkInterface limits pass decl) (Finds pass NoFix) :=
  .bind fun _ _ => .pure (.map fun _ _ => .plain)

theorem styleLimits_finds (limits : StyleLimits) (severity : Severity) :
    (styleLimits limits severity).Finds pass NoFix := by
  refine .bind fun index _ => .bind fun decls _ => .bind fun functions hfunctions => ?_
  refine .bind fun structs hstructs => .bind fun interfaces hinterfaces => ?_
  refine .bind fun names hnames => .pure ?_
  have hsizes := Finds.gather (fun a _ => checkFunctionSize_finds limits a) functions hfunctions
  have hfields := Finds.gather (fun a _ => checkStruct_finds limits a) structs hstructs
  have hmethods := Finds.gather (fun a _ => checkInterface_finds limits a) interfaces hinterfaces
  exact ((((checkPackage_finds.append (checkImports_finds index)).append hsizes).append
    hfields).append hmethods).append (checkNames_finds index names hnames)

/-! ### The catalog -/

/-- A fix as a rule of the catalog attaches it. -/
def Mends (t : Tree) (span : Span) (fix : Fix) : Prop :=
  MendsBody t span fix ∨ MendsNode t span fix

theorem Rule.Finds.mono {rule : Rule Published} {Suits Wider : Span → Fix → Prop}
    (h : rule.Finds pass Suits) (hwider : ∀ span fix, Suits span fix → Wider span fix) :
    rule.Finds pass Wider :=
  fun outcome houtcome => (h outcome houtcome).mono hwider

theorem Rule.Finds.of_noFix {rule : Rule Published} {Suits : Span → Fix → Prop}
    (h : rule.Finds pass NoFix) : rule.Finds pass Suits :=
  h.mono fun _ _ => False.elim

theorem finds_of_mem_catalog {severity : Severity} {limits : StyleLimits} :
    ∀ rule ∈ catalog severity limits, rule.Finds pass (Mends pass.tree) := by
  simp only [catalog, List.forall_mem_cons]
  exact ⟨treeIndex_finds.of_noFix, declIndex_finds.of_noFix, (apiHandler_finds severity).of_noFix,
    (middlewareChain_finds severity).mono fun _ _ => .inl,
    (domainLayering_finds severity).of_noFix, (interfaceContract_finds severity).of_noFix,
    (storageShape_finds severity).of_noFix, (errorWrapping_finds severity).of_noFix,
    (interfaceLocation_finds severity).of_noFix, (structuredLogging_finds severity).of_noFix,
    (taskFields_finds severity).mono fun _ _ => .inr, (styleLimits_finds limits severity).of_noFix,
    by simp⟩

end Lintel
