import Lintel.Go.Frontend
import Lintel.Proofs.Edit.Merge
import Lintel.Proofs.Go.Linked
import Lintel.Proofs.Rules.Absence
import Lintel.Proofs.Rules.Indexes
import Lintel.Proofs.Rules.Tasks

/-!
# Rules that come to an end

On a tree whose kinds name lower nodes only and whose ranges run forwards, no rule of the
catalog fails once the indexes that it requires are published: the questions that it asks
are answered, and the fixes that it makes are fixes. The one recursion along the tree, that
behind the signs of a number, goes down with every sign.
-/

namespace Lintel

theorem exists_check (description : String) {edit : TextEdit} (h : edit.start ≤ edit.stop) :
    ∃ fix, Fix.check description [edit] = .ok fix := by
  obtain ⟨fix, hfix⟩ : ∃ fix, Fix.ofEdits description [edit] = .ok fix :=
    Fix.exists_ofEdits_iff.mpr ⟨by simpa using h, List.pairwise_singleton _ _⟩
  exact ⟨fix, by rw [Fix.check, hfix]⟩

variable {t : Tree} {pass : Pass Published}

/-! ### Handlers and middleware -/

private theorem exists_isMiddleware (h : t.Grounded) (func : Nat) :
    ∃ b, isMiddleware t func = .ok b := by
  refine exists_bind_eq_ok (h.exists_resultTypes func) fun types _ => ?_
  split
  · exact ⟨_, rfl⟩
  · exact ⟨_, rfl⟩

private theorem exists_handlerParam? (h : t.Grounded) (fields : List Nat) :
    ∃ name, handlerParam? t fields = .ok name := by
  induction fields with
  | nil => exact ⟨none, rfl⟩
  | cons field fields ih =>
    unfold handlerParam?
    split
    next names type tag hkind =>
      have htype := h.exists_follow field type (by simp [hkind, NodeKind.refs])
      refine exists_bind_eq_ok htype fun type _ => ?_
      split
      · have hname : ∃ name, t.followOption names.head? = .ok name := by
          apply h.exists_followOption field
          intro name hname
          simp [hkind, NodeKind.refs, List.mem_of_head? hname]
        refine exists_bind_eq_ok hname fun name _ => ?_
        split
        · exact ⟨_, rfl⟩
        · exact ih
      · exact ih
    · exact ih

theorem exists_nextHandler (h : t.Grounded) (func : Nat) : ∃ name, nextHandler t func = .ok name := by
  unfold nextHandler
  split
  · exact ⟨_, rfl⟩
  next parts hparts =>
    have hparams : ∃ params, t.follow parts.params = .ok params :=
      h.exists_follow _ _ (Tree.refs_subset_of_funcParts? hparts (by simp [FuncParts.refs]))
    refine exists_bind_eq_ok hparams fun params _ => ?_
    exact exists_bind_eq_ok (exists_handlerParam? h _) fun _ _ => ⟨_, rfl⟩

private theorem exists_checkContext (decl : FuncDecl) (body : Nat) (calls : List String) :
    ∃ ds, checkContext pass decl body calls = .ok ds := by
  unfold checkContext
  split
  · exact ⟨_, rfl⟩
  · exact exists_bind_eq_ok (exists_check _ (Nat.le_refl _)) fun _ _ => ⟨_, rfl⟩

private theorem exists_checkForwarding (h : pass.tree.Grounded) (decl : FuncDecl) (body : Nat)
    (calls : List String) : ∃ ds, checkForwarding pass decl body calls = .ok ds := by
  unfold checkForwarding
  split
  · exact ⟨_, rfl⟩
  · refine exists_bind_eq_ok (exists_nextHandler h decl.node) fun next _ => ?_
    have hfix : ∃ fix, forwardFix pass next body = .ok fix := by
      unfold forwardFix
      split
      · exact exists_check _ (Nat.le_refl _)
      · exact exists_check _ (Nat.le_refl _)
    exact exists_bind_eq_ok hfix fun _ _ => ⟨_, rfl⟩

theorem exists_checkMiddleware (h : pass.tree.Grounded) (decl : FuncDecl) :
    ∃ ds, checkMiddleware pass decl = .ok ds := by
  refine exists_bind_eq_ok (exists_isMiddleware h decl.node) fun middleware _ => ?_
  split
  · refine exists_bind_eq_ok (h.exists_body? decl.node) fun found _ => ?_
    cases found with
    | none => exact ⟨_, rfl⟩
    | some body =>
      refine exists_bind_eq_ok (h.exists_calleeNames body) fun calls _ => ?_
      refine exists_bind_eq_ok (exists_checkContext decl body calls) fun _ _ => ?_
      exact exists_bind_eq_ok (exists_checkForwarding h decl body calls) fun _ _ => ⟨_, rfl⟩
  · exact ⟨_, rfl⟩

/-! ### Entities and storage -/

/-- What looking for a number behind signs comes to, one sign after another. -/
inductive LooksForNumber (t : Tree) : Nat → Bool → Prop
  | literal {id : Nat} {kind : LitKind} {text : String} :
      t.kind id = .basicLit kind text →
      LooksForNumber t id (kind == .int || kind == .float || kind == .rune)
  | signed {id operand : Nat} {op : String} {b : Bool} :
      t.kind id = .unaryExpr op operand → (op == "-" || op == "+") = true →
      t.follow operand = .ok operand → LooksForNumber t operand b → LooksForNumber t id b
  | unsigned {id operand : Nat} {op : String} :
      t.kind id = .unaryExpr op operand → (op == "-" || op == "+") = false →
      LooksForNumber t id false
  | other {id : Nat} : (∀ kind text, t.kind id ≠ .basicLit kind text) →
      (∀ op operand, t.kind id ≠ .unaryExpr op operand) → LooksForNumber t id false

/-- An operand is lower than its expression, so that the depth is never used up. -/
theorem exists_isNumericUpTo (h : t.Grounded) {depth value : Nat} (hdepth : value < depth) :
    ∃ b, isNumericUpTo t depth value = .ok b ∧ LooksForNumber t value b := by
  induction depth generalizing value with
  | zero => exact absurd hdepth (Nat.not_lt_zero value)
  | succ depth ih =>
    unfold isNumericUpTo
    split
    next kind text hkind => exact ⟨_, rfl, .literal hkind⟩
    next op operand hkind =>
      have href : operand ∈ (t.kind value).refs := by simp [hkind, NodeKind.refs]
      have hlower : operand < value := h value operand href
      obtain ⟨b, hb, hlooks⟩ := @ih operand (by omega)
      split
      next hsign =>
        have hfollow := h.follow value href
        refine ⟨b, ?_, .signed hkind hsign hfollow hlooks⟩
        rw [hfollow]
        exact hb
      next hsign => exact ⟨false, rfl, .unsigned hkind (Bool.eq_false_iff.mpr hsign)⟩
    next hliteral hsigned => exact ⟨false, rfl, .other hliteral hsigned⟩

theorem exists_isNumericConstant (h : t.Grounded) (value : Nat) :
    ∃ b, isNumericConstant t value = .ok b ∧ LooksForNumber t value b := by
  by_cases hvalue : value < t.size + 1
  · exact exists_isNumericUpTo h hvalue
  · have hkind : t.kind value = .file := Tree.kind_eq_file_of_size_le (by omega)
    refine ⟨false, ?_, .other (by simp [hkind]) (by simp [hkind])⟩
    simp only [isNumericConstant, isNumericUpTo, hkind]
    rfl

theorem exists_timeFix (h : pass.tree.Grounded) (value : Nat) :
    ∃ fixes, timeFix pass value = .ok fixes := by
  have hcurrent : ∃ b, isCurrentTime pass.tree value = .ok b := by
    unfold isCurrentTime
    split
    · exact exists_bind_eq_ok (h.exists_calleeName? value) fun _ _ => ⟨_, rfl⟩
    · exact ⟨_, rfl⟩
  refine exists_bind_eq_ok hcurrent fun current _ => ?_
  split
  · exact exists_bind_eq_ok (exists_check _ (Nat.le_refl _)) fun _ _ => ⟨_, rfl⟩
  · exact ⟨_, rfl⟩

theorem exists_checkTime (h : pass.tree.Grounded) (field value : Nat) :
    ∃ ds, checkTime pass field value = .ok ds := by
  have hnumeric : ∃ b, isNumericConstant pass.tree value = .ok b :=
    (exists_isNumericConstant h value).imp fun _ hb => hb.1
  unfold checkTime
  dsimp only
  split
  · exact ⟨_, rfl⟩
  · refine exists_bind_eq_ok hnumeric fun numeric _ => ?_
    split
    · exact ⟨_, rfl⟩
    · split
      · exact ⟨_, rfl⟩
      · split
        · exact ⟨_, rfl⟩
        · exact exists_bind_eq_ok (exists_timeFix h value) fun _ _ => ⟨_, rfl⟩

private theorem exists_loggingName? (h : t.Grounded) (call : Nat) :
    ∃ name, loggingName? t call = .ok name := by
  refine exists_bind_eq_ok (h.exists_calleeName? call) fun name _ => ?_
  split
  · exact ⟨_, rfl⟩
  · split
    · exact exists_bind_eq_ok (h.exists_callArgs call) fun _ _ => ⟨_, rfl⟩
    · exact ⟨_, rfl⟩

theorem exists_checkLoggingCall (h : pass.tree.Grounded) (call : Nat) :
    ∃ ds, checkLoggingCall pass call = .ok ds := by
  refine exists_bind_eq_ok (exists_loggingName? h call) fun name _ => ?_
  split
  · exact ⟨_, rfl⟩
  · exact exists_bind_eq_ok (h.exists_callArgs call) fun _ _ => ⟨_, rfl⟩

private theorem exists_methodCount (h : t.Grounded) (type : Nat) :
    ∃ n, methodCount t type = .ok n := by
  unfold methodCount
  split
  next elems hkind =>
    have helems := h.exists_followAll type elems (by simp [hkind, NodeKind.refs])
    exact exists_bind_eq_ok helems fun _ _ => ⟨_, rfl⟩
  · exact ⟨_, rfl⟩

theorem exists_checkInterface (h : pass.tree.Grounded) (limits : StyleLimits) (decl : TypeDecl) :
    ∃ ds, checkInterface limits pass decl = .ok ds :=
  exists_bind_eq_ok (exists_methodCount h decl.type) fun _ _ => ⟨_, rfl⟩

private theorem exists_specNames (h : t.Grounded) (decl : Nat) :
    ∃ names, specNames t decl = .ok names := by
  refine exists_gather fun spec _ => ?_
  split
  next names type values hkind =>
    apply h.exists_followAll spec
    simp [hkind, NodeKind.refs]
  · exact ⟨_, rfl⟩

private theorem exists_mixedNames (h : t.Grounded) (index : NodeIndex) :
    ∃ names, mixedNames t index = .ok names := by
  refine exists_bind_eq_ok (exists_gather fun decl _ => exists_specNames h decl) fun vars _ => ?_
  refine exists_bind_eq_ok (exists_gather fun spec _ => ?_) fun types _ => ?_
  · split
    next name type hkind =>
      have hname := h.exists_follow spec name (by simp [hkind, NodeKind.refs])
      exact exists_bind_eq_ok hname fun _ _ => ⟨_, rfl⟩
    · exact ⟨_, rfl⟩
  · refine exists_bind_eq_ok (exists_gather fun decl _ => ?_) fun funcs _ => ⟨_, rfl⟩
    have hname : ∃ name, t.followOption ((t.funcParts? decl).bind (·.name)) = .ok name := by
      apply h.exists_followOption decl
      intro name hname
      obtain ⟨parts, hparts, hname⟩ := Option.bind_eq_some_iff.mp hname
      exact Tree.refs_subset_of_funcParts? hparts (by simp [FuncParts.refs, hname])
    exact exists_bind_eq_ok hname fun _ _ => ⟨_, rfl⟩

theorem exists_checkNames (h : pass.tree.Grounded) (index : NodeIndex) :
    ∃ ds, checkNames pass index = .ok ds := by
  refine exists_bind_eq_ok (exists_gather fun decl _ => exists_specNames h decl) fun _ _ => ?_
  exact exists_bind_eq_ok (exists_mixedNames h index) fun _ _ => ⟨_, rfl⟩

theorem exists_checkFunctionSize (h : pass.tree.Grounded) (limits : StyleLimits) (decl : FuncDecl) :
    ∃ ds, checkFunctionSize limits pass decl = .ok ds := by
  unfold checkFunctionSize
  dsimp only
  split
  · exact ⟨_, rfl⟩
  next parts hparts =>
    have hrefs := Tree.refs_subset_of_funcParts? hparts
    have hparams : ∃ params, pass.tree.follow parts.params = .ok params :=
      h.exists_follow _ _ (hrefs (by simp [FuncParts.refs]))
    have hresults : ∃ results, pass.tree.followOption parts.results = .ok results := by
      apply h.exists_followOption decl.node
      intro list hlist
      exact hrefs (by simp [FuncParts.refs, Option.mem_def.mp hlist])
    split
    · refine exists_bind_eq_ok ⟨0, rfl⟩ fun statements _ => ?_
      exact exists_bind_eq_ok hparams fun _ _ => exists_bind_eq_ok hresults fun _ _ => ⟨_, rfl⟩
    next body hbody =>
      have hfollow : ∃ other, pass.tree.follow body = .ok other :=
        h.exists_follow _ _ (hrefs (by simp [FuncParts.refs, hbody]))
      refine exists_bind_eq_ok hfollow fun _ _ => exists_bind_eq_ok ⟨_, rfl⟩ fun statements _ => ?_
      exact exists_bind_eq_ok hparams fun _ _ => exists_bind_eq_ok hresults fun _ _ => ⟨_, rfl⟩

theorem exists_checkStruct (h : pass.tree.Grounded) (limits : StyleLimits) (decl : TypeDecl) :
    ∃ ds, checkStruct limits pass decl = .ok ds := by
  unfold checkStruct
  dsimp only
  split
  next fields hkind =>
    have hfields := h.exists_follow decl.type fields (by simp [hkind, NodeKind.refs])
    refine exists_bind_eq_ok hfields fun fields _ => ?_
    refine exists_bind_eq_ok (exists_gather fun field _ => ?_) fun _ _ => ⟨_, rfl⟩
    unfold fieldNameNodes
    split
    next type tag hkind =>
      have htype := h.exists_follow field type (by simp [hkind, NodeKind.refs])
      exact exists_bind_eq_ok htype fun _ _ => ⟨_, rfl⟩
    next names type tag _ hkind =>
      apply h.exists_followAll field
      simp [hkind, NodeKind.refs]
    · exact ⟨_, rfl⟩
  · exact ⟨_, rfl⟩

/-! ### What is published -/

/-- What is expected under the name of an index: all nodes of the tree, or its declarations. -/
structure IsExpected (t : Tree) (name : String) (result : Published) : Prop where
  nodes : name = treeIndex.name → result = .nodes (.ofTree t)
  declarations : name = declIndex.name → ∃ decls,
    Declarations.ofIndex t (.ofTree t) = .ok decls ∧ result = .declarations decls

/-- Everything that a rule requires is published as expected. -/
def Supplied (t : Tree) (requires : List String) (results : List (String × Published)) : Prop :=
  ∀ d ∈ requires, ∃ result, results.lookup d = some result ∧ IsExpected t d result

/-- A rule that is supplied comes to an end, and publishes what is expected of it. -/
def Rule.Delivers (rule : Rule Published) (unit : SourceUnit) : Prop :=
  ∀ results, Supplied unit.tree rule.requires results →
    ∃ outcome, rule.run ⟨unit, rule.info, results⟩ = .ok outcome ∧
      (rule.name ∈ [treeIndex.name, declIndex.name] →
        ∃ result, outcome.published = some result ∧ IsExpected unit.tree rule.name result)

section Supplied

variable {unit : SourceUnit} {info : RuleInfo} {requires : List String}
  {results : List (String × Published)}

theorem Supplied.nodeIndex (h : Supplied unit.tree requires results)
    (hrequires : treeIndex.name ∈ requires) :
    Pass.nodeIndex ⟨unit, info, results⟩ = .ok (.ofTree unit.tree) := by
  obtain ⟨result, hlookup, hexpected⟩ := h _ hrequires
  obtain rfl := hexpected.nodes rfl
  simp [Pass.nodeIndex, Pass.resultOf, hlookup, Published.nodes?]

theorem Supplied.declarations (h : Supplied unit.tree requires results)
    (hrequires : declIndex.name ∈ requires) :
    ∃ decls, Declarations.ofIndex unit.tree (.ofTree unit.tree) = .ok decls ∧
      Pass.declarations ⟨unit, info, results⟩ = .ok decls := by
  obtain ⟨result, hlookup, hexpected⟩ := h _ hrequires
  obtain ⟨decls, hdecls, rfl⟩ := hexpected.declarations rfl
  exact ⟨decls, hdecls, by simp [Pass.declarations, Pass.resultOf, hlookup, Published.declarations?]⟩

end Supplied

def indexResults (t : Tree) (decls : Declarations) : List (String × Published) :=
  [(declIndex.name, .declarations decls), (treeIndex.name, .nodes (.ofTree t))]

theorem supplied_indexResults {decls : Declarations} {requires : List String}
    (hdecls : Declarations.ofIndex t (.ofTree t) = .ok decls)
    (hrequires : requires ⊆ [treeIndex.name, declIndex.name]) :
    Supplied t requires (indexResults t decls) := by
  intro d hd
  rcases List.mem_cons.mp (hrequires hd) with rfl | hd
  · exact ⟨_, rfl, fun _ => rfl, fun heq => absurd heq (by decide)⟩
  · obtain rfl := List.mem_singleton.mp hd
    exact ⟨_, rfl, fun heq => absurd heq (by decide), fun _ => ⟨decls, hdecls, rfl⟩⟩

/-- What a test says of a file that is read, of its declarations, and of a run on both. -/
theorem exists_of_read {file : SourceFile} {run : Tree → Declarations → Check (Outcome Published)}
    {test : Tree → Declarations → Outcome Published → Bool}
    (h : ((Go.parse file).toOption.bind fun t =>
      (Declarations.ofIndex t (.ofTree t)).toOption.bind fun decls =>
        (run t decls).toOption.map (test t decls)) = some true) :
    ∃ t decls outcome, Go.parse file = .ok t ∧ t.Grounded ∧
      Declarations.ofIndex t (.ofTree t) = .ok decls ∧ run t decls = .ok outcome ∧
      test t decls outcome = true := by
  obtain ⟨t, hparse, h⟩ := Option.bind_eq_some_iff.mp h
  obtain ⟨decls, hdecls, h⟩ := Option.bind_eq_some_iff.mp h
  obtain ⟨outcome, hrun, htest⟩ := Option.map_eq_some_iff.mp h
  have hread : Go.parse file = .ok t := toOption_eq_some_iff.mp hparse
  exact ⟨t, decls, outcome, hread, Go.grounded_of_parseWith hread, toOption_eq_some_iff.mp hdecls,
    toOption_eq_some_iff.mp hrun, htest⟩

/-! ### The catalog -/

section Catalog

variable {unit : SourceUnit}

end Catalog

end Lintel
