import Lintel.Proofs.Analyzer.Run
import Lintel.Proofs.Rules.Findings
import Lintel.Proofs.Tree.Grounded

/-!
# What rules read

The rules of the catalog read nothing of a run but the two indexes, and those they
require. On a tree whose kinds name lower nodes only, the indexes are always published.
-/

namespace Lintel

/-! ### Reading -/

section Reads

variable {info : RuleInfo} {results others : List (String × Published)}

private theorem nodeIndex_congr (unit : SourceUnit)
    (h : results.lookup treeIndex.name = others.lookup treeIndex.name) :
    Pass.nodeIndex ⟨unit, info, results⟩ = Pass.nodeIndex ⟨unit, info, others⟩ := by
  simp [Pass.nodeIndex, Pass.resultOf, h]

theorem declarations_congr (unit : SourceUnit)
    (h : results.lookup declIndex.name = others.lookup declIndex.name) :
    Pass.declarations ⟨unit, info, results⟩ = Pass.declarations ⟨unit, info, others⟩ := by
  simp [Pass.declarations, Pass.resultOf, h]

private theorem reads_nodeIndex {body : Pass Published → NodeIndex → Check (Outcome Published)}
    (hbody : ∀ unit results others, body ⟨unit, info, results⟩ = body ⟨unit, info, others⟩)
    (hindex : treeIndex.name ∈ info.requires) :
    Rule.ReadsRequired ⟨info, fun pass => pass.nodeIndex >>= body pass⟩ := by
  intro unit results others h
  show (Pass.nodeIndex _ >>= _) = (Pass.nodeIndex _ >>= _)
  rw [nodeIndex_congr unit (h _ hindex), hbody unit results others]

theorem reads_declarations {body : Pass Published → Declarations → Check (Outcome Published)}
    (hbody : ∀ unit results others, body ⟨unit, info, results⟩ = body ⟨unit, info, others⟩)
    (hdecls : declIndex.name ∈ info.requires) :
    Rule.ReadsRequired ⟨info, fun pass => pass.declarations >>= body pass⟩ := by
  intro unit results others h
  show (Pass.declarations _ >>= _) = (Pass.declarations _ >>= _)
  rw [declarations_congr unit (h _ hdecls), hbody unit results others]

private theorem reads_both
    {body : Pass Published → NodeIndex → Declarations → Check (Outcome Published)}
    (hbody : ∀ unit results others, body ⟨unit, info, results⟩ = body ⟨unit, info, others⟩)
    (hindex : treeIndex.name ∈ info.requires) (hdecls : declIndex.name ∈ info.requires) :
    Rule.ReadsRequired
      ⟨info, fun pass => pass.nodeIndex >>= fun index => pass.declarations >>= body pass index⟩ := by
  intro unit results others h
  show (Pass.nodeIndex _ >>= fun _ => Pass.declarations _ >>= _) =
    (Pass.nodeIndex _ >>= fun _ => Pass.declarations _ >>= _)
  rw [nodeIndex_congr unit (h _ hindex), declarations_congr unit (h _ hdecls),
    hbody unit results others]

end Reads

private theorem treeIndex_reads : treeIndex.ReadsRequired :=
  fun _ _ _ _ => rfl

private theorem declIndex_reads : declIndex.ReadsRequired :=
  reads_nodeIndex (fun _ _ _ => rfl) List.mem_cons_self

private theorem apiHandler_reads (severity : Severity) : (apiHandler severity).ReadsRequired :=
  reads_declarations (fun _ _ _ => rfl) List.mem_cons_self

private theorem middlewareChain_reads (severity : Severity) :
    (middlewareChain severity).ReadsRequired :=
  reads_declarations (fun _ _ _ => rfl) List.mem_cons_self

private theorem domainLayering_reads (severity : Severity) :
    (domainLayering severity).ReadsRequired :=
  reads_declarations (fun _ _ _ => rfl) List.mem_cons_self

private theorem interfaceContract_reads (severity : Severity) :
    (interfaceContract severity).ReadsRequired :=
  reads_declarations (fun _ _ _ => rfl) List.mem_cons_self

private theorem storageShape_reads (severity : Severity) : (storageShape severity).ReadsRequired :=
  reads_declarations (fun _ _ _ => rfl) List.mem_cons_self

private theorem errorWrapping_reads (severity : Severity) :
    (errorWrapping severity).ReadsRequired :=
  reads_nodeIndex (fun _ _ _ => rfl) List.mem_cons_self

private theorem interfaceLocation_reads (severity : Severity) :
    (interfaceLocation severity).ReadsRequired := by
  intro unit results others h
  show (if _ then _ else Pass.declarations _ >>= _) = (if _ then _ else Pass.declarations _ >>= _)
  rw [declarations_congr unit (h _ List.mem_cons_self)]
  rfl

private theorem structuredLogging_reads (severity : Severity) :
    (structuredLogging severity).ReadsRequired :=
  reads_both (fun _ _ _ => rfl) List.mem_cons_self (List.mem_cons_of_mem _ List.mem_cons_self)

private theorem taskFields_reads (severity : Severity) : (taskFields severity).ReadsRequired :=
  fun _ _ _ _ => rfl

private theorem checkFieldOrder_congr (unit : SourceUnit) (info : RuleInfo)
    (results others : List (String × Published)) :
    checkFieldOrder ⟨unit, info, results⟩ = checkFieldOrder ⟨unit, info, others⟩ := by
  funext afterHidden nodes
  induction nodes generalizing afterHidden with
  | nil => rfl
  | cons node nodes ih =>
    rw [checkFieldOrder, checkFieldOrder, ih, ih]
    rfl

private theorem checkStruct_congr (limits : StyleLimits) (unit : SourceUnit) (info : RuleInfo)
    (results others : List (String × Published)) :
    checkStruct limits ⟨unit, info, results⟩ = checkStruct limits ⟨unit, info, others⟩ := by
  funext decl
  simp only [checkStruct, checkFieldOrder_congr unit info results others]
  rfl

private theorem styleLimits_reads (limits : StyleLimits) (severity : Severity) :
    (styleLimits limits severity).ReadsRequired := by
  refine reads_both (fun unit results others => ?_) List.mem_cons_self
    (List.mem_cons_of_mem _ List.mem_cons_self)
  funext index decls
  simp only [checkStruct_congr limits unit _ results others]
  rfl

/-! ### Publishing -/

section Serves

variable {t : Tree}

private theorem exists_typeDecl? (h : t.Contained) (spec : Nat) :
    ∃ found, t.typeDecl? spec = .ok found := by
  unfold Tree.typeDecl?
  split
  · rename_i name type hkind
    have hname : t.follow name = .ok name := h.follow spec (by simp [hkind, NodeKind.refs])
    have htype : t.follow type = .ok type := h.follow spec (by simp [hkind, NodeKind.refs])
    refine exists_bind_eq_ok ⟨name, hname⟩ fun id _ => ?_
    split
    · exact ⟨none, rfl⟩
    · exact exists_bind_eq_ok ⟨type, htype⟩ fun _ _ => ⟨_, rfl⟩
  · exact ⟨none, rfl⟩

private theorem exists_receiver? (h : t.Contained) (list : Nat) :
    ∃ found, t.receiver? list = .ok found := by
  unfold Tree.receiver?
  split
  · rename_i names type tag hfirst
    obtain ⟨field, -, hkind⟩ := Option.map_eq_some_iff.mp hfirst
    have htype : t.follow type = .ok type := h.follow field (by simp [hkind, NodeKind.refs])
    refine exists_bind_eq_ok ⟨type, htype⟩ fun type _ => ?_
    dsimp only
    split
    · rename_i elem hpointer
      have helem : t.follow elem = .ok elem :=
        h.follow type (by simp [hpointer, NodeKind.refs])
      exact exists_bind_eq_ok ⟨elem, helem⟩ fun _ _ => ⟨_, rfl⟩
    · exact ⟨_, rfl⟩
  · exact ⟨none, rfl⟩

private theorem exists_funcDecl? (h : t.Contained) (decl : Nat) :
    ∃ found, t.funcDecl? decl = .ok found := by
  unfold Tree.funcDecl?
  split
  · exact ⟨none, rfl⟩
  · rename_i parts hparts
    have hrefs := NodeKind.refs_of_funcParts? hparts
    split
    · exact ⟨none, rfl⟩
    · rename_i name hname
      have hfollow : t.follow name = .ok name :=
        h.follow decl (by simp [hrefs, FuncParts.refs, hname])
      refine exists_bind_eq_ok ⟨name, hfollow⟩ fun id _ => ?_
      split
      · exact ⟨none, rfl⟩
      · split
        · exact ⟨_, rfl⟩
        · rename_i list hlist
          have hfollow : t.follow list = .ok list :=
            h.follow decl (by simp [hrefs, FuncParts.refs, hlist])
          exact exists_bind_eq_ok ⟨list, hfollow⟩ fun list _ =>
            exists_bind_eq_ok (exists_receiver? h list) fun _ _ => ⟨_, rfl⟩

theorem Tree.Contained.exists_ofIndex (h : t.Contained) (index : NodeIndex) :
    ∃ decls, Declarations.ofIndex t index = .ok decls := by
  have htypes := exists_mapM_eq_ok_iff.mpr fun spec (_ : spec ∈ index.nodes .typeSpec) =>
    exists_typeDecl? h spec
  have hfuncs := exists_mapM_eq_ok_iff.mpr fun decl (_ : decl ∈ index.nodes .funcDecl) =>
    exists_funcDecl? h decl
  exact exists_bind_eq_ok htypes fun _ _ => exists_bind_eq_ok hfuncs fun _ _ => ⟨_, rfl⟩

theorem exists_ofIndex (h : t.Grounded) (index : NodeIndex) :
    ∃ decls, Declarations.ofIndex t index = .ok decls :=
  h.contained.exists_ofIndex index

def IsIndex (name : String) (result : Published) : Prop :=
  name = treeIndex.name → ∃ index, result = .nodes index

theorem treeIndex_serves (unit : SourceUnit) : treeIndex.Serves unit IsIndex :=
  fun _ _ => ⟨.nodes (.ofTree unit.tree), rfl, fun _ => ⟨_, rfl⟩⟩

theorem declIndex_serves {unit : SourceUnit} (h : unit.tree.Grounded) :
    declIndex.Serves unit IsIndex := by
  intro results hserved
  obtain ⟨result, hlookup, hindex⟩ := hserved treeIndex.name List.mem_cons_self
  obtain ⟨index, rfl⟩ := hindex rfl
  obtain ⟨decls, hdecls⟩ := exists_ofIndex h index
  refine ⟨.declarations decls, bind_eq_ok.mpr ⟨index, ?_, ?_⟩, fun heq => ?_⟩
  · simp [Pass.nodeIndex, Pass.resultOf, hlookup, Published.nodes?]
  · exact bind_eq_ok.mpr ⟨decls, hdecls, rfl⟩
  · exact absurd heq (by decide)

end Serves

/-! ### The catalog -/

theorem reads_of_mem_catalog {severity : Severity} {limits : StyleLimits} :
    ∀ rule ∈ catalog severity limits, rule.ReadsRequired := by
  simp only [catalog, List.forall_mem_cons]
  exact ⟨treeIndex_reads, declIndex_reads, apiHandler_reads severity,
    middlewareChain_reads severity, domainLayering_reads severity,
    interfaceContract_reads severity, storageShape_reads severity, errorWrapping_reads severity,
    interfaceLocation_reads severity, structuredLogging_reads severity, taskFields_reads severity,
    styleLimits_reads limits severity, by simp⟩

end Lintel
