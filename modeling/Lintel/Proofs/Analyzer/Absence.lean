import Lintel.Go.Frontend
import Lintel.Proofs.Analyzer.Fixes
import Lintel.Proofs.Rules.Absence

/-!
# Runs without facts

Rules publish the same with facts and without, so that both runs of a unit give every rule
the same results to read. What the rules that read facts report without any is then reported
with facts too, unless a fact excuses it. The exception is needed: a storage type whose
methods are not known is taken to begin no transactions, which the facts may tell otherwise.
-/

namespace Lintel

def factRules : List String :=
  ["domain-layering", "storage-shape", "structured-logging", "task-fields"]

/-! ### Rules of the catalog -/

section Catalog

variable {rule : Rule Published} {unit : SourceUnit} {results : List (String × Published)}

private theorem publishes_nothing {severity : Severity} {limits : StyleLimits} :
    ∀ rule ∈ (catalog severity limits).drop 2, ∀ pass : Pass Published,
      Yields (rule.run pass) fun outcome => outcome.published = none := by
  simp only [catalog, List.drop_succ_cons, List.drop_zero, List.forall_mem_cons]
  refine ⟨?_, ?_, ?_, ?_, ?_, ?_, ?_, ?_, ?_, ?_, by simp⟩
  · exact fun pass => .bind fun _ _ => .bind fun _ _ => .pure rfl
  · exact fun pass => .bind fun _ _ => .bind fun _ _ => .pure rfl
  · exact fun pass => .bind fun _ _ => .bind fun _ _ => .pure rfl
  · exact fun pass => .bind fun _ _ => .bind fun _ _ => .pure rfl
  · exact fun pass => .bind fun _ _ => .bind fun _ _ => .pure rfl
  · exact fun pass => .bind fun _ _ => .bind fun _ _ => .pure rfl
  · intro pass
    unfold interfaceLocation
    dsimp only
    split
    · exact .pure rfl
    · exact .bind fun _ _ => .pure rfl
  · exact fun pass => .bind fun _ _ => .bind fun _ _ => .bind fun _ _ => .bind fun _ _ => .pure rfl
  · exact fun pass => .bind fun _ _ => .pure rfl
  · exact fun pass => .bind fun _ _ => .bind fun _ _ => .bind fun _ _ => .bind fun _ _ =>
      .bind fun _ _ => .bind fun _ _ => .pure rfl

/-- What is published after a rule does not depend on facts. -/
theorem results_runRule_bare (a : Analyzer Published) (hrule : rule.BuiltIn) (silent : Bool) :
    (a.runRule unit.bare rule silent results).2 = (a.runRule unit rule silent results).2 := by
  obtain ⟨severity, limits, hmem⟩ := hrule
  have hnothing : ∀ u, (∀ pass : Pass Published,
      Yields (rule.run pass) fun outcome => outcome.published = none) →
        (a.runRule u rule silent results).2 = results := by
    intro u hnone
    cases hrun : rule.run ⟨u, rule.info, results⟩ with
    | error fault => rw [Analyzer.runRule_error hrun]
    | ok outcome =>
      rw [Analyzer.runRule_ok hrun, hnone _ outcome hrun]
      rfl
  rcases List.mem_cons.mp hmem with rfl | hmem
  · rfl
  rcases List.mem_cons.mp hmem with rfl | hmem
  · rfl
  · have hnone := publishes_nothing rule hmem
    rw [hnothing unit.bare hnone, hnothing unit hnone]

/-- Of the rules that ask for facts, two report nothing without any, and two may. -/
theorem Rule.BuiltIn.needs_or_keeps (h : rule.BuiltIn) (hname : rule.name ∈ factRules)
    (pass : Pass Published) : rule.NeedsFacts pass ∨
      (rule.name = "storage-shape" ∨ rule.name = "structured-logging") ∧ rule.Keeps pass := by
  obtain ⟨severity, limits, hmem⟩ := h
  have hsame : ∀ other ∈ catalog severity limits, rule.name = other.name → rule = other :=
    fun other hother => (declared_catalog severity limits).eq_of_name_eq hmem hother
  simp only [factRules, List.mem_cons, List.not_mem_nil, or_false] at hname
  rcases hname with hname | hname | hname | hname
  · rw [hsame (domainLayering severity) (by simp [catalog]) hname]
    exact .inl (domainLayering_needsFacts severity)
  · rw [hsame (storageShape severity) (by simp [catalog]) hname]
    exact .inr ⟨.inl rfl, storageShape_keeps severity⟩
  · rw [hsame (structuredLogging severity) (by simp [catalog]) hname]
    exact .inr ⟨.inr rfl, structuredLogging_keeps severity⟩
  · rw [hsame (taskFields severity) (by simp [catalog]) hname]
    exact .inl (taskFields_needsFacts severity)

end Catalog

/-! ### Runs -/

section Runs

variable {a : Analyzer Published} {unit : SourceUnit} {rule : Rule Published}
  {results : List (String × Published)} {d : Diagnostic}

theorem Excused.overrideSeverity {t : Tree} {facts : FactTable} (h : Excused t facts d)
    (name : String) : Excused t facts (a.overrideSeverity name d) := by
  obtain ⟨severity, heq⟩ := a.exists_overrideSeverity_eq name d
  rw [heq]
  cases h with
  | begins decl methods location message known begins =>
    exact .begins decl methods location message known begins
  | logs decl body call location message inBody known =>
    exact .logs decl body call location message inBody known

/-- A finding without facts is one of storage or logging, and it is among the diagnostics with
facts, or is excused, or they say that the rule crashed on a tree that names nodes out of it. -/
def KeptBy (unit : SourceUnit) (ds : List Diagnostic) (d : Diagnostic) : Prop :=
  (d.rule = "storage-shape" ∨ d.rule = "structured-logging") ∧
    (d ∈ ds ∨ Excused unit.tree unit.facts d ∨
      ¬ unit.tree.Grounded ∧
        ∃ code detail, .ruleFault code d.rule unit.file.relativePath detail ∈ ds)

theorem KeptBy.mono {ds es : List Diagnostic} (h : KeptBy unit ds d) (hsub : ds ⊆ es) :
    KeptBy unit es d := by
  obtain ⟨hrule, h⟩ := h
  refine ⟨hrule, ?_⟩
  rcases h with h | h | ⟨hloose, code, detail, h⟩
  · exact .inl (hsub h)
  · exact .inr (.inl h)
  · exact .inr (.inr ⟨hloose, code, detail, hsub h⟩)

private theorem kept_runRule (hrule : rule.BuiltIn) {silent : Bool}
    (hd : d ∈ (a.runRule unit.bare rule silent results).1.diagnostics) (hfinding : d.isFinding = true)
    (hname : d.rule ∈ factRules) :
    KeptBy unit (a.runRule unit rule silent results).1.diagnostics d := by
  obtain ⟨severity, limits, hmem⟩ := id hrule
  have hself : d.rule = rule.name := Analyzer.rule_of_mem_runRule (reports_of_mem_catalog rule hmem) hd
  cases hbare : rule.run ⟨unit.bare, rule.info, results⟩ with
  | error fault =>
    rw [Analyzer.runRule_error hbare] at hd
    rw [List.mem_singleton.mp hd] at hfinding
    cases hfinding
  | ok outcome =>
    rw [Analyzer.runRule_ok hbare] at hd
    cases silent with
    | true => cases hd
    | false =>
      obtain ⟨e, he, rfl⟩ := List.mem_map.mp hd
      obtain ⟨he, hheard⟩ := List.mem_filter.mp he
      rcases hrule.needs_or_keeps (hself ▸ hname) ⟨unit, rule.info, results⟩ with
        hneeds | ⟨hnames, hkeeps⟩
      · rw [hneeds outcome hbare] at he
        cases he
      · refine ⟨hself ▸ hnames, ?_⟩
        rcases hkeeps outcome hbare e he with hexcused | ⟨outcome', hrun, he'⟩ | ⟨hloose, fault, hrun⟩
        · exact .inr (.inl (hexcused.overrideSeverity _))
        · rw [Analyzer.runRule_ok hrun]
          exact .inl (List.mem_map.mpr ⟨e, List.mem_filter.mpr ⟨he', hheard⟩, rfl⟩)
        · rw [Analyzer.runRule_error hrun]
          refine .inr (.inr ⟨hloose, rule.info.code, fault.detail, ?_⟩)
          rw [hself]
          exact List.mem_singleton_self _

private theorem kept_runSteps (hrules : ∀ rule ∈ a.graph.rules, rule.BuiltIn)
    {plan : List Scheduled}
    (hd : d ∈ (a.runSteps unit.bare plan results).diagnostics) (hfinding : d.isFinding = true)
    (hname : d.rule ∈ factRules) : KeptBy unit (a.runSteps unit plan results).diagnostics d := by
  induction plan generalizing results with
  | nil => cases hd
  | cons step plan ih =>
    rw [Analyzer.runSteps] at hd ⊢
    cases hrule : a.graph.rules[step.index]? with
    | none =>
      rw [hrule] at hd
      exact ih hd
    | some rule =>
      rw [hrule] at hd
      have hbuiltIn := hrules rule (Array.mem_of_getElem? hrule)
      have hsplit : d ∈ (a.runRule unit.bare rule step.silent results).1.diagnostics ∨
          d ∈ (a.runSteps unit.bare plan
            (a.runRule unit.bare rule step.silent results).2).diagnostics :=
        List.mem_append.mp hd
      rcases hsplit with hd | hd
      · exact (kept_runRule hbuiltIn hd hfinding hname).mono (List.subset_append_left _ _)
      · rw [results_runRule_bare a hbuiltIn] at hd
        exact (ih hd).mono (List.subset_append_right _ _)

/-- What the rules that ask for facts report on a unit without facts is about storage or
logging and is reported with facts too, unless a fact excuses it. -/
theorem runUnit_bare_kept (hrules : ∀ rule ∈ a.graph.rules, rule.BuiltIn) (unit : SourceUnit) :
    ∀ d ∈ (a.runUnit unit.bare).diagnostics, d.isFinding = true → d.rule ∈ factRules →
      KeptBy unit (a.runUnit unit).diagnostics d :=
  fun _ hd => kept_runSteps hrules hd

end Runs

/-- A file with a storage type that declares no method; the name of the type is its node 2. -/
def plainStore : SourceFile :=
  .ofText "store.go" "package a\n\ntype TaskStore struct \x7b\n\tfail domain.Error\n\x7d\n" ""

def storeFacts (method : String) : FactTable :=
  let type := .named (some "a") "TaskStore"
  (FactTable.empty.recordType 2 type).recordMethod type ⟨method, .pointer⟩

private theorem builtIn_of_build {preset : Preset} {config : Config} {exclude : List String}
    {a : Analyzer Published} (h : Analyzer.build preset.rules config exclude = .ok a) :
    ∀ rule ∈ a.graph.rules, rule.BuiltIn := by
  intro rule hrule
  rw [← Array.mem_toList_iff, rules_of_build h, Preset.rules_eq_filter] at hrule
  exact ⟨.warning, .standard, List.mem_of_mem_filter hrule⟩

/-- A store that is known to have another method is reported with facts as it is without. -/
theorem runUnit_bare_kept_plainStore :
    ∃ a t, Analyzer.build Preset.architecture.rules ⟨none, {}, []⟩ [] = .ok a ∧
      Go.parse plainStore = .ok t ∧ (∀ rule ∈ a.graph.rules, rule.BuiltIn) ∧
      ∃ d ∈ (a.runUnit ⟨t, .empty, none⟩).diagnostics, d.isFinding = true ∧ d.rule ∈ factRules ∧
        KeptBy ⟨t, storeFacts "Close", none⟩
          (a.runUnit ⟨t, storeFacts "Close", none⟩).diagnostics d := by
  have hrun : ((Analyzer.build Preset.architecture.rules ⟨none, {}, []⟩ []).toOption.bind fun a =>
      (Go.parse plainStore).toOption.map fun t =>
        (a.runUnit ⟨t, .empty, none⟩).diagnostics.any fun d =>
          decide (d.isFinding = true ∧ d.rule ∈ factRules)) = some true := by decide +kernel
  obtain ⟨a, ha, hmap⟩ := Option.bind_eq_some_iff.mp hrun
  obtain ⟨t, ht, hany⟩ := Option.map_eq_some_iff.mp hmap
  obtain ⟨d, hd, hdecide⟩ := List.any_eq_true.mp hany
  obtain ⟨hfinding, hname⟩ := of_decide_eq_true hdecide
  have hbuild := toOption_eq_some_iff.mp ha
  have hrules := builtIn_of_build hbuild
  exact ⟨a, t, hbuild, toOption_eq_some_iff.mp ht, hrules, d, hd, hfinding, hname,
    runUnit_bare_kept hrules ⟨t, storeFacts "Close", none⟩ d hd hfinding hname⟩

/-- A store that begins transactions by a method declared elsewhere is reported only as long
as its methods are not known. -/
theorem runUnit_bare_dropped :
    ¬ ∀ (a : Analyzer Published), (∀ rule ∈ a.graph.rules, rule.BuiltIn) →
      ∀ (unit : SourceUnit), ∀ d ∈ (a.runUnit unit.bare).diagnostics, d.isFinding = true →
        d.rule ∈ factRules → ∃ e ∈ (a.runUnit unit).diagnostics,
          e.rule = d.rule ∧ e.location = d.location ∧ e.message = d.message := by
  intro hkept
  have hrun : ((Analyzer.build Preset.architecture.rules ⟨none, {}, []⟩ []).toOption.bind fun a =>
      (Go.parse plainStore).toOption.map fun t =>
        ((a.runUnit ⟨t, .empty, none⟩).diagnostics.any fun d =>
          decide (d.isFinding = true ∧ d.rule ∈ factRules)) &&
          (a.runUnit ⟨t, storeFacts "BeginTx", none⟩).diagnostics.isEmpty) = some true := by
    decide +kernel
  obtain ⟨a, ha, hmap⟩ := Option.bind_eq_some_iff.mp hrun
  obtain ⟨t, ht, hboth⟩ := Option.map_eq_some_iff.mp hmap
  obtain ⟨hany, hempty⟩ := Bool.and_eq_true_iff.mp hboth
  obtain ⟨d, hd, hdecide⟩ := List.any_eq_true.mp hany
  obtain ⟨hfinding, hname⟩ := of_decide_eq_true hdecide
  obtain ⟨e, he, -⟩ := hkept a (builtIn_of_build (toOption_eq_some_iff.mp ha))
    ⟨t, storeFacts "BeginTx", none⟩ d hd hfinding hname
  rw [List.isEmpty_iff.mp hempty] at he
  cases he

end Lintel
