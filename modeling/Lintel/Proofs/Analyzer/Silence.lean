import Lintel.Proofs.Analyzer.Turns
import Lintel.Proofs.Registry.Plan

/-!
# Rules that are not enabled

A rule that is not enabled runs if an enabled one requires it, perhaps through others. What
it reports is dropped. A fault is not: where such a rule fails, the run says so in its name,
and that is all that a run says of rules that are not enabled.
-/

namespace Lintel

variable {ρ : Type}

namespace Registry

variable {r : Registry ρ} {g : PassGraph ρ} {enabled : String → Bool}

/-- The steps of a plan are the rules that are wanted, silent if they are not enabled. -/
theorem mem_steps_schedule_iff (h : r.build = .ok g) {rule : Rule ρ} {silent : Bool} :
    (rule, silent) ∈ g.steps (g.schedule enabled) ↔
      rule ∈ r ∧ r.Wanted enabled rule.name ∧ silent = !enabled rule.name := by
  obtain ⟨deps, hresolved, hlen, rfl⟩ := eq_of_build_eq_ok h
  have hactive : ∀ {i : Nat} {rule : Rule ρ}, r[i]? = some rule →
      ((List.range r.length).filter fun i => enabled (r.names.getD i "")).contains i =
        enabled rule.name := fun {i rule} hrule => by
    obtain ⟨hlt, -⟩ := List.getElem?_eq_some_iff.mp hrule
    rw [Bool.eq_iff_iff, List.contains_iff_mem, List.mem_filter,
      and_iff_right (List.mem_range.mpr hlt), getD_names hrule]
  rw [PassGraph.steps, schedule_eq, List.filterMap_map, List.mem_filterMap]
  simp only [Function.comp_apply, List.getElem?_toArray, Option.map_eq_some_iff, Prod.mk.injEq,
    List.mem_filter, List.contains_iff_mem]
  constructor
  · rintro ⟨i, ⟨-, hneeded⟩, rule, hrule, rfl, rfl⟩
    rw [hactive hrule]
    exact ⟨List.mem_of_getElem? hrule, (hresolved.mem_neededPlaces_iff hrule).mp hneeded, rfl⟩
  · rintro ⟨hmem, hwanted, rfl⟩
    obtain ⟨i, hrule⟩ := List.mem_iff_getElem?.mp hmem
    obtain ⟨hlt, -⟩ := List.getElem?_eq_some_iff.mp hrule
    refine ⟨i, ⟨?_, (hresolved.mem_neededPlaces_iff hrule).mpr hwanted⟩, rule, hrule, rfl, ?_⟩
    · exact (hresolved.runsIn hlen).perm.mem_iff.mpr (List.mem_range.mpr hlt)
    · rw [hactive hrule]

end Registry

namespace Turn

variable {config : Config} {unit : SourceUnit} {t : Turn ρ}

/-- The fault that a rule leaves if it fails. -/
def fault? (unit : SourceUnit) (t : Turn ρ) : Option Diagnostic :=
  match t.ending with
  | .error fault =>
    some (.ruleFault t.rule.info.code t.rule.name unit.file.relativePath fault.detail)
  | .ok _ => none

private theorem fault?_eq_none_iff : t.fault? unit = none ↔ ∃ outcome, t.ending = .ok outcome := by
  unfold fault?
  cases t.ending with
  | error fault => simp
  | ok outcome => simp

private theorem rule_of_fault? {d : Diagnostic} (h : t.fault? unit = some d) :
    d.rule = t.rule.name := by
  unfold fault? at h
  cases hending : t.ending with
  | error fault =>
    rw [hending] at h
    rw [← Option.some.inj h]
    rfl
  | ok outcome =>
    rw [hending] at h
    cases h

/-- A silent rule is heard of only if it fails. -/
theorem block_of_silent (h : t.silent = true) : t.block config unit = (t.fault? unit).toList := by
  unfold block fault?
  cases t.ending with
  | error fault => rfl
  | ok outcome => simp [h]

/-- What is said at the turn of a rule that reports as itself is said in its name. -/
theorem rule_of_mem_block (hreports : t.rule.ReportsAsItself)
    (hending : t.ending = t.rule.run ⟨unit, t.rule.info, t.readable⟩) {d : Diagnostic}
    (hd : d ∈ t.block config unit) : d.rule = t.rule.name := by
  unfold block at hd
  cases hended : t.ending with
  | error fault =>
    rw [hended] at hd
    rw [List.mem_singleton.mp hd]
    rfl
  | ok outcome =>
    rw [hended] at hd
    dsimp only at hd
    split at hd
    · cases hd
    · obtain ⟨e, he, rfl⟩ := List.mem_map.mp hd
      exact hreports unit t.readable outcome (hending.symm.trans hended) e
        (List.mem_of_mem_filter he)

end Turn

namespace Analyzer

variable {a : Analyzer ρ} {r : Registry ρ} {config : Config} {exclude : List String}

private theorem runs_of_build (h : build r config exclude = .ok a) :
    a.Runs r config.isEnabled ∧ a.config = config := by
  obtain ⟨graph, hgraph, hrest⟩ := bind_eq_ok.mp h
  obtain ⟨globs, -, hok⟩ := bind_eq_ok.mp hrest
  cases hok
  exact ⟨⟨mapError_eq_ok_iff.mp hgraph, rfl⟩, rfl⟩

private theorem exists_turn_iff {unit : SourceUnit} {rule : Rule ρ} :
    (∃ t ∈ a.turns unit, t.rule = rule) ↔ ∃ silent, (rule, silent) ∈ a.graph.steps a.plan := by
  rw [← map_turnsFrom unit (a.graph.steps a.plan) []]
  simp only [List.mem_map, Prod.mk.injEq, turns]
  constructor
  · rintro ⟨t, ht, rfl⟩
    exact ⟨t.silent, t, ht, rfl, rfl⟩
  · rintro ⟨silent, t, ht, rfl, rfl⟩
    exact ⟨t, ht, rfl⟩

/-- A rule that is not enabled runs if it is wanted, and all it adds to a run is the fault with
which it fails. So where rules report as themselves, no diagnostic names a rule that is not
enabled if and only if none of those that run fails. -/
theorem runUnit_not_enabled (h : build r config exclude = .ok a) (unit : SourceUnit) :
    (a.runUnit unit).diagnostics = (a.turns unit).flatMap (·.block config unit) ∧
    (∀ rule ∈ r, (∃ t ∈ a.turns unit, t.rule = rule) ↔ r.Wanted config.isEnabled rule.name) ∧
    (∀ t ∈ a.turns unit, config.isEnabled t.rule.name = false →
      t.block config unit = (t.fault? unit).toList) ∧
    ((∀ rule ∈ r, rule.ReportsAsItself) →
      ((∀ d ∈ (a.runUnit unit).diagnostics, config.isEnabled d.rule = true) ↔
        ∀ t ∈ a.turns unit, config.isEnabled t.rule.name = false →
          ∃ outcome, t.ending = .ok outcome)) := by
  obtain ⟨hruns, rfl⟩ := runs_of_build h
  have hstep : ∀ t ∈ a.turns unit, t.rule ∈ r ∧ t.silent = !a.config.isEnabled t.rule.name :=
    fun t ht => by
      have hmem := mem_turns ht
      rw [hruns.plan, Registry.mem_steps_schedule_iff hruns.graph] at hmem
      exact ⟨hmem.1, hmem.2.2⟩
  have hblock : ∀ t ∈ a.turns unit, a.config.isEnabled t.rule.name = false →
      t.block a.config unit = (t.fault? unit).toList := fun t ht hoff =>
    Turn.block_of_silent (by rw [(hstep t ht).2, hoff, Bool.not_false])
  have hsaid := a.diagnostics_runUnit unit
  refine ⟨hsaid, fun rule hrule => ?_, hblock, fun hreports => ⟨fun hall t ht hoff => ?_,
    fun hgood d hd => ?_⟩⟩
  · rw [exists_turn_iff, hruns.plan]
    simp only [Registry.mem_steps_schedule_iff hruns.graph, hrule, true_and, exists_and_left,
      exists_eq, and_true]
  · have hnone : t.fault? unit = none ↔ _ := Turn.fault?_eq_none_iff
    rw [← hnone, Option.eq_none_iff_forall_ne_some]
    intro d hd
    have hmem : d ∈ (a.runUnit unit).diagnostics := by
      rw [hsaid, List.mem_flatMap]
      exact ⟨t, ht, by rw [hblock t ht hoff, hd]; exact List.mem_singleton_self d⟩
    have hon := hall d hmem
    rw [Turn.rule_of_fault? hd, hoff] at hon
    cases hon
  · rw [hsaid, List.mem_flatMap] at hd
    obtain ⟨t, ht, hd⟩ := hd
    rw [Turn.rule_of_mem_block (hreports _ (hstep t ht).1) (ending_of_mem_turnsFrom ht) hd]
    refine Bool.not_eq_false _ ▸ fun hoff => ?_
    rw [hblock t ht hoff, Turn.fault?_eq_none_iff.mpr (hgood t ht hoff)] at hd
    cases hd

def failingRule (name : String) : Rule Unit where
  info := ⟨name, "", "", .warning, .syntaxOnly, []⟩
  run _ := .error (.failed "no files")

/-- A rule that requires one that fails, but reads nothing of it. -/
def failingRegistry : Registry Unit :=
  [failingRule "index", Registry.idleRule "style" ["index"]]

def indexOff : Config :=
  ⟨none, {}, [("index", ⟨some false, none, []⟩)]⟩

/-- The rules in the order of their places, since the second requires the first. -/
def failingGraph : PassGraph Unit :=
  ⟨failingRegistry.toArray, #[[], [0]], [0, 1]⟩

/-- What is built of these rules, for any excluded paths: the rule that fails is run silently,
before the other. -/
def indexOffAnalyzer (globs : List Pattern.Glob) : Analyzer Unit :=
  ⟨failingGraph, [⟨0, true⟩, ⟨1, false⟩], globs, indexOff⟩

private theorem exists_build_failingRegistry :
    ∃ globs, build failingRegistry indexOff [] = .ok (indexOffAnalyzer globs) := by
  have hgraph : Registry.build failingRegistry = .ok failingGraph := by with_unfolding_all rfl
  have hplan : failingGraph.schedule indexOff.isEnabled = [⟨0, true⟩, ⟨1, false⟩] := by
    rw [PassGraph.schedule_eq_reach]
    decide
  have hread : (([] ++ indexOff.analyzer.exclude).mapM Pattern.Glob.ofText).isOk = true := rfl
  cases hglobs : ([] ++ indexOff.analyzer.exclude).mapM Pattern.Glob.ofText with
  | error e =>
    rw [hglobs] at hread
    cases hread
  | ok globs =>
    refine ⟨globs, ?_⟩
    rw [build, hgraph, hglobs, indexOffAnalyzer, ← hplan]
    rfl

theorem runUnit_not_enabled_indexOff :
    ∃ a, build failingRegistry indexOff [] = .ok a ∧
      (∀ rule ∈ failingRegistry, rule.ReportsAsItself) ∧
      (∀ t ∈ a.turns ⟨blankTree, .empty, none⟩, indexOff.isEnabled t.rule.name = false →
        t.block indexOff ⟨blankTree, .empty, none⟩ =
          (t.fault? ⟨blankTree, .empty, none⟩).toList) ∧
      ((∀ d ∈ (a.runUnit ⟨blankTree, .empty, none⟩).diagnostics,
          indexOff.isEnabled d.rule = true) ↔
        ∀ t ∈ a.turns ⟨blankTree, .empty, none⟩, indexOff.isEnabled t.rule.name = false →
          ∃ outcome, t.ending = .ok outcome) := by
  have hfails : (failingRule "index").ReportsAsItself := fun _ _ _ hok => nomatch hok
  have hidles : (Registry.idleRule "style" ["index"]).ReportsAsItself := by
    rintro unit results outcome hok d hd
    cases hok
    cases hd
  have hreports : ∀ rule ∈ failingRegistry, rule.ReportsAsItself := by
    simp only [failingRegistry, List.forall_mem_cons]
    exact ⟨hfails, hidles, fun _ hrule => nomatch hrule⟩
  obtain ⟨globs, hbuild⟩ := exists_build_failingRegistry
  obtain ⟨-, -, hblock, hall⟩ := runUnit_not_enabled hbuild ⟨blankTree, .empty, none⟩
  exact ⟨indexOffAnalyzer globs, hbuild, hreports, hblock, hall hreports⟩

/-- The run names the rule that is left out. -/
theorem runUnit_names_index :
    ∃ a d, build failingRegistry indexOff [] = .ok a ∧
      d ∈ (a.runUnit ⟨blankTree, .empty, none⟩).diagnostics ∧
      d.rule = "index" ∧ indexOff.isEnabled "index" = false := by
  obtain ⟨globs, hbuild⟩ := exists_build_failingRegistry
  exact ⟨indexOffAnalyzer globs, _, hbuild, List.mem_cons_self, rfl, rfl⟩

end Analyzer

end Lintel
