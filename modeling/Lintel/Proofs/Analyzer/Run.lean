import Lintel.Analyzer
import Lintel.Proofs.Registry.Schedule

/-!
# Two runs of one registry

One run takes all rules of a registry, another those that are needed for the enabled
ones. A rule cannot tell the runs apart as long as it reads only what its prerequisites
publish. What the smaller run says is then what the larger one says of the enabled rules.
-/

namespace Lintel

variable {ρ : Type}

namespace Rule

def ReadsRequired (rule : Rule ρ) : Prop :=
  ∀ unit results others, (∀ d ∈ rule.requires, results.lookup d = others.lookup d) →
    rule.run ⟨unit, rule.info, results⟩ = rule.run ⟨unit, rule.info, others⟩

def ReportsAsItself (rule : Rule ρ) : Prop :=
  ∀ unit results outcome, rule.run ⟨unit, rule.info, results⟩ = .ok outcome →
    ∀ d ∈ outcome.reported, d.rule = rule.name

/-- On a unit, the rule publishes a sound result whenever its prerequisites did. -/
def Serves (unit : SourceUnit) (sound : String → ρ → Prop) (rule : Rule ρ) : Prop :=
  ∀ results, (∀ d ∈ rule.requires, ∃ result, results.lookup d = some result ∧ sound d result) →
    ∃ result, rule.run ⟨unit, rule.info, results⟩ = .ok (.publish result) ∧
      sound rule.name result

end Rule

namespace Analyzer

variable {a b : Analyzer ρ} {unit : SourceUnit} {rule : Rule ρ} {silent : Bool}
  {results others : List (String × ρ)}

def runList (a : Analyzer ρ) (unit : SourceUnit) :
    List (Rule ρ × Bool) → List (String × ρ) → UnitReport
  | [], _ => .empty
  | (rule, silent) :: rest, results =>
    let (report, results) := a.runRule unit rule silent results
    report.append (a.runList unit rest results)

theorem runSteps_eq_runList (plan : List Scheduled) (results : List (String × ρ)) :
    a.runSteps unit plan results = a.runList unit (a.graph.steps plan) results := by
  induction plan generalizing results with
  | nil => rfl
  | cons step plan ih =>
    rw [runSteps, PassGraph.steps, List.filterMap_cons]
    cases a.graph.rules[step.index]? with
    | none => exact ih results
    | some rule => simp only [Option.map_some, runList, ih, PassGraph.steps]

/-- Nothing but the severity of a diagnostic is overridden. -/
theorem exists_overrideSeverity_eq (a : Analyzer ρ) (name : String) (d : Diagnostic) :
    ∃ severity, a.overrideSeverity name d = { d with severity := severity } := by
  unfold overrideSeverity
  split
  · split
    · exact ⟨_, rfl⟩
    · exact ⟨d.severity, rfl⟩
  · exact ⟨d.severity, rfl⟩

@[simp] private theorem overrideSeverity_rule (a : Analyzer ρ) (name : String) (d : Diagnostic) :
    (a.overrideSeverity name d).rule = d.rule := by
  obtain ⟨severity, h⟩ := a.exists_overrideSeverity_eq name d
  rw [h]

theorem runRule_error {fault : Fault} (h : rule.run ⟨unit, rule.info, results⟩ = .error fault) :
    a.runRule unit rule silent results =
      (faultReport ⟨unit, rule.info, results⟩ fault, results) := by
  simp only [runRule, h]

theorem runRule_ok {outcome : Outcome ρ} (h : rule.run ⟨unit, rule.info, results⟩ = .ok outcome) :
    a.runRule unit rule silent results =
      (a.findings ⟨unit, rule.info, results⟩ silent outcome.reported,
        (outcome.published.map (rule.name, ·)).toList ++ results) := by
  simp only [runRule, h]
  cases outcome.published with
  | none => rfl
  | some result => rfl

private theorem exists_of_mem_findings {pass : Pass ρ} {reported : List Diagnostic} {d : Diagnostic}
    (hd : d ∈ (a.findings pass silent reported).diagnostics) :
    ∃ e ∈ reported, d = a.overrideSeverity pass.rule.name e := by
  cases silent with
  | true => cases hd
  | false =>
    obtain ⟨e, he, rfl⟩ := List.mem_map.mp hd
    exact ⟨e, List.mem_of_mem_filter he, rfl⟩

theorem rule_of_mem_runRule (h : rule.ReportsAsItself) {d : Diagnostic}
    (hd : d ∈ (a.runRule unit rule silent results).1.diagnostics) : d.rule = rule.name := by
  cases hrun : rule.run ⟨unit, rule.info, results⟩ with
  | error fault =>
    rw [runRule_error hrun] at hd
    rw [List.mem_singleton.mp hd]
    rfl
  | ok outcome =>
    rw [runRule_ok hrun] at hd
    obtain ⟨e, he, rfl⟩ := exists_of_mem_findings hd
    rw [overrideSeverity_rule]
    exact h unit results outcome hrun e he

/-- A run says nothing but that rules failed and what they reported. -/
theorem exists_of_mem_runSteps {plan : List Scheduled} {d : Diagnostic}
    (hd : d ∈ (a.runSteps unit plan results).diagnostics) :
    ∃ rule ∈ a.graph.rules,
      (∃ fault : Fault,
        d = .ruleFault rule.info.code rule.name unit.file.relativePath fault.detail) ∨
      ∃ results outcome, rule.run ⟨unit, rule.info, results⟩ = .ok outcome ∧
        ∃ e ∈ outcome.reported, d = a.overrideSeverity rule.name e := by
  induction plan generalizing results with
  | nil => cases hd
  | cons step plan ih =>
    rw [runSteps] at hd
    cases hrule : a.graph.rules[step.index]? with
    | none =>
      rw [hrule] at hd
      exact ih hd
    | some rule =>
      rw [hrule] at hd
      have hsplit : d ∈ (a.runRule unit rule step.silent results).1.diagnostics ∨
          d ∈ (a.runSteps unit plan (a.runRule unit rule step.silent results).2).diagnostics :=
        List.mem_append.mp hd
      rcases hsplit with hd | hd
      · refine ⟨rule, Array.mem_of_getElem? hrule, ?_⟩
        cases hrun : rule.run ⟨unit, rule.info, results⟩ with
        | error fault =>
          rw [runRule_error hrun] at hd
          exact .inl ⟨fault, List.mem_singleton.mp hd⟩
        | ok outcome =>
          rw [runRule_ok hrun] at hd
          obtain ⟨e, he, heq⟩ := exists_of_mem_findings hd
          exact .inr ⟨results, outcome, hrun, e, he, heq⟩
      · exact ih hd

theorem lookup_published_append {name key : String} (h : name ≠ key) (published : Option ρ)
    (results : List (String × ρ)) :
    ((published.map (key, ·)).toList ++ results).lookup name = results.lookup name := by
  have hne : (name == key) = false := by simpa using h
  cases published with
  | none => rfl
  | some result => simp [List.lookup_cons, hne]

private theorem lookup_runRule {name : String} (h : name ≠ rule.name) :
    (a.runRule unit rule silent results).2.lookup name = results.lookup name := by
  cases hrun : rule.run ⟨unit, rule.info, results⟩ with
  | error fault => rw [runRule_error hrun]
  | ok outcome =>
    rw [runRule_ok hrun]
    exact lookup_published_append h outcome.published results

private theorem runRule_congr (h : rule.ReadsRequired)
    (hseverity : ∀ name, a.config.severity? name = b.config.severity? name)
    (hlookup : ∀ d ∈ rule.requires, results.lookup d = others.lookup d) :
    (a.runRule unit rule silent results).1 = (b.runRule unit rule silent others).1 := by
  have hoverride : a.overrideSeverity = b.overrideSeverity := by
    funext name d
    rw [overrideSeverity, overrideSeverity, hseverity]
  have hrun := h unit results others hlookup
  cases hother : rule.run ⟨unit, rule.info, others⟩ with
  | error fault =>
    rw [runRule_error hother, runRule_error (hrun.trans hother)]
    rfl
  | ok outcome =>
    rw [runRule_ok hother, runRule_ok (hrun.trans hother), findings, findings, hoverride]
    rfl

private theorem lookup_runRule_congr (h : rule.ReadsRequired)
    (hlookup : ∀ d ∈ rule.requires, results.lookup d = others.lookup d) {other : Bool}
    {name : String} (hname : results.lookup name = others.lookup name) :
    (a.runRule unit rule silent results).2.lookup name =
      (b.runRule unit rule other others).2.lookup name := by
  have hrun := h unit results others hlookup
  cases hother : rule.run ⟨unit, rule.info, others⟩ with
  | error fault =>
    rw [runRule_error hother, runRule_error (hrun.trans hother)]
    exact hname
  | ok outcome =>
    rw [runRule_ok hother, runRule_ok (hrun.trans hother)]
    cases outcome.published with
    | none => exact hname
    | some result =>
      simp only [Option.map_some, Option.toList_some, List.singleton_append, List.lookup_cons]
      split
      · rfl
      · exact hname

private theorem runRule_of_serves {sound : String → ρ → Prop} (h : rule.Serves unit sound)
    (hserved : ∀ d ∈ rule.requires, ∃ result, results.lookup d = some result ∧ sound d result) :
    (a.runRule unit rule silent results).1.diagnostics = [] ∧
      ∃ result, (a.runRule unit rule silent results).2.lookup rule.name = some result ∧
        sound rule.name result := by
  obtain ⟨result, hrun, hsound⟩ := h results hserved
  rw [runRule_ok hrun]
  refine ⟨?_, result, ?_, hsound⟩
  · cases silent with
    | true => rfl
    | false => rfl
  · simp [Outcome.publish]

/-- What the rules of a registry owe each other, so that one run can leave some of them
out. Others build on the basic rules only. -/
structure Separable (unit : SourceUnit) (sound : String → ρ → Prop)
    (basic enabled needed : String → Bool) (r : Registry ρ) : Prop where
  reads : ∀ rule ∈ r, rule.ReadsRequired
  reports : ∀ rule ∈ r, rule.ReportsAsItself
  requires : ∀ rule ∈ r, ∀ d ∈ rule.requires, basic d = true
  serves : ∀ rule ∈ r, basic rule.name = true → rule.Serves unit sound
  chosen : ∀ rule ∈ r, enabled rule.name = true → needed rule.name = true
  closed : ∀ rule ∈ r, needed rule.name = true → ∀ d ∈ rule.requires, needed d = true
  silent : ∀ rule ∈ r, needed rule.name = true → enabled rule.name = false → basic rule.name = true

variable {sound : String → ρ → Prop} {basic enabled needed : String → Bool} {r : Registry ρ}
  {seen : List String}

theorem Separable.tail (h : Separable unit sound basic enabled needed (rule :: r)) :
    Separable unit sound basic enabled needed r where
  reads := fun other hother => h.reads other (List.mem_cons_of_mem _ hother)
  reports := fun other hother => h.reports other (List.mem_cons_of_mem _ hother)
  requires := fun other hother => h.requires other (List.mem_cons_of_mem _ hother)
  serves := fun other hother => h.serves other (List.mem_cons_of_mem _ hother)
  chosen := fun other hother => h.chosen other (List.mem_cons_of_mem _ hother)
  closed := fun other hother => h.closed other (List.mem_cons_of_mem _ hother)
  silent := fun other hother => h.silent other (List.mem_cons_of_mem _ hother)

/-- The results of the smaller run against those of the larger one, behind some rules. -/
structure Agree (sound : String → ρ → Prop) (basic needed : String → Bool) (seen : List String)
    (results others : List (String × ρ)) : Prop where
  lookup : ∀ name, needed name = true → results.lookup name = others.lookup name
  served : ∀ name ∈ seen, basic name = true → needed name = true →
    ∃ result, results.lookup name = some result ∧ sound name result

private theorem filter_runRule (h : rule.ReportsAsItself) :
    (a.runRule unit rule silent results).1.diagnostics.filter (fun d => enabled d.rule) =
      if enabled rule.name = true then (a.runRule unit rule silent results).1.diagnostics
      else [] := by
  split
  · rename_i hon
    refine List.filter_eq_self.mpr fun d hd => ?_
    rw [rule_of_mem_runRule h hd, hon]
  · rename_i hoff
    refine List.filter_eq_nil_iff.mpr fun d hd => ?_
    rwa [rule_of_mem_runRule h hd]

/-- A rule that both runs take. -/
theorem Agree.step (hagree : Agree sound basic needed seen results others)
    (h : Separable unit sound basic enabled needed (rule :: r))
    (hdeclared : Registry.Declared seen (rule :: r))
    (hseverity : ∀ name, a.config.severity? name = b.config.severity? name)
    (hneeded : needed rule.name = true) :
    (a.runRule unit rule (!enabled rule.name) results).1.diagnostics =
        (b.runRule unit rule false others).1.diagnostics.filter (fun d => enabled d.rule) ∧
      Agree sound basic needed (rule.name :: seen)
        (a.runRule unit rule (!enabled rule.name) results).2
        (b.runRule unit rule false others).2 := by
  obtain ⟨hfresh, hbehind, -⟩ := hdeclared
  have hmem : rule ∈ rule :: r := List.mem_cons_self
  have hreads := h.reads rule hmem
  have hclosed := h.closed rule hmem hneeded
  have hlookup : ∀ d ∈ rule.requires, results.lookup d = others.lookup d :=
    fun d hd => hagree.lookup d (hclosed d hd)
  have hserved : ∀ d ∈ rule.requires, ∃ result, results.lookup d = some result ∧ sound d result :=
    fun d hd => hagree.served d (hbehind d hd) (h.requires rule hmem d hd) (hclosed d hd)
  refine ⟨?_, fun name hname => ?_, fun name hname hbasic hname' => ?_⟩
  · rw [filter_runRule (h.reports rule hmem)]
    cases hon : enabled rule.name with
    | true =>
      rw [if_pos rfl, runRule_congr hreads hseverity hlookup]
      rfl
    | false => exact (runRule_of_serves (h.serves rule hmem (h.silent rule hmem hneeded hon)) hserved).1
  · exact lookup_runRule_congr hreads hlookup (hagree.lookup name hname)
  · rcases List.mem_cons.mp hname with rfl | hname
    · exact (runRule_of_serves (h.serves rule hmem hbasic) hserved).2
    · rw [lookup_runRule fun heq => hfresh (heq ▸ hname)]
      exact hagree.served name hname hbasic hname'

/-- A rule that only the larger run takes. -/
theorem Agree.skip (hagree : Agree sound basic needed seen results others)
    (h : Separable unit sound basic enabled needed (rule :: r))
    (hneeded : needed rule.name ≠ true) :
    (b.runRule unit rule false others).1.diagnostics.filter (fun d => enabled d.rule) = [] ∧
      Agree sound basic needed (rule.name :: seen) results
        (b.runRule unit rule false others).2 := by
  have hmem : rule ∈ rule :: r := List.mem_cons_self
  have hne : ∀ name, needed name = true → name ≠ rule.name := fun name hname heq =>
    hneeded (heq ▸ hname)
  refine ⟨?_, fun name hname => ?_, fun name hname hbasic hname' => ?_⟩
  · rw [filter_runRule (h.reports rule hmem), if_neg fun hon => hneeded (h.chosen rule hmem hon)]
  · rw [lookup_runRule (hne name hname), hagree.lookup name hname]
  · exact hagree.served name ((List.mem_cons.mp hname).resolve_left (hne name hname')) hbasic hname'

/-- The smaller run says what the larger one says of the enabled rules. -/
theorem runList_filter (h : Separable unit sound basic enabled needed r)
    (hdeclared : Registry.Declared seen r)
    (hseverity : ∀ name, a.config.severity? name = b.config.severity? name)
    (hagree : Agree sound basic needed seen results others) :
    (a.runList unit ((r.filter fun rule => needed rule.name).map
        fun rule => (rule, !enabled rule.name)) results).diagnostics =
      (b.runList unit (r.map (·, false)) others).diagnostics.filter fun d => enabled d.rule := by
  induction r generalizing seen results others with
  | nil => rfl
  | cons rule r ih =>
    by_cases hneeded : needed rule.name = true
    · obtain ⟨hhead, hagree⟩ := hagree.step h hdeclared hseverity hneeded (a := a) (b := b)
      rw [List.filter_cons, if_pos hneeded]
      simp only [List.map_cons, runList, UnitReport.append, List.filter_append]
      rw [hhead, ih h.tail hdeclared.2.2 hagree]
    · obtain ⟨hhead, hagree⟩ := hagree.skip h hneeded (b := b)
      rw [List.filter_cons, if_neg hneeded]
      simp only [List.map_cons, runList, UnitReport.append, List.filter_append]
      rw [hhead, List.nil_append, ih h.tail hdeclared.2.2 hagree]

end Analyzer

end Lintel
