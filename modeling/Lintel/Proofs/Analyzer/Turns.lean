import Lintel.Proofs.Analyzer.Run
import Lintel.Proofs.Registry.Replace

/-!
# The turns of a run

Rules take turns on a unit, in the order of the plan. What is said in the end is what was
said at each turn, and a rule reads what the turns before it left behind, and nothing else.
A rule that fails is thus felt only by the rules that build on it.
-/

namespace Lintel

variable {ρ : Type}

/-- The turn of a rule: whether it is silent, the results it can read, and how it ends. -/
structure Turn (ρ : Type) where
  rule : Rule ρ
  silent : Bool
  readable : List (String × ρ)
  ending : Check (Outcome ρ)

/-- A diagnostic at the severity that is configured, if there is one. A fault keeps its own. -/
def Diagnostic.regrade (severity : Option Severity) (d : Diagnostic) : Diagnostic :=
  { d with severity := if d.isFinding then severity.getD d.severity else d.severity }

namespace Turn

/-- The turn of a rule on a unit. -/
def take (unit : SourceUnit) (rule : Rule ρ) (silent : Bool) (readable : List (String × ρ)) :
    Turn ρ :=
  ⟨rule, silent, readable, rule.run ⟨unit, rule.info, readable⟩⟩

/-- What the rule published; a rule that failed published nothing. -/
def result? (t : Turn ρ) : Option ρ :=
  match t.ending with
  | .ok outcome => outcome.published
  | .error _ => none

def left? (t : Turn ρ) : Option (String × ρ) :=
  t.result?.map (t.rule.name, ·)

/-- What is said at the turn. A rule that failed left a fault, which is an error under every
configuration. A rule that did not, and is not silent, left what it reported in lines where
no comment silences it. -/
def block (config : Config) (unit : SourceUnit) (t : Turn ρ) : List Diagnostic :=
  match t.ending with
  | .error fault =>
    [.ruleFault t.rule.info.code t.rule.name unit.file.relativePath fault.detail]
  | .ok outcome =>
    if t.silent then
      []
    else
      (outcome.reported.filter fun d =>
        !(Allowance.check unit.file.content d.location.line t.rule.name).isAllowed).map
          (.regrade (config.severity? t.rule.name))

private theorem block_congr {config : Config} {unit : SourceUnit} {s t : Turn ρ}
    (hinfo : t.rule.info = s.rule.info) (hsilent : t.silent = s.silent)
    (hending : t.ending = s.ending) : t.block config unit = s.block config unit := by
  simp only [block, Rule.name, hinfo, hsilent, hending]

end Turn

/-- The turns of rules in order, each silent or not, given the results published so far. -/
def turnsFrom (unit : SourceUnit) : List (Rule ρ × Bool) → List (String × ρ) → List (Turn ρ)
  | [], _ => []
  | (rule, silent) :: rest, results =>
    let turn := Turn.take unit rule silent results
    turn :: turnsFrom unit rest (turn.left?.toList ++ results)

theorem map_turnsFrom (unit : SourceUnit) (steps : List (Rule ρ × Bool))
    (results : List (String × ρ)) :
    (turnsFrom unit steps results).map (fun t => (t.rule, t.silent)) = steps := by
  induction steps generalizing results with
  | nil => rfl
  | cons step steps ih => rw [turnsFrom, List.map_cons, ih]; rfl

/-- Every turn is that of its rule on the results that it can read. -/
theorem ending_of_mem_turnsFrom {unit : SourceUnit} {steps : List (Rule ρ × Bool)}
    {results : List (String × ρ)} {t : Turn ρ} (ht : t ∈ turnsFrom unit steps results) :
    t.ending = t.rule.run ⟨unit, t.rule.info, t.readable⟩ := by
  induction steps generalizing results with
  | nil => cases ht
  | cons step steps ih =>
    rcases List.mem_cons.mp ht with rfl | ht
    · rfl
    · exact ih ht

namespace Analyzer

def turns (a : Analyzer ρ) (unit : SourceUnit) : List (Turn ρ) :=
  turnsFrom unit (a.graph.steps a.plan) []

/-- The analyzer runs a registry by the plan for a choice of enabled names. -/
structure Runs (a : Analyzer ρ) (r : Registry ρ) (enabled : String → Bool) : Prop where
  graph : r.build = .ok a.graph
  plan : a.plan = a.graph.schedule enabled

section Run

variable {a : Analyzer ρ} {unit : SourceUnit}

private theorem overrideSeverity_eq (a : Analyzer ρ) (name : String) :
    a.overrideSeverity name = .regrade (a.config.severity? name) := by
  funext d
  unfold overrideSeverity Diagnostic.regrade
  cases a.config.severity? name with
  | none => simp
  | some severity => cases hfinding : d.isFinding <;> simp

private theorem runRule_eq_take (a : Analyzer ρ) (unit : SourceUnit) (rule : Rule ρ) (silent : Bool)
    (results : List (String × ρ)) :
    (a.runRule unit rule silent results).1.diagnostics =
        (Turn.take unit rule silent results).block a.config unit ∧
      (a.runRule unit rule silent results).2 =
        (Turn.take unit rule silent results).left?.toList ++ results := by
  cases hrun : rule.run ⟨unit, rule.info, results⟩ with
  | error fault =>
    rw [runRule_error hrun]
    constructor
    · simp only [Turn.block, Turn.take, hrun]
      rfl
    · simp [Turn.left?, Turn.result?, Turn.take, hrun]
  | ok outcome =>
    rw [runRule_ok hrun]
    constructor
    · simp only [Turn.block, Turn.take, hrun, findings, overrideSeverity_eq]
      rfl
    · simp only [Turn.left?, Turn.result?, Turn.take, hrun]

private theorem diagnostics_runList (steps : List (Rule ρ × Bool)) (results : List (String × ρ)) :
    (a.runList unit steps results).diagnostics =
      (turnsFrom unit steps results).flatMap (·.block a.config unit) := by
  induction steps generalizing results with
  | nil => rfl
  | cons step steps ih =>
    obtain ⟨rule, silent⟩ := step
    obtain ⟨hblock, hresults⟩ := a.runRule_eq_take unit rule silent results
    simp only [runList, turnsFrom, UnitReport.append, List.flatMap_cons]
    rw [hblock, hresults, ih]

theorem mem_turns {t : Turn ρ} (ht : t ∈ a.turns unit) :
    (t.rule, t.silent) ∈ a.graph.steps a.plan := by
  rw [← map_turnsFrom unit (a.graph.steps a.plan) []]
  exact List.mem_map_of_mem ht

theorem diagnostics_runUnit (a : Analyzer ρ) (unit : SourceUnit) :
    (a.runUnit unit).diagnostics = (a.turns unit).flatMap (·.block a.config unit) := by
  rw [runUnit, runSteps_eq_runList, diagnostics_runList, turns]

end Run

section Plan

variable {a : Analyzer ρ} {r : Registry ρ} {enabled : String → Bool} {unit : SourceUnit}

end Plan

end Analyzer

/-! ### Another rule in place of one -/

section Replace

variable {r : Registry ρ} {name : String} {run : Pass ρ → Check (Outcome ρ)} {config : Config}
  {unit : SourceUnit}

/-- The turn of a rule in two runs, the second with another rule in place of the one of a
name. The same is said at both, unless the rule is the one replaced or builds on it. -/
structure Turn.Counterpart (r : Registry ρ) (name : String) (config : Config) (unit : SourceUnit)
    (t t' : Turn ρ) : Prop where
  info : t'.rule.info = t.rule.info
  silent : t'.silent = t.silent
  block : t.rule.name ≠ name → ¬ Relation.TransGen r.Needs t.rule.name name →
    t'.block config unit = t.block config unit

/-- Results that differ at most where the rule of a name has a part in them. -/
def AgreeApartFrom (r : Registry ρ) (name : String) (results others : List (String × ρ)) : Prop :=
  ∀ n, ¬ Relation.ReflTransGen r.Needs n name → results.lookup n = others.lookup n

theorem AgreeApartFrom.step {results others : List (String × ρ)}
    (hagree : AgreeApartFrom r name results others) {rule : Rule ρ} (hrule : rule ∈ r)
    (hreads : rule.ReadsRequired) (silent : Bool) :
    (Turn.take unit rule silent results).Counterpart r name config unit
        (Turn.take unit (rule.setRun name run) silent others) ∧
      AgreeApartFrom r name ((Turn.take unit rule silent results).left?.toList ++ results)
        ((Turn.take unit (rule.setRun name run) silent others).left?.toList ++ others) := by
  by_cases hreach : Relation.ReflTransGen r.Needs rule.name name
  · refine ⟨⟨rule.info_setRun, rfl, fun hne hnot => ?_⟩, fun n hn => ?_⟩
    · rcases Relation.reflTransGen_iff_eq_or_transGen.mp hreach with heq | htrans
      · exact absurd heq.symm hne
      · exact absurd htrans hnot
    · have hne : n ≠ rule.name := fun heq => hn (heq ▸ hreach)
      have hne' : n ≠ (rule.setRun name run).name := by rwa [rule.name_setRun]
      exact (Analyzer.lookup_published_append hne _ results).trans
        ((hagree n hn).trans (Analyzer.lookup_published_append hne' _ others).symm)
  · have hne : rule.name ≠ name := fun heq => hreach (heq ▸ .refl)
    -- what the rule requires does not need the other one either, so it reads the same
    have hrun : rule.run ⟨unit, rule.info, results⟩ = rule.run ⟨unit, rule.info, others⟩ :=
      hreads unit results others fun d hd =>
        hagree d fun hd' => hreach (.head ⟨rule, hrule, rfl, hd⟩ hd')
    rw [Rule.setRun_of_ne hne]
    refine ⟨⟨rfl, rfl, fun _ _ => Turn.block_congr rfl rfl hrun.symm⟩, fun n hn => ?_⟩
    have hleft : (Turn.take unit rule silent results).left? =
        (Turn.take unit rule silent others).left? := by
      simp only [Turn.left?, Turn.result?, Turn.take, hrun]
    rw [hleft, List.lookup_append, List.lookup_append, hagree n hn]

theorem Analyzer.Runs.setRun {a : Analyzer ρ} {enabled : String → Bool} (h : a.Runs r enabled) :
    ({ a with graph := a.graph.setRun name run } : Analyzer ρ).Runs (r.setRun name run) enabled :=
  ⟨Registry.build_setRun h.graph, by rw [PassGraph.schedule_setRun, h.plan]⟩

end Replace

def blankTree : Tree where
  file := .ofText "blank.go" "" ""
  nodes := #[⟨.file, ⟨0, 0⟩, []⟩]
  isTree := by
    refine ⟨by simp, by simp [links], by simp [linkedChildren, links], fun id hid => ?_⟩
    simp at hid

end Lintel
