import Lintel.Proofs.Registry.Schedule

/-!
# Rules that do something else

A registry is put in order by what is known of its rules without running them. When a rule
does something else, the graph and every plan of it therefore stay as they are.
-/

namespace Lintel

variable {ρ : Type} {name : String} {run : Pass ρ → Check (Outcome ρ)}

/-- The rule, doing something else if it has a name. -/
def Rule.setRun (name : String) (run : Pass ρ → Check (Outcome ρ)) (rule : Rule ρ) : Rule ρ :=
  if rule.name = name then { rule with run := run } else rule

@[simp] theorem Rule.info_setRun (rule : Rule ρ) : (rule.setRun name run).info = rule.info := by
  unfold setRun
  split
  · rfl
  · rfl

@[simp] theorem Rule.name_setRun (rule : Rule ρ) : (rule.setRun name run).name = rule.name :=
  congrArg RuleInfo.name rule.info_setRun

@[simp] theorem Rule.requires_setRun (rule : Rule ρ) :
    (rule.setRun name run).requires = rule.requires :=
  congrArg RuleInfo.requires rule.info_setRun

theorem Rule.setRun_of_ne {rule : Rule ρ} (h : rule.name ≠ name) : rule.setRun name run = rule :=
  if_neg h

def PassGraph.setRun (name : String) (run : Pass ρ → Check (Outcome ρ)) (g : PassGraph ρ) :
    PassGraph ρ :=
  { g with rules := g.rules.map (Rule.setRun name run) }

namespace Registry

def setRun (name : String) (run : Pass ρ → Check (Outcome ρ)) (r : Registry ρ) : Registry ρ :=
  r.map (Rule.setRun name run)

@[simp] private theorem names_setRun (r : Registry ρ) : (r.setRun name run).names = r.names := by
  simp [setRun, names, Function.comp_def]

@[simp] private theorem dependencies_setRun (names : List String) (rule : Rule ρ) :
    dependencies names (rule.setRun name run) = dependencies names rule := by
  simp only [dependencies, Rule.name_setRun, Rule.requires_setRun]

theorem build_setRun {r : Registry ρ} {g : PassGraph ρ} (h : r.build = .ok g) :
    (r.setRun name run).build = .ok (g.setRun name run) := by
  have hlists : (r.setRun name run).mapM (dependencies r.names) = r.mapM (dependencies r.names) := by
    rw [setRun, List.mapM_map]
    simp only [Function.comp_def, dependencies_setRun]
  unfold build at h ⊢
  rw [names_setRun, hlists]
  split at h
  · cases h
  · split at h
    · cases h
    · simp only at h ⊢
      split at h
      · rename_i hlen
        rw [if_pos hlen]
        cases h
        simp [PassGraph.setRun, setRun]
      · cases h

end Registry

namespace PassGraph

variable (g : PassGraph ρ)

@[simp] private theorem nameAt_setRun (i : Nat) : (g.setRun name run).nameAt i = g.nameAt i := by
  simp [nameAt, setRun, Function.comp_def]

@[simp] theorem schedule_setRun (enabled : String → Bool) :
    (g.setRun name run).schedule enabled = g.schedule enabled := by
  simp only [schedule_eq_reach, nameAt_setRun]
  simp [setRun]

end PassGraph

end Lintel
