import Lintel.Proofs.Registry.Schedule

/-!
# What a plan holds

A plan is the order of execution without the rules that are not needed. A rule is needed
if a chain of prerequisites leads to it from an enabled rule, so a plan never parts a rule
from its prerequisites.
-/

namespace Lintel

/-- Where a filtered list is split, the list can be split as well. -/
theorem exists_append_of_filter_eq {α : Type} {p : α → Bool} {l front back : List α} {x : α}
    (h : l.filter p = front ++ x :: back) :
    ∃ before after, l = before ++ x :: after ∧ before.filter p = front ∧ p x = true := by
  obtain ⟨l₁, l₂, rfl, hfront, hrest⟩ := List.filter_eq_append_iff.mp h
  obtain ⟨m, after, rfl, hm, hx, -⟩ := List.filter_eq_cons_iff.mp hrest
  refine ⟨l₁ ++ m, after, by rw [List.append_assoc], ?_, hx⟩
  rw [List.filter_append, hfront, List.filter_eq_nil_iff.mpr hm, List.append_nil]

namespace Registry

variable {ρ : Type} {r : Registry ρ}

/-- A rule of the name is enabled, or an enabled rule requires it, perhaps through others. -/
def Wanted (r : Registry ρ) (enabled : String → Bool) (name : String) : Prop :=
  ∃ top ∈ r.names, enabled top = true ∧ Relation.ReflTransGen r.Needs top name

/-- A plan takes rules in an order, each once. It takes those that are enabled or that an enabled
rule requires, silences those that are not enabled, and has the prerequisites of a rule before
the rule. -/
structure IsPlan (r : Registry ρ) (order : List Nat) (enabled : String → Bool)
    (plan : List Scheduled) : Prop where
  inOrder : (plan.map (·.index)).Sublist order
  once : (plan.map (·.index)).Nodup
  holds : ∀ i rule, r[i]? = some rule →
    (i ∈ plan.map (·.index) ↔ r.Wanted enabled rule.name)
  silent : ∀ step ∈ plan, ∃ rule, r[step.index]? = some rule ∧ step.silent = !enabled rule.name
  behind : ∀ before step after rule, plan = before ++ step :: after →
    r[step.index]? = some rule → ∀ dependency ∈ rule.requires,
      ∃ earlier ∈ before, r.names[earlier.index]? = some dependency

theorem Wanted.needs {enabled : String → Bool} {name dependency : String}
    (h : r.Wanted enabled name) (hneeds : r.Needs name dependency) : r.Wanted enabled dependency := by
  obtain ⟨top, htop, hon, hchain⟩ := h
  exact ⟨top, htop, hon, hchain.tail hneeds⟩

theorem RunsIn.behind_of_append {before after : List Nat} {i : Nat} {rule : Rule ρ}
    (h : r.RunsIn (before ++ i :: after)) (hrule : r[i]? = some rule) {dependency : String}
    (hd : dependency ∈ rule.requires) : ∃ p ∈ before, r.names[p]? = some dependency := by
  simpa using h.behind before.length i rule (by simp) hrule dependency hd

namespace Resolved

variable {deps : Array (List Nat)} {enabled : String → Bool}

private theorem isNeeded_of_wanted (h : Resolved r deps) {name : String}
    (hwanted : r.Wanted enabled name) :
    r.isNeeded deps enabled name = true := by
  obtain ⟨top, htop, hon, hchain⟩ := hwanted
  induction hchain with
  | refl => exact h.supports.chosen top htop hon
  | tail _ hneeds ih =>
    obtain ⟨rule, hrule, rfl, hd⟩ := hneeds
    exact h.supports.closed rule hrule ih _ hd

private theorem wanted_of_mem_neededPlaces (h : Resolved r deps) {i : Nat}
    (hi : i ∈ r.neededPlaces deps enabled) : r.Wanted enabled (r.names.getD i "") := by
  have hname : ∀ i ∈ List.range r.length, r.names.getD i "" ∈ r.names := by
    intro i hi
    have hlt : i < r.length := List.mem_range.mp hi
    rw [getD_names (List.getElem?_eq_getElem hlt)]
    exact List.mem_map_of_mem (List.getElem_mem hlt)
  refine reach_induction (P := fun i => r.Wanted enabled (r.names.getD i "")) ?_ ?_ hi
  · intro i hrange hon
    exact ⟨_, hname i hrange, (List.mem_filter.mp hon).2, .refl⟩
  · intro i _ hwanted d _ hd
    exact hwanted.needs (h.needs hd)

theorem mem_neededPlaces_iff (h : Resolved r deps) {i : Nat} {rule : Rule ρ}
    (hrule : r[i]? = some rule) :
    i ∈ r.neededPlaces deps enabled ↔ r.Wanted enabled rule.name := by
  constructor
  · intro hi
    exact getD_names hrule ▸ h.wanted_of_mem_neededPlaces hi
  · intro hwanted
    obtain ⟨j, hj, hname⟩ := h.isNeeded_iff.mp (h.isNeeded_of_wanted hwanted)
    exact place_unique h.distinct hname (getElem?_names.mpr ⟨rule, hrule, rfl⟩) ▸ hj

/-- Among the places that are needed, those of the prerequisites of a rule come before its own. -/
theorem exists_needed_before (h : Resolved r deps) (hlen : (runOrder deps).length = deps.size)
    {front back : List Nat} {i : Nat}
    (horder : (runOrder deps).filter (r.neededPlaces deps enabled).contains = front ++ i :: back)
    {rule : Rule ρ} (hrule : r[i]? = some rule) {dependency : String}
    (hd : dependency ∈ rule.requires) : ∃ p ∈ front, r.names[p]? = some dependency := by
  obtain ⟨before, after, hsplit, rfl, hneeded⟩ := exists_append_of_filter_eq horder
  obtain ⟨p, hp, hname⟩ := (hsplit ▸ h.runsIn hlen).behind_of_append hrule hd
  obtain ⟨other, hother, rfl⟩ := getElem?_names.mp hname
  have hwanted := (h.mem_neededPlaces_iff hrule).mp (List.contains_iff_mem.mp hneeded)
  have hneeds : r.Needs rule.name other.name := ⟨rule, List.mem_of_getElem? hrule, rfl, hd⟩
  refine ⟨p, List.mem_filter.mpr ⟨hp, List.contains_iff_mem.mpr ?_⟩, hname⟩
  exact (h.mem_neededPlaces_iff hother).mpr (hwanted.needs hneeds)

end Resolved

theorem schedule_eq (deps : Array (List Nat)) (order : List Nat) (enabled : String → Bool) :
    PassGraph.schedule ⟨r.toArray, deps, order⟩ enabled =
      (order.filter (r.neededPlaces deps enabled).contains).map fun i =>
        ⟨i, !((List.range r.length).filter fun i => enabled (r.names.getD i "")).contains i⟩ := by
  simp only [PassGraph.schedule_eq_reach, nameAt_eq, List.size_toArray]
  rfl

/-- The plan of a graph holds the rules that are wanted, in the order of execution. -/
theorem isPlan_schedule {g : PassGraph ρ} (h : r.build = .ok g) (enabled : String → Bool) :
    r.IsPlan g.order enabled (g.schedule enabled) := by
  obtain ⟨deps, hresolved, hlen, rfl⟩ := eq_of_build_eq_ok h
  have hperm := (hresolved.runsIn hlen).perm
  have hsub := PassGraph.index_schedule_sublist ⟨r.toArray, deps, runOrder deps⟩ enabled
  have hindex : (PassGraph.schedule ⟨r.toArray, deps, runOrder deps⟩ enabled).map (·.index) =
      (runOrder deps).filter (r.neededPlaces deps enabled).contains := by
    simp [schedule_eq, Function.comp_def]
  refine ⟨hsub, (hperm.nodup_iff.mpr List.nodup_range).sublist hsub, fun i rule hrule => ?_,
    fun step hstep => ?_, fun before step after rule hplan hrule d hd => ?_⟩
  · obtain ⟨hlt, -⟩ := List.getElem?_eq_some_iff.mp hrule
    have hmem : i ∈ runOrder deps := hperm.mem_iff.mpr (List.mem_range.mpr hlt)
    rw [hindex, List.mem_filter, and_iff_right hmem, List.contains_iff_mem,
      hresolved.mem_neededPlaces_iff hrule]
  · have hlt : step.index < r.length := index_lt_of_mem_schedule h enabled hstep
    rw [schedule_eq] at hstep
    obtain ⟨i, -, rfl⟩ := List.mem_map.mp hstep
    have hrule : r[i]? = some r[i] := List.getElem?_eq_getElem hlt
    refine ⟨_, hrule, congrArg Bool.not ?_⟩
    rw [Bool.eq_iff_iff, List.contains_iff_mem, List.mem_filter,
      and_iff_right (List.mem_range.mpr hlt), getD_names hrule]
  · rw [hplan, List.map_append, List.map_cons] at hindex
    obtain ⟨p, hp, hname⟩ := hresolved.exists_needed_before hlen hindex.symm hrule hd
    obtain ⟨earlier, hearlier, rfl⟩ := List.mem_map.mp hp
    exact ⟨earlier, hearlier, hname⟩

/-- A rule on top of two that share a prerequisite, and one that nothing requires. -/
def sharedRegistry : Registry Unit :=
  [idleRule "report" ["types", "decls"], idleRule "types" ["index"], idleRule "style" [],
    idleRule "decls" ["index"], idleRule "index" []]

/-- Of two enabled rules, the one on top brings its prerequisites along, silent but for the
other. -/
theorem isPlan_sharedRegistry : ∃ g, sharedRegistry.build = .ok g ∧
    sharedRegistry.IsPlan g.order (["report", "decls"].contains ·)
      [⟨4, true⟩, ⟨1, true⟩, ⟨3, false⟩, ⟨0, false⟩] := by
  have hbuild : sharedRegistry.build =
      .ok ⟨sharedRegistry.toArray, #[[1, 3], [4], [], [4], []], [2, 4, 1, 3, 0]⟩ := by cbv
  have hplan := isPlan_schedule hbuild (["report", "decls"].contains ·)
  refine ⟨_, hbuild, ?_⟩
  have hschedule : PassGraph.schedule
      ⟨sharedRegistry.toArray, #[[1, 3], [4], [], [4], []], [2, 4, 1, 3, 0]⟩
      (["report", "decls"].contains ·) = [⟨4, true⟩, ⟨1, true⟩, ⟨3, false⟩, ⟨0, false⟩] := by
    rw [PassGraph.schedule_eq_reach]
    decide
  rwa [hschedule] at hplan

end Registry

end Lintel
