import Lintel.Proofs.Registry.Build
import Mathlib.Data.List.Chain

/-!
# Cycles

A rule that could not be placed requires another one that could not. The search follows
such prerequisites on a path without repetitions. Such a path is no longer than the
registry, so a rule comes back, and what was walked since is a cycle.
-/

namespace Lintel

/-- A path in steps of a relation that ends where it begins and meets nothing else twice. -/
structure SimpleCycle {α : Type} (R : α → α → Prop) (path : List α) : Prop where
  long : 2 ≤ path.length
  closed : path.head? = path.getLast?
  distinct : path.dropLast.Nodup
  steps : path.IsChain R

theorem SimpleCycle.map {α β : Type} {R : α → α → Prop} {S : β → β → Prop} {f : α → β}
    {path : List α} (h : SimpleCycle R path) (hf : ∀ a ∈ path, ∀ b ∈ path, f a = f b → a = b)
    (hRS : ∀ a ∈ path, ∀ b ∈ path, R a b → S (f a) (f b)) : SimpleCycle S (path.map f) := by
  refine ⟨by simpa using h.long, by simp [h.closed], ?_, ?_⟩
  · rw [← List.map_dropLast]
    refine h.distinct.map_on fun a ha b hb => ?_
    exact hf a (List.mem_of_mem_dropLast ha) b (List.mem_of_mem_dropLast hb)
  · rw [List.isChain_map]
    exact h.steps.imp_of_mem_imp fun a b ha hb => hRS a ha b hb

/-! ### The search -/

/-- The first prerequisite of a rule that is not placed. -/
def unmet? (deps : Array (List Nat)) (placed : List Nat) (i : Nat) : Option Nat :=
  (deps.getD i []).find? fun d => !placed.contains d

/-- What a search finds that has walked a path and has come to a rule. It is stuck if the rule
misses nothing, and goes on until what it misses has been met. -/
inductive Chases (deps : Array (List Nat)) (placed : List Nat) :
    List Nat → Nat → List Nat → Prop
  | stuck {path : List Nat} {current : Nat} (h : unmet? deps placed current = none) :
      Chases deps placed path current (path ++ [current])
  | back {path : List Nat} {current next : Nat} (h : unmet? deps placed current = some next)
      (hmet : next ∈ path ++ [current]) :
      Chases deps placed path current ((path ++ [current]).dropWhile (· != next) ++ [next])
  | on {path cycle : List Nat} {current next : Nat} (h : unmet? deps placed current = some next)
      (hnew : next ∉ path ++ [current])
      (hrest : Chases deps placed (path ++ [current]) next cycle) :
      Chases deps placed path current cycle

/-- The search from the lowest rule that is not placed ends with some places. -/
def FindsCycle (deps : Array (List Nat)) (placed cycle : List Nat) : Prop :=
  ∃ start, IsLeast {i | i < deps.size ∧ i ∉ placed} start ∧ Chases deps placed [] start cycle

section Search

variable {deps : Array (List Nat)} {placed path cycle : List Nat} {current next i d : Nat}

theorem unmet?_spec (h : unmet? deps placed i = some d) :
    d ∈ deps.getD i [] ∧ d ∉ placed := by
  refine ⟨List.mem_of_find?_eq_some h, ?_⟩
  simpa using List.find?_some h

private theorem lt_size_of_mem_getD (h : d ∈ deps.getD i []) : i < deps.size := by
  by_contra hi
  simp [Array.getD, hi] at h

private theorem chase_succ (steps : Nat) : chase deps placed (steps + 1) path current =
    match unmet? deps placed current with
    | none => path ++ [current]
    | some next =>
      if (path ++ [current]).contains next then (path ++ [current]).dropWhile (· != next) ++ [next]
      else chase deps placed steps (path ++ [current]) next :=
  rfl

/-- The search ends by itself, within as many steps as there are rules. -/
theorem chases_chase (hnodup : path.Nodup) (hbound : ∀ i ∈ path, i < deps.size)
    (hnew : current ∉ path) {steps : Nat} (hsteps : deps.size ≤ path.length + steps) :
    Chases deps placed path current (chase deps placed steps path current) := by
  induction steps generalizing path current with
  | zero =>
    -- The path holds every rule, so the search has left the registry and is stuck.
    have hsub : path ⊆ List.range deps.size := fun i hi => List.mem_range.mpr (hbound i hi)
    have hperm := (List.subperm_of_subset hnodup hsub).perm_of_length_le (by simpa using hsteps)
    have hout : ¬ current < deps.size := fun hlt => hnew (hperm.mem_iff.mpr (List.mem_range.mpr hlt))
    exact .stuck (by simp [unmet?, Array.getD, hout])
  | succ steps ih =>
    rw [chase_succ]
    split
    · rename_i hunmet
      exact .stuck hunmet
    · rename_i next hunmet
      have hcurrent := lt_size_of_mem_getD (unmet?_spec hunmet).1
      split
      · rename_i hmet
        exact .back hunmet (List.contains_iff_mem.mp hmet)
      · rename_i hmet
        rw [List.contains_iff_mem] at hmet
        refine .on hunmet hmet (ih ?_ ?_ hmet (by simp; omega))
        · exact List.nodup_append_comm.mp (List.nodup_cons.mpr ⟨hnew, hnodup⟩)
        · intro i hi
          rcases List.mem_append.mp hi with hi | hi
          · exact hbound i hi
          · exact List.mem_singleton.mp hi ▸ hcurrent

theorem Chases.unique {cycle' : List Nat} (h : Chases deps placed path current cycle)
    (h' : Chases deps placed path current cycle') : cycle = cycle' := by
  induction h with
  | stuck hnone =>
    cases h' with
    | stuck => rfl
    | back hsome => cases hnone.symm.trans hsome
    | on hsome => cases hnone.symm.trans hsome
  | back hsome hmet =>
    cases h' with
    | stuck hnone => cases hsome.symm.trans hnone
    | back hsome' =>
      obtain rfl := Option.some.inj (hsome.symm.trans hsome')
      rfl
    | on hsome' hnew =>
      obtain rfl := Option.some.inj (hsome.symm.trans hsome')
      exact absurd hmet hnew
  | on hsome hnew _ ih =>
    cases h' with
    | stuck hnone => cases hsome.symm.trans hnone
    | back hsome' hmet =>
      obtain rfl := Option.some.inj (hsome.symm.trans hsome')
      exact absurd hmet hnew
    | on hsome' _ hrest =>
      obtain rfl := Option.some.inj (hsome.symm.trans hsome')
      exact ih hrest

theorem FindsCycle.unique {cycle' : List Nat} (h : FindsCycle deps placed cycle)
    (h' : FindsCycle deps placed cycle') : cycle = cycle' := by
  obtain ⟨start, hstart, hchases⟩ := h
  obtain ⟨start', hstart', hchases'⟩ := h'
  obtain rfl := Nat.le_antisymm (hstart.2 hstart'.1) (hstart'.2 hstart.1)
  exact hchases.unique hchases'

private theorem findsCycle_findCycle (h : ∃ i < deps.size, i ∉ placed) :
    FindsCycle deps placed (findCycle deps placed) := by
  obtain ⟨i, hi, hfresh⟩ := h
  unfold findCycle
  split
  · rename_i hnone
    have hplaced := List.find?_range_eq_none.mp hnone i hi
    simp [hfresh] at hplaced
  · rename_i start hstart
    obtain ⟨hfree, hlt, hbefore⟩ := List.find?_range_eq_some.mp hstart
    have hleast : IsLeast {i | i < deps.size ∧ i ∉ placed} start := by
      refine ⟨⟨List.mem_range.mp hlt, by simpa using hfree⟩, fun j hj => ?_⟩
      by_contra hlow
      exact hj.2 (by simpa using hbefore j (by omega))
    exact ⟨start, hleast, chases_chase .nil (by simp) (by simp) (by simp)⟩

/-- A path along unmet prerequisites that are not placed. -/
structure Trail (deps : Array (List Nat)) (placed trail : List Nat) : Prop where
  nodup : trail.Nodup
  steps : trail.IsChain fun i d => d ∈ deps.getD i []
  unplaced : ∀ i ∈ trail, i < deps.size ∧ i ∉ placed

theorem Trail.on (h : Trail deps placed (path ++ [current]))
    (hbound : ∀ i d, d ∈ deps.getD i [] → d < deps.size)
    (hunmet : unmet? deps placed current = some next) (hnew : next ∉ path ++ [current]) :
    Trail deps placed (path ++ [current] ++ [next]) := by
  obtain ⟨hmem, hfresh⟩ := unmet?_spec hunmet
  refine ⟨List.nodup_append_comm.mp (List.nodup_cons.mpr ⟨hnew, h.nodup⟩), ?_, ?_⟩
  · refine h.steps.append (List.isChain_singleton _) ?_
    simpa using hmem
  · intro i hi
    rcases List.mem_append.mp hi with hi | hi
    · exact h.unplaced i hi
    · obtain rfl := List.mem_singleton.mp hi
      exact ⟨hbound _ _ hmem, hfresh⟩

/-- The part of a trail from the rule that comes back is a cycle. -/
theorem Trail.back (h : Trail deps placed (path ++ [current])) (hnext : next ∈ deps.getD current [])
    (hmet : next ∈ path ++ [current]) : SimpleCycle (fun i d => d ∈ deps.getD i [])
      ((path ++ [current]).dropWhile (· != next) ++ [next]) := by
  obtain ⟨front, rest, hsplit, hfront⟩ := List.eq_append_cons_of_mem hmet
  have hdrop : (path ++ [current]).dropWhile (· != next) = next :: rest := by
    rw [hsplit, List.dropWhile_append_of_pos fun i hi => ?_]
    · simp
    · simpa using fun heq : i = next => hfront (heq ▸ hi)
  have hsuffix : next :: rest <:+ path ++ [current] := ⟨front, hsplit.symm⟩
  have hlast : (next :: rest).getLast? = some current := by
    rw [← List.getLast?_append_cons front, ← hsplit, List.getLast?_concat]
  rw [hdrop]
  refine ⟨by simp, by rw [List.getLast?_concat]; rfl, ?_, ?_⟩
  · rw [List.dropLast_concat]
    exact h.nodup.sublist hsuffix.sublist
  · refine (h.steps.suffix hsuffix).append (List.isChain_singleton _) ?_
    simpa [hlast] using hnext

/-- Where each rule that is not placed misses one that is not placed, a search finds a cycle. -/
theorem Chases.simpleCycle (h : Chases deps placed path current cycle)
    (htrail : Trail deps placed (path ++ [current]))
    (hbound : ∀ i d, d ∈ deps.getD i [] → d < deps.size)
    (hunmet : ∀ i, i < deps.size → i ∉ placed → unmet? deps placed i ≠ none) :
    SimpleCycle (fun i d => d ∈ deps.getD i []) cycle ∧ ∀ i ∈ cycle, i < deps.size := by
  induction h with
  | stuck hnone =>
    obtain ⟨hlt, hfresh⟩ := htrail.unplaced _ (List.mem_append_right _ List.mem_cons_self)
    exact absurd hnone (hunmet _ hlt hfresh)
  | back hsome hmet =>
    refine ⟨htrail.back (unmet?_spec hsome).1 hmet, fun i hi => ?_⟩
    rcases List.mem_append.mp hi with hi | hi
    · exact (htrail.unplaced i (List.dropWhile_sublist _ |>.subset hi)).1
    · exact List.mem_singleton.mp hi ▸ (htrail.unplaced _ hmet).1
  | on hsome hnew _ ih => exact ih (htrail.on hbound hsome hnew)

theorem FindsCycle.simpleCycle (h : FindsCycle deps placed cycle)
    (hbound : ∀ i d, d ∈ deps.getD i [] → d < deps.size)
    (hunmet : ∀ i, i < deps.size → i ∉ placed → unmet? deps placed i ≠ none) :
    SimpleCycle (fun i d => d ∈ deps.getD i []) cycle ∧ ∀ i ∈ cycle, i < deps.size := by
  obtain ⟨start, hstart, hchases⟩ := h
  refine hchases.simpleCycle ⟨by simp, by simp, fun i hi => ?_⟩ hbound hunmet
  exact List.mem_singleton.mp hi ▸ hstart.1

end Search

/-- A rule that is left over misses a rule that is left over, or it could have been placed. -/
theorem unmet?_runOrder {deps : Array (List Nat)} {i : Nat} (hi : i < deps.size)
    (hfresh : i ∉ runOrder deps) : unmet? deps (runOrder deps) i ≠ none := by
  intro hnone
  refine not_free_runOrder deps i ⟨hi, hfresh, fun d hd => ?_⟩
  simpa using List.find?_eq_none.mp hnone d hd

/-! ### Registries with a cycle -/

namespace Registry

variable {ρ : Type} {r : Registry ρ}

/-- Where names are distinct and prerequisites known, but a rule comes before itself, the search
ends in one way, and what is reported is a cycle. -/
theorem build_eq_cycle (hdistinct : r.names.Nodup)
    (hknown : ∀ rule ∈ r, ∀ dependency ∈ rule.requires, dependency ∈ r.names)
    (hcyclic : ∃ name, Relation.TransGen r.Needs name name) :
    ∃ path, r.build = .error (.cycle path) ∧ SimpleCycle r.Needs path ∧
      ∃ deps, Resolved r deps ∧ ∃ cycle, path = cycle.map (r.names.getD · "") ∧
        ∀ places, FindsCycle deps (runOrder deps) places ↔ places = cycle := by
  obtain ⟨lists, hlists⟩ := exists_mapM_eq_ok_iff.mpr fun rule hrule =>
    exists_dependencies_iff.mpr (hknown rule hrule)
  have hresolved := resolved_of_mapM hdistinct hlists
  generalize hdeps : lists.toArray = deps at hresolved
  have hlen : (runOrder deps).length ≠ deps.size := fun hlen =>
    hcyclic.elim (hresolved.not_needs_self hlen)
  have hleft : ∃ i < deps.size, i ∉ runOrder deps := by
    by_contra hnone
    exact hlen ((greedy_runOrder deps).length_eq fun i hi =>
      by_contra fun hfresh => hnone ⟨i, hi, hfresh⟩)
  have hfinds := findsCycle_findCycle hleft
  obtain ⟨hcycle, hbound⟩ := hfinds.simpleCycle hresolved.bound fun _ => unmet?_runOrder
  have hnames : ∀ i ∈ findCycle deps (runOrder deps), r.names[i]? = some (r.names.getD i "") := by
    intro i hi
    have hlt : i < r.names.length := by simpa [names, hresolved.size] using hbound i hi
    simp [List.getD_eq_getElem?_getD, hlt]
  have hbuild : r.build = .error (.cycle ((findCycle deps (runOrder deps)).filterMap
      fun i => r.names[i]?)) := by
    simp only [build, firstDuplicate_names.mpr hdistinct, hlists, hdeps, if_neg hlen]
  rw [List.filterMap_eq_map_iff_forall_eq_some.mpr hnames] at hbuild
  refine ⟨_, hbuild, hcycle.map (fun i hi j hj heq => ?_) fun _ _ _ _ => hresolved.needs,
    deps, hresolved, _, rfl, fun places => ⟨fun h => h.unique hfinds, fun h => h ▸ hfinds⟩⟩
  exact place_unique hdistinct (hnames i hi) (heq ▸ hnames j hj)

/-- The rule declared first requires two that require each other. -/
def tangledRegistry : Registry Unit :=
  [idleRule "report" ["index", "types"], idleRule "types" ["decls"], idleRule "index" [],
    idleRule "decls" ["index", "types"]]

theorem build_tangledRegistry : SimpleCycle tangledRegistry.Needs ["types", "decls", "types"] ∧
    tangledRegistry.build = .error (.cycle ["types", "decls", "types"]) := by
  have hdistinct : tangledRegistry.names.Nodup := by decide
  have hknown : ∀ rule ∈ tangledRegistry, ∀ dependency ∈ rule.requires,
      dependency ∈ tangledRegistry.names := by decide
  have htypes : tangledRegistry.Needs "types" "decls" :=
    ⟨idleRule "types" ["decls"], by simp [tangledRegistry], rfl, by decide⟩
  have hdecls : tangledRegistry.Needs "decls" "types" :=
    ⟨idleRule "decls" ["index", "types"], by simp [tangledRegistry], rfl, by decide⟩
  have hbuild : tangledRegistry.build = .error (.cycle ["types", "decls", "types"]) := by cbv
  obtain ⟨path, hpath, hcycle, -⟩ :=
    build_eq_cycle hdistinct hknown ⟨"types", (Relation.TransGen.single htypes).tail hdecls⟩
  obtain rfl : path = ["types", "decls", "types"] := by simpa [hpath] using hbuild
  exact ⟨hcycle, hbuild⟩

end Registry

end Lintel
