import Lintel.Proofs.Registry.Declared

/-!
# Plans

The plan of a registry in order of declaration holds the rules that are needed, in the
same order, and silences those that are not enabled.
-/

namespace Lintel

variable {ρ : Type}

private theorem filterMap_filter_range {α β : Type} {as : List α} {p : Nat → Bool} {q : α → Bool}
    {f : Nat → α → β} {g : α → β} (hp : ∀ i a, as[i]? = some a → p i = q a)
    (hf : ∀ i a, as[i]? = some a → f i a = g a) :
    ((List.range as.length).filter p).filterMap (fun i => as[i]?.map (f i)) =
      (as.filter q).map g := by
  induction as using List.reverseRecOn with
  | nil => rfl
  | append_singleton as a ih =>
    have hold : ∀ {i b}, as[i]? = some b → (as ++ [a])[i]? = some b := fun hi => by
      obtain ⟨hlt, -⟩ := List.getElem?_eq_some_iff.mp hi
      rwa [List.getElem?_append_left hlt]
    have hlast : (as ++ [a])[as.length]? = some a := by simp
    have hfirst : ((List.range as.length).filter p).filterMap (fun i => (as ++ [a])[i]?.map (f i)) =
        (as.filter q).map g := by
      rw [← ih (fun i b hi => hp i b (hold hi)) (fun i b hi => hf i b (hold hi))]
      refine List.filterMap_congr fun i hi => ?_
      have hlt : i < as.length := List.mem_range.mp (List.mem_of_mem_filter hi)
      rw [List.getElem?_append_left hlt]
    rw [List.length_append, List.length_singleton, List.range_succ, List.filter_append,
      List.filterMap_append, hfirst, List.filter_append, List.map_append, List.filter_singleton,
      List.filter_singleton, hp _ _ hlast]
    cases q a with
    | false => rfl
    | true => simp [hf _ _ hlast]

namespace PassGraph

variable {g : PassGraph ρ} {plan : List Scheduled}

/-- The rules of a plan, each with whether it is silent. -/
def steps (g : PassGraph ρ) (plan : List Scheduled) : List (Rule ρ × Bool) :=
  plan.filterMap fun step => g.rules[step.index]?.map fun rule => (rule, step.silent)

theorem index_schedule_sublist (g : PassGraph ρ) (enabled : String → Bool) :
    ((g.schedule enabled).map (·.index)).Sublist g.order := by
  simp [schedule, Function.comp_def]

end PassGraph

namespace Registry

variable {r : Registry ρ}

/-- The needed names are the enabled ones and what they require. -/
structure Supports (r : Registry ρ) (enabled needed : String → Bool) : Prop where
  known : ∀ name, needed name = true → name ∈ r.names
  chosen : ∀ name ∈ r.names, enabled name = true → needed name = true
  closed : ∀ rule ∈ r, needed rule.name = true → ∀ d ∈ rule.requires, needed d = true
  reason : ∀ name, needed name = true →
    enabled name = true ∨ ∃ rule ∈ r, needed rule.name = true ∧ name ∈ rule.requires

def neededPlaces (r : Registry ρ) (deps : Array (List Nat)) (enabled : String → Bool) : List Nat :=
  reach (List.range r.length) (fun i => deps.getD i [])
    ((List.range r.length).filter fun i => enabled (r.names.getD i ""))

def isNeeded (r : Registry ρ) (deps : Array (List Nat)) (enabled : String → Bool)
    (name : String) : Bool :=
  (r.neededPlaces deps enabled).contains (r.names.idxOf name)

theorem nameAt_eq (deps : Array (List Nat)) (order : List Nat) (i : Nat) :
    PassGraph.nameAt ⟨r.toArray, deps, order⟩ i = r.names.getD i "" := by
  simp [PassGraph.nameAt, names, List.getD_eq_getElem?_getD]

namespace Resolved

variable {deps : Array (List Nat)} {enabled : String → Bool}

theorem isNeeded_iff (h : Resolved r deps) {name : String} :
    r.isNeeded deps enabled name = true ↔
      ∃ i ∈ r.neededPlaces deps enabled, r.names[i]? = some name := by
  rw [isNeeded, List.contains_iff_mem]
  constructor
  · intro hmem
    have hlt : r.names.idxOf name < r.names.length := by
      simpa [names] using List.mem_range.mp (mem_domain_of_mem_reach hmem)
    exact ⟨_, hmem, by simp [List.getElem?_eq_getElem hlt]⟩
  · rintro ⟨i, hmem, hi⟩
    rwa [idxOf_names h.distinct hi]

theorem supports (h : Resolved r deps) : r.Supports enabled (r.isNeeded deps enabled) := by
  refine ⟨fun name hname => ?_, fun name hname hon => ?_, fun rule hrule hname d hd => ?_,
    fun name hname => ?_⟩
  · obtain ⟨i, -, hi⟩ := h.isNeeded_iff.mp hname
    exact List.mem_of_getElem? hi
  · obtain ⟨i, hi⟩ := List.mem_iff_getElem?.mp hname
    obtain ⟨hlt, -⟩ := List.getElem?_eq_some_iff.mp hi
    have hrange : i ∈ List.range r.length := by simpa [names] using hlt
    refine h.isNeeded_iff.mpr ⟨i, mem_reach_of_mem hrange ?_, hi⟩
    exact List.mem_filter.mpr ⟨hrange, by simpa [List.getD_eq_getElem?_getD, hi] using hon⟩
  · obtain ⟨i, hmem, hi⟩ := h.isNeeded_iff.mp hname
    obtain ⟨j, hj⟩ := List.mem_iff_getElem?.mp hrule
    obtain rfl := place_unique h.distinct hi (getElem?_names.mpr ⟨rule, hj, rfl⟩)
    obtain ⟨p, hp, hpname⟩ := exists_right_of_forall₂ (h.places i rule hj) hd
    have hlt := h.bound i p hp
    rw [h.size] at hlt
    exact h.isNeeded_iff.mpr ⟨p, mem_reach_of_next hmem (List.mem_range.mpr hlt) hp, hpname⟩
  · obtain ⟨i, hmem, hi⟩ := h.isNeeded_iff.mp hname
    rcases mem_or_next_of_mem_reach hmem with hon | ⟨j, hj, hij⟩
    · exact .inl (by simpa [List.getD_eq_getElem?_getD, hi] using (List.mem_filter.mp hon).2)
    · obtain ⟨rule, hrule, d, hd, hid⟩ := h.mem_iff.mp hij
      obtain rfl : name = d := Option.some.inj (hi.symm.trans hid)
      refine .inr ⟨rule, List.mem_of_getElem? hrule, ?_, hd⟩
      exact h.isNeeded_iff.mpr ⟨j, hj, getElem?_names.mpr ⟨rule, hrule, rfl⟩⟩

private theorem steps_schedule (h : Resolved r deps) :
    PassGraph.steps ⟨r.toArray, deps, List.range r.length⟩
        (PassGraph.schedule ⟨r.toArray, deps, List.range r.length⟩ enabled) =
      (r.filter fun rule => r.isNeeded deps enabled rule.name).map
        fun rule => (rule, !enabled rule.name) := by
  have hname : ∀ (i : Nat) (rule : Rule ρ), r[i]? = some rule →
      r.names[i]? = some rule.name := fun i rule hi => getElem?_names.mpr ⟨rule, hi, rfl⟩
  rw [PassGraph.steps, PassGraph.schedule_eq_reach, List.filterMap_map]
  simp only [Function.comp_def, nameAt_eq, List.size_toArray, List.getElem?_toArray]
  refine filterMap_filter_range (fun i rule hi => ?_) (fun i rule hi => ?_)
  · rw [isNeeded, idxOf_names h.distinct (hname i rule hi), neededPlaces]
  · obtain ⟨hlt, -⟩ := List.getElem?_eq_some_iff.mp hi
    simp [List.getD_eq_getElem?_getD, hname i rule hi, hlt]

end Resolved

section Built

variable {g : PassGraph ρ} (h : r.build = .ok g) (enabled : String → Bool)
include h

theorem index_lt_of_mem_schedule {step : Scheduled} (hstep : step ∈ g.schedule enabled) :
    step.index < g.rules.size := by
  obtain ⟨deps, hresolved, hlen, rfl⟩ := eq_of_build_eq_ok h
  have hmem : step.index ∈ runOrder deps :=
    (PassGraph.index_schedule_sublist _ enabled).subset (List.mem_map_of_mem hstep)
  simpa using List.mem_range.mp ((hresolved.runsIn hlen).perm.mem_iff.mp hmem)

end Built

theorem Declared.exists_schedule (h : Declared [] r) (enabled : String → Bool) :
    ∃ g needed, r.build = .ok g ∧ r.Supports enabled needed ∧
      g.steps (g.schedule enabled) =
        (r.filter fun rule => needed rule.name).map fun rule => (rule, !enabled rule.name) := by
  obtain ⟨deps, hresolved, hbuild⟩ := h.exists_build
  exact ⟨_, r.isNeeded deps enabled, hbuild, hresolved.supports, hresolved.steps_schedule⟩

end Registry

end Lintel
