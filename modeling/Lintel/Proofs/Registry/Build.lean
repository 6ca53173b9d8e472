import Lintel.Proofs.Except
import Lintel.Proofs.Registry.Order

/-!
# Registries that build a graph

A registry has a graph if it is well formed, and then the graph runs its rules in
order. Both are said of names and places only; the counts by which the order is found
do not occur in them.
-/

namespace Lintel

/-- Where a measure falls with every step of a relation, nothing comes before itself. -/
theorem not_transGen_self {α : Type} {R : α → α → Prop} (measure : α → Nat)
    (hstep : ∀ a b, R a b → measure b < measure a) (a : α) : ¬ Relation.TransGen R a a := by
  have hlt : ∀ b, Relation.TransGen R a b → measure b < measure a := by
    intro b hchain
    induction hchain with
    | single h => exact hstep _ _ h
    | tail _ h ih => exact (hstep _ _ h).trans ih
  exact fun hcycle => Nat.lt_irrefl _ (hlt a hcycle)

namespace Registry

variable {ρ : Type} {r : Registry ρ}

/-- A rule of the first name requires the second. -/
def Needs (r : Registry ρ) (name dependency : String) : Prop :=
  ∃ rule ∈ r, rule.name = name ∧ dependency ∈ rule.requires

/-- Names are distinct, prerequisites are registered and no rule comes before itself. -/
structure WellFormed (r : Registry ρ) : Prop where
  distinct : r.names.Nodup
  known : ∀ rule ∈ r, ∀ dependency ∈ rule.requires, dependency ∈ r.names
  acyclic : ∀ name, ¬ Relation.TransGen r.Needs name name

/-- Whether the rule at a place can run after those at other places. -/
def CanFollow (r : Registry ρ) (placed : List Nat) (i : Nat) : Prop :=
  ∃ rule, r[i]? = some rule ∧ i ∉ placed ∧
    ∀ dependency ∈ rule.requires, ∃ p ∈ placed, r.names[p]? = some dependency

/-- An order holds every rule once, behind its prerequisites, and each time the rule
declared first of those that can follow. -/
structure RunsIn (r : Registry ρ) (order : List Nat) : Prop where
  perm : order.Perm (List.range r.length)
  behind : ∀ k i rule, order[k]? = some i → r[i]? = some rule →
    ∀ dependency ∈ rule.requires, ∃ p ∈ order.take k, r.names[p]? = some dependency
  lowest : ∀ k i, order[k]? = some i → IsLeast {j | r.CanFollow (order.take k) j} i

private theorem firstDuplicate_eq_none_iff {seen names : List String} :
    firstDuplicate seen names = none ↔ names.Nodup ∧ ∀ name ∈ names, name ∉ seen := by
  induction names generalizing seen with
  | nil => simp [firstDuplicate]
  | cons name rest ih =>
    rw [firstDuplicate, List.nodup_cons, List.forall_mem_cons]
    by_cases hseen : name ∈ seen
    · simp [hseen]
    · rw [if_neg (by simpa using hseen), ih]
      simp only [List.mem_append, List.mem_singleton, not_or]
      constructor
      · rintro ⟨hnodup, hfresh⟩
        exact ⟨⟨fun hmem => (hfresh name hmem).2 rfl, hnodup⟩, hseen, fun n hn => (hfresh n hn).1⟩
      · rintro ⟨⟨hnot, hnodup⟩, -, hfresh⟩
        exact ⟨hnodup, fun n hn => ⟨hfresh n hn, fun heq => hnot (heq ▸ hn)⟩⟩

theorem getElem?_names {i : Nat} {name : String} :
    r.names[i]? = some name ↔ ∃ rule, r[i]? = some rule ∧ rule.name = name := by
  simp [names]

theorem getD_names {i : Nat} {rule : Rule ρ} (h : r[i]? = some rule) :
    r.names.getD i "" = rule.name := by
  rw [List.getD_eq_getElem?_getD, getElem?_names.mpr ⟨rule, h, rfl⟩, Option.getD_some]

private theorem idxOf?_names_eq_some_iff (hnodup : r.names.Nodup) {name : String} {i : Nat} :
    r.names.idxOf? name = some i ↔ r.names[i]? = some name := by
  rw [List.idxOf?_eq_some_iff, List.getElem?_eq_some_iff]
  refine exists_congr fun hi => and_iff_left_of_imp fun hname j hj heq => ?_
  exact Nat.ne_of_lt hj (hnodup.getElem_inj_iff.mp (heq.trans hname.symm))

theorem place_unique (hnodup : r.names.Nodup) {name : String} {i j : Nat}
    (hi : r.names[i]? = some name) (hj : r.names[j]? = some name) : i = j := by
  have hij := (idxOf?_names_eq_some_iff hnodup).mpr hi
  rw [(idxOf?_names_eq_some_iff hnodup).mpr hj] at hij
  exact (Option.some.inj hij).symm

theorem idxOf_names (hnodup : r.names.Nodup) {i : Nat} {name : String}
    (hi : r.names[i]? = some name) : r.names.idxOf name = i := by
  obtain ⟨hlt, rfl⟩ := List.getElem?_eq_some_iff.mp hi
  exact hnodup.idxOf_getElem i hlt

theorem exists_dependencies_iff {names : List String} {rule : Rule ρ} :
    (∃ places, dependencies names rule = .ok places) ↔ ∀ d ∈ rule.requires, d ∈ names := by
  rw [dependencies, exists_mapM_eq_ok_iff]
  refine forall₂_congr fun d _ => ?_
  cases hd : names.idxOf? d with
  | none => simp [List.idxOf?_eq_none_iff.mp hd]
  | some p => simpa using List.isSome_idxOf?.mp (by rw [hd]; rfl)

def rank (r : Registry ρ) (order : List Nat) (name : String) : Nat :=
  order.idxOf (r.names.idxOf name)

/-- The prerequisites by place are those by name. -/
structure Resolved (r : Registry ρ) (deps : Array (List Nat)) : Prop where
  distinct : r.names.Nodup
  size : deps.size = r.length
  places : ∀ i rule, r[i]? = some rule →
    List.Forall₂ (fun d p => r.names[p]? = some d) rule.requires (deps.getD i [])

theorem resolved_of_mapM {lists : List (List Nat)} (hnodup : r.names.Nodup)
    (h : r.mapM (dependencies r.names) = .ok lists) : Resolved r lists.toArray := by
  have hall := mapM_eq_ok_iff.mp h
  refine ⟨hnodup, hall.length_eq.symm, fun i rule hrule => ?_⟩
  obtain ⟨hi, rfl⟩ := List.getElem?_eq_some_iff.mp hrule
  have hi' : i < lists.length := hall.length_eq ▸ hi
  have hlist : lists.toArray.getD i [] = lists[i] := by simp [Array.getD, hi']
  rw [hlist]
  refine (mapM_eq_ok_iff.mp (hall.get hi hi')).imp fun d p hp => ?_
  cases hd : r.names.idxOf? d with
  | none => simp [hd] at hp
  | some q =>
    obtain rfl : q = p := by simpa [hd] using hp
    exact (idxOf?_names_eq_some_iff hnodup).mp hd

namespace Resolved

variable {deps : Array (List Nat)}

theorem mem_iff (h : Resolved r deps) {i d : Nat} :
    d ∈ deps.getD i [] ↔
      ∃ rule, r[i]? = some rule ∧ ∃ name ∈ rule.requires, r.names[d]? = some name := by
  constructor
  · intro hd
    have hi : i < r.length := by
      by_contra hi
      simp [Array.getD, h.size, hi] at hd
    exact ⟨r[i], List.getElem?_eq_getElem hi, exists_left_of_forall₂ (h.places i _ (by simp [hi])) hd⟩
  · rintro ⟨rule, hrule, name, hname, hd⟩
    obtain ⟨p, hp, hpname⟩ := exists_right_of_forall₂ (h.places i rule hrule) hname
    exact place_unique h.distinct hpname hd ▸ hp

theorem bound (h : Resolved r deps) (i d : Nat) (hd : d ∈ deps.getD i []) : d < deps.size := by
  obtain ⟨rule, -, name, -, hname⟩ := h.mem_iff.mp hd
  obtain ⟨hlt, -⟩ := List.getElem?_eq_some_iff.mp hname
  simpa [h.size, names] using hlt

private theorem free_iff (h : Resolved r deps) {placed : List Nat} {i : Nat} :
    Free deps placed i ↔ r.CanFollow placed i := by
  constructor
  · rintro ⟨hi, hfresh, hmet⟩
    rw [h.size] at hi
    refine ⟨r[i], List.getElem?_eq_getElem hi, hfresh, fun name hname => ?_⟩
    obtain ⟨p, hp, hpname⟩ := exists_right_of_forall₂ (h.places i _ (by simp [hi])) hname
    exact ⟨p, hmet p hp, hpname⟩
  · rintro ⟨rule, hrule, hfresh, hmet⟩
    obtain ⟨hi, -⟩ := List.getElem?_eq_some_iff.mp hrule
    refine ⟨h.size ▸ hi, hfresh, fun d hd => ?_⟩
    obtain ⟨name, hname, hdname⟩ := exists_left_of_forall₂ (h.places i rule hrule) hd
    obtain ⟨p, hp, hpname⟩ := hmet name hname
    exact place_unique h.distinct hpname hdname ▸ hp

theorem needs (h : Resolved r deps) {i d : Nat} (hd : d ∈ deps.getD i []) :
    r.Needs (r.names.getD i "") (r.names.getD d "") := by
  obtain ⟨rule, hrule, name, hname, hdname⟩ := h.mem_iff.mp hd
  rw [getD_names hrule, List.getD_eq_getElem?_getD, hdname, Option.getD_some]
  exact ⟨rule, List.mem_of_getElem? hrule, rfl, hname⟩

theorem acyclic (h : Resolved r deps) (hacyclic : ∀ name, ¬ Relation.TransGen r.Needs name name)
    (i : Nat) : ¬ Relation.TransGen (fun i d => d ∈ deps.getD i []) i i := fun hcycle =>
  hacyclic (r.names.getD i "") (hcycle.lift (r.names.getD · "") fun _ _ => h.needs)

/-- In a whole order the place of a rule is above those of its prerequisites. -/
theorem not_needs_self (h : Resolved r deps) (hlen : (runOrder deps).length = deps.size)
    (name : String) : ¬ Relation.TransGen r.Needs name name := by
  have hstep : ∀ name dependency, r.Needs name dependency →
      r.rank (runOrder deps) dependency < r.rank (runOrder deps) name := by
    rintro name dependency ⟨rule, hrule, rfl, hneeds⟩
    obtain ⟨i, hi⟩ := List.mem_iff_getElem?.mp hrule
    obtain ⟨p, hp, hname⟩ := exists_right_of_forall₂ (h.places i rule hi) hneeds
    have hmem : i ∈ runOrder deps := by
      obtain ⟨hlt, -⟩ := List.getElem?_eq_some_iff.mp hi
      simpa [((greedy_runOrder deps).perm hlen).mem_iff, h.size] using hlt
    have hlt := (greedy_runOrder deps).idxOf_lt hmem hp
    rwa [← idxOf_names h.distinct hname,
      ← idxOf_names h.distinct (getElem?_names.mpr ⟨rule, hi, rfl⟩)] at hlt
  exact not_transGen_self _ hstep name

/-- A whole order runs the registry. -/
theorem runsIn (h : Resolved r deps) (hlen : (runOrder deps).length = deps.size) :
    r.RunsIn (runOrder deps) := by
  have hleast : ∀ k i, (runOrder deps)[k]? = some i →
      IsLeast {j | r.CanFollow ((runOrder deps).take k) j} i := by
    intro k i hi
    have hset : {j | r.CanFollow ((runOrder deps).take k) j} =
        {j | Free deps ((runOrder deps).take k) j} := Set.ext fun j => h.free_iff.symm
    rw [hset]
    exact greedy_runOrder deps k i hi
  refine ⟨h.size ▸ (greedy_runOrder deps).perm hlen, fun k i rule hi hrule => ?_, hleast⟩
  obtain ⟨rule', hrule', -, hmet⟩ := (hleast k i hi).1
  obtain rfl : rule = rule' := Option.some.inj (hrule.symm.trans hrule')
  exact hmet

end Resolved

theorem firstDuplicate_names : firstDuplicate [] r.names = none ↔ r.names.Nodup := by
  simp [firstDuplicate_eq_none_iff]

theorem eq_of_build_eq_ok {g : PassGraph ρ} (h : r.build = .ok g) :
    ∃ deps, Resolved r deps ∧ (runOrder deps).length = deps.size ∧
      g = ⟨r.toArray, deps, runOrder deps⟩ := by
  unfold build at h
  split at h
  · cases h
  · rename_i hdistinct
    split at h
    · cases h
    · rename_i lists hlists
      simp only at h
      split at h
      · rename_i hlen
        exact ⟨lists.toArray, resolved_of_mapM (firstDuplicate_names.mp hdistinct) hlists, hlen,
          (Except.ok.inj h).symm⟩
      · cases h

theorem rules_of_build_eq_ok {g : PassGraph ρ} (h : r.build = .ok g) : g.rules.toList = r := by
  obtain ⟨deps, -, -, rfl⟩ := eq_of_build_eq_ok h
  rfl

theorem WellFormed.exists_build (h : r.WellFormed) : ∃ g, r.build = .ok g := by
  obtain ⟨lists, hlists⟩ := exists_mapM_eq_ok_iff.mpr fun rule hrule =>
    exists_dependencies_iff.mpr (h.known rule hrule)
  have hresolved := resolved_of_mapM h.distinct hlists
  have hlen := length_runOrder hresolved.bound (hresolved.acyclic h.acyclic)
  refine ⟨⟨r.toArray, lists.toArray, runOrder lists.toArray⟩, ?_⟩
  simp only [build, firstDuplicate_names.mpr h.distinct, hlists, hlen, ↓reduceIte]

theorem Resolved.wellFormed {deps : Array (List Nat)} (h : Resolved r deps)
    (hlen : (runOrder deps).length = deps.size) : r.WellFormed := by
  refine ⟨h.distinct, fun rule hrule d hd => ?_, h.not_needs_self hlen⟩
  obtain ⟨i, hi⟩ := List.mem_iff_getElem?.mp hrule
  obtain ⟨p, -, hname⟩ := exists_right_of_forall₂ (h.places i rule hi) hd
  exact List.mem_of_getElem? hname

/-- A graph is built for the well-formed registries and runs them in order. -/
theorem build_iff_wellFormed (r : Registry ρ) :
    ((∃ g, r.build = .ok g) ↔ r.WellFormed) ∧
      ∀ g, r.build = .ok g → g.rules.toList = r ∧ r.RunsIn g.order := by
  refine ⟨⟨?_, WellFormed.exists_build⟩, ?_⟩
  · rintro ⟨g, hg⟩
    obtain ⟨deps, hresolved, hlen, -⟩ := eq_of_build_eq_ok hg
    exact hresolved.wellFormed hlen
  · intro g hg
    obtain ⟨deps, hresolved, hlen, rfl⟩ := eq_of_build_eq_ok hg
    exact ⟨rfl, hresolved.runsIn hlen⟩

def idleRule (name : String) (requires : List String) : Rule Unit where
  info := ⟨name, "", "", .warning, .syntaxOnly, requires⟩
  run _ := .ok (.report [])

/-- The rule declared first names its only prerequisite twice. -/
def layeredRegistry : Registry Unit :=
  [idleRule "report" ["index", "index"], idleRule "index" [], idleRule "style" []]

theorem build_layeredRegistry : ∃ g, layeredRegistry.build = .ok g ∧
    layeredRegistry.WellFormed ∧ g.order = [1, 0, 2] ∧ layeredRegistry.RunsIn g.order := by
  obtain ⟨hiff, hruns⟩ := build_iff_wellFormed layeredRegistry
  have hbuild : layeredRegistry.build =
      .ok ⟨layeredRegistry.toArray, #[[1, 1], [], []], [1, 0, 2]⟩ := by cbv
  exact ⟨_, hbuild, hiff.mp ⟨_, hbuild⟩, rfl, (hruns _ hbuild).2⟩

end Registry

end Lintel
