import Lintel.Proofs.Registry.Build
import Lintel.Proofs.Registry.Reach

/-!
# Registries that are cut down

A part of a registry that keeps the prerequisites of its rules is a registry that runs in
the same order. What runs next is the first rule in the order of declaration that is ready,
and whether a kept rule is ready is told by the kept rules that ran before.
-/

namespace Lintel

variable {ρ : Type}

def PassGraph.ordered (g : PassGraph ρ) : List (Rule ρ) :=
  g.order.filterMap fun i => g.rules[i]?

/-- Whether a rule can run after the rules of some names. -/
def Rule.isReady (placed : List String) (rule : Rule ρ) : Bool :=
  !placed.contains rule.name && rule.requires.all placed.contains

namespace Registry

variable {r : Registry ρ} {placed requested : List String} {rules : List (Rule ρ)}
  {keep : String → Bool}

/-- A choice of names keeps the prerequisites of the rules it keeps. -/
def KeptBelow (r : Registry ρ) (keep : String → Bool) : Prop :=
  ∀ rule ∈ r, keep rule.name = true → ∀ dependency ∈ rule.requires, keep dependency = true

/-! ### Rules in turn -/

/-- After the rules of some names, others follow. Each is the first in the registry that is
ready, and in the end none is. -/
inductive InTurn (r : Registry ρ) : List String → List (Rule ρ) → Prop
  | done {placed : List String} (h : r.find? (Rule.isReady placed) = none) : InTurn r placed []
  | next {placed : List String} {rule : Rule ρ} {rules : List (Rule ρ)}
      (h : r.find? (Rule.isReady placed) = some rule)
      (hrest : InTurn r (placed ++ [rule.name]) rules) : InTurn r placed (rule :: rules)

theorem InTurn.unique {others : List (Rule ρ)} (h : r.InTurn placed rules)
    (h' : r.InTurn placed others) : rules = others := by
  induction h generalizing others with
  | done hnone =>
    cases h' with
    | done => rfl
    | next hsome => cases hnone.symm.trans hsome
  | next hsome _ ih =>
    cases h' with
    | done hnone => cases hnone.symm.trans hsome
    | next hsome' hrest =>
      obtain rfl := Option.some.inj (hsome.symm.trans hsome')
      rw [ih hrest]

/-- Whether a kept rule is ready is told by the kept rules. -/
theorem KeptBelow.isReady_filter (h : r.KeptBelow keep) {rule : Rule ρ} (hrule : rule ∈ r)
    (hname : keep rule.name = true) :
    rule.isReady (placed.filter keep) = rule.isReady placed := by
  have hcontains : ∀ name, keep name = true →
      (placed.filter keep).contains name = placed.contains name := by
    intro name hkept
    rw [Bool.eq_iff_iff]
    simp [hkept]
  have hall : rule.requires.all (placed.filter keep).contains =
      rule.requires.all placed.contains := by
    rw [Bool.eq_iff_iff, List.all_eq_true, List.all_eq_true]
    exact forall₂_congr fun d hd => by rw [hcontains d (h rule hrule hname d hd)]
  rw [Rule.isReady, Rule.isReady, hcontains _ hname, hall]

/-- The kept rules follow one another as they did among the others. -/
theorem InTurn.filter (h : r.InTurn placed rules) (hkeep : r.KeptBelow keep) :
    InTurn (r.filter fun rule => keep rule.name) (placed.filter keep)
      (rules.filter fun rule => keep rule.name) := by
  induction h with
  | done hnone =>
    refine .done (List.find?_eq_none.mpr fun rule hrule => ?_)
    obtain ⟨hmem, hname⟩ := List.mem_filter.mp hrule
    rw [hkeep.isReady_filter hmem hname]
    exact List.find?_eq_none.mp hnone rule hmem
  | @next placed rule rules hsome _ ih =>
    rw [List.filter_append] at ih
    by_cases hname : keep rule.name = true
    · obtain ⟨hready, before, after, hsplit, hbefore⟩ := List.find?_eq_some_iff_append.mp hsome
      rw [List.filter_cons_of_pos hname, List.filter_nil] at ih
      rw [List.filter_cons, if_pos hname]
      refine .next (List.find?_eq_some_iff_append.mpr ⟨?_, before.filter fun rule => keep rule.name,
        after.filter fun rule => keep rule.name, ?_, fun other hother => ?_⟩) ih
      · rw [hkeep.isReady_filter (List.mem_of_find?_eq_some hsome) hname, hready]
      · rw [hsplit, List.filter_append, List.filter_cons, if_pos hname]
      · obtain ⟨hmem, hkept⟩ := List.mem_filter.mp hother
        rw [hkeep.isReady_filter (hsplit ▸ List.mem_append_left _ hmem) hkept]
        exact hbefore other hmem
    · rw [List.filter_cons_of_neg hname, List.filter_nil, List.append_nil] at ih
      rwa [List.filter_cons, if_neg hname]

private theorem isReady_iff_canFollow (hnodup : r.names.Nodup) {order : List Nat} {i : Nat}
    {rule : Rule ρ} (hrule : r[i]? = some rule) :
    rule.isReady (order.filterMap fun p => r.names[p]?) = true ↔ r.CanFollow order i := by
  have hname : r.names[i]? = some rule.name := getElem?_names.mpr ⟨rule, hrule, rfl⟩
  simp only [Rule.isReady, Bool.and_eq_true, Bool.not_eq_true', List.all_eq_true,
    List.contains_iff_mem, Bool.eq_false_iff, ne_eq, List.mem_filterMap]
  constructor
  · rintro ⟨hfresh, hmet⟩
    exact ⟨rule, hrule, fun hi => hfresh ⟨i, hi, hname⟩, hmet⟩
  · rintro ⟨rule', hrule', hfresh, hmet⟩
    obtain rfl := Option.some.inj (hrule.symm.trans hrule')
    exact ⟨fun ⟨p, hp, hpname⟩ => hfresh (place_unique hnodup hpname hname ▸ hp), hmet⟩

/-- A whole order takes the rules in turn. -/
theorem RunsIn.inTurn {order : List Nat} (h : r.RunsIn order) (hnodup : r.names.Nodup) :
    r.InTurn [] (order.filterMap fun i => r[i]?) := by
  have hrest : ∀ after before, order = before ++ after →
      r.InTurn (before.filterMap fun p => r.names[p]?) (after.filterMap fun i => r[i]?) := by
    intro after
    induction after with
    | nil =>
      rintro before rfl
      refine .done (List.find?_eq_none.mpr fun rule hrule hready => ?_)
      obtain ⟨i, hi⟩ := List.mem_iff_getElem?.mp hrule
      obtain ⟨hlt, -⟩ := List.getElem?_eq_some_iff.mp hi
      obtain ⟨-, -, hfresh, -⟩ := (isReady_iff_canFollow hnodup hi).mp hready
      rw [List.append_nil] at h
      exact hfresh (h.perm.mem_iff.mpr (List.mem_range.mpr hlt))
    | cons i after ih =>
      intro before horder
      have hleast : IsLeast {j | r.CanFollow before j} i := by
        simpa [horder] using h.lowest before.length i (by simp [horder])
      obtain ⟨rule, hrule, -⟩ := hleast.1
      have hlater := ih (before ++ [i]) (by rw [horder, List.append_assoc]; rfl)
      rw [List.filterMap_append] at hlater
      rw [List.filterMap_cons_some hrule]
      refine .next ?_ (by simpa [getElem?_names.mpr ⟨rule, hrule, rfl⟩] using hlater)
      obtain ⟨hlt, hget⟩ := List.getElem?_eq_some_iff.mp hrule
      refine List.find?_eq_some_iff_getElem.mpr
        ⟨(isReady_iff_canFollow hnodup hrule).mpr hleast.1, i, hlt, hget, fun j hj => ?_⟩
      by_contra hready
      have hcan := (isReady_iff_canFollow hnodup (List.getElem?_eq_getElem _)).mp (by simpa using hready)
      exact absurd (hleast.2 hcan) (by omega)
  exact hrest order [] rfl

/-- The rules of a graph are in turn. -/
theorem inTurn_ordered {g : PassGraph ρ} (h : r.build = .ok g) : r.InTurn [] g.ordered := by
  obtain ⟨deps, hresolved, hlen, rfl⟩ := eq_of_build_eq_ok h
  simpa [PassGraph.ordered] using (hresolved.runsIn hlen).inTurn hresolved.distinct

/-! ### What is kept -/

theorem eq_of_name_eq (hnodup : r.names.Nodup) {a b : Rule ρ} (ha : a ∈ r) (hb : b ∈ r)
    (hab : a.name = b.name) : a = b :=
  List.inj_on_of_nodup_map hnodup ha hb hab

private theorem requiresOf_eq (hnodup : r.names.Nodup) {rule : Rule ρ} (hrule : rule ∈ r) :
    r.requiresOf rule.name = rule.requires := by
  unfold requiresOf
  split
  · rename_i other hother
    have hname : other.name = rule.name := by simpa using List.find?_some hother
    have hmem : other ∈ r := List.mem_reverse.mp (List.mem_of_find?_eq_some hother)
    rw [eq_of_name_eq hnodup hmem hrule hname]
  · rename_i hnone
    have hne := List.find?_eq_none.mp hnone rule (List.mem_reverse.mpr hrule)
    simp at hne

/-- The sets that hold the registered ones of some names, and with a rule what it requires. -/
def Supporting (r : Registry ρ) (requested : List String) : Set (Set String) :=
  {S | (∀ name ∈ requested, name ∈ r.names → name ∈ S) ∧
    ∀ rule ∈ r, rule.name ∈ S → ∀ dependency ∈ rule.requires, dependency ∈ S}

namespace WellFormed

/-- A retained rule keeps its prerequisites. -/
theorem keptBelow_reach (h : r.WellFormed) (requested : List String) :
    r.KeptBelow (reach r.names r.requiresOf requested).contains := by
  intro rule hrule hkept d hd
  refine List.contains_iff_mem.mpr (mem_reach_of_next (List.contains_iff_mem.mp hkept) ?_ ?_)
  · exact h.known rule hrule d hd
  · rwa [requiresOf_eq h.distinct hrule]

private theorem isLeast_reach (h : r.WellFormed) (requested : List String) :
    IsLeast (r.Supporting requested) {name | name ∈ reach r.names r.requiresOf requested} := by
  refine ⟨⟨fun name hname hknown => mem_reach_of_mem hknown hname, fun rule hrule hkept d hd => ?_⟩,
    fun S hS name hname => ?_⟩
  · exact List.contains_iff_mem.mp
      (h.keptBelow_reach requested rule hrule (List.contains_iff_mem.mpr hkept) d hd)
  · refine reach_induction (P := fun name => name ∈ S) (fun name hknown hname => ?_) ?_ hname
    · exact hS.1 name hname hknown
    · intro name hreached hmem d _ hd
      obtain ⟨rule, hrule, rfl⟩ := List.mem_map.mp (mem_domain_of_mem_reach hreached)
      rw [requiresOf_eq h.distinct hrule] at hd
      exact hS.2 rule hrule hmem d hd

/-- What is kept of a well-formed registry is well formed if prerequisites are kept. -/
theorem filter (h : r.WellFormed) (hkeep : r.KeptBelow keep) :
    WellFormed (r.filter fun rule => keep rule.name) := by
  refine ⟨h.distinct.sublist (List.filter_sublist.map _), fun rule hrule d hd => ?_,
    fun name hcycle => h.acyclic name (hcycle.lift id fun a b hneeds => ?_)⟩
  · obtain ⟨hmem, hname⟩ := List.mem_filter.mp hrule
    obtain ⟨other, hother, rfl⟩ := List.mem_map.mp (h.known rule hmem d hd)
    exact List.mem_map_of_mem (List.mem_filter.mpr ⟨hother, hkeep rule hmem hname _ hd⟩)
  · obtain ⟨rule, hrule, hneeds⟩ := hneeds
    exact ⟨rule, (List.mem_filter.mp hrule).1, hneeds⟩

end WellFormed

private theorem mem_of_mem_ordered {g : PassGraph ρ} (h : r.build = .ok g) {rule : Rule ρ}
    (hrule : rule ∈ g.ordered) : rule ∈ r := by
  obtain ⟨i, -, hi⟩ := List.mem_filterMap.mp hrule
  rw [← rules_of_build_eq_ok h]
  exact Array.mem_toList_iff.mpr (Array.mem_of_getElem? hi)

private theorem contains_names_filter {rule : Rule ρ} (hrule : rule ∈ r) :
    (names (r.filter fun rule => keep rule.name)).contains rule.name = keep rule.name := by
  rw [Bool.eq_iff_iff, List.contains_iff_mem, names, List.mem_map]
  constructor
  · rintro ⟨other, hother, hname⟩
    exact hname ▸ (List.mem_filter.mp hother).2
  · intro hname
    exact ⟨rule, List.mem_filter.mpr ⟨hrule, hname⟩, rfl⟩

/-- What is retained of a registry with a graph: the rules of the least set that supports the
requested names, in the order of declaration. They have a graph too, which runs them in the order
in which they ran before. The requested names of no rule are returned. -/
theorem retain_of_build {g : PassGraph ρ} (h : r.build = .ok g) (requested : List String) :
    ∃ kept S g', r.retainWithPrerequisites requested =
        (kept, requested.filter fun name => name ∉ r.names) ∧
      kept.Sublist r ∧ IsLeast (r.Supporting requested) S ∧
      (∀ rule, rule ∈ kept ↔ rule ∈ r ∧ rule.name ∈ S) ∧
      kept.build = .ok g' ∧
      g'.ordered = g.ordered.filter fun rule => kept.names.contains rule.name := by
  have hwf : r.WellFormed := (build_iff_wellFormed r).1.mp ⟨g, h⟩
  have hkeep := hwf.keptBelow_reach requested
  obtain ⟨g', hg'⟩ := (hwf.filter hkeep).exists_build
  refine ⟨_, _, g', ?_, List.filter_sublist, hwf.isLeast_reach requested, fun rule => ?_, hg', ?_⟩
  · simp [retainWithPrerequisites_eq]
  · rw [List.mem_filter, List.contains_iff_mem]
    rfl
  · have hinTurn := (inTurn_ordered h).filter hkeep
    rw [(inTurn_ordered hg').unique hinTurn]
    exact List.filter_congr fun rule hrule => (contains_names_filter (mem_of_mem_ordered h hrule)).symm

/-- The rule of a requested name is kept with a chain of prerequisites, and the order in which
they ran is not that of their declaration. -/
def chainedRegistry : Registry Unit :=
  [idleRule "report" ["types"], idleRule "style" ["decls"], idleRule "types" ["decls"],
    idleRule "decls" []]

theorem retain_chainedRegistry : ∃ g kept g', chainedRegistry.build = .ok g ∧
    chainedRegistry.retainWithPrerequisites ["nope", "types", "all", "types"] =
      (kept, ["nope", "all"]) ∧ kept.names = ["types", "decls"] ∧ kept.build = .ok g' ∧
    g'.ordered = g.ordered.filter fun rule => kept.names.contains rule.name := by
  have hbuild : chainedRegistry.build =
      .ok ⟨chainedRegistry.toArray, #[[2], [3], [3], []], [3, 1, 2, 0]⟩ := by cbv
  obtain ⟨kept, S, g', hkept, -, -, -, hg', hordered⟩ :=
    retain_of_build hbuild ["nope", "types", "all", "types"]
  have hnames : (chainedRegistry.retainWithPrerequisites
      ["nope", "types", "all", "types"]).1.names = ["types", "decls"] := by cbv
  rw [hkept] at hnames
  exact ⟨_, kept, g', hbuild, hkept, hnames, hg', hordered⟩

end Registry

end Lintel
