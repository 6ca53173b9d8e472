import Lintel.Proofs.Registry.Retain

/-!
# Registries in order of declaration

Where every rule is declared behind its prerequisites, rules run in the order of their
declaration. A choice of enabled rules then leaves a sublist of the registry.
-/

namespace Lintel

theorem Greedy.eq_range {deps : Array (List Nat)} {order : List Nat} (h : Greedy deps order)
    (hlen : order.length = deps.size) (hlow : ∀ i d, d ∈ deps.getD i [] → d < i) :
    order = List.range deps.size := by
  have htake : ∀ k ≤ deps.size, order.take k = List.range k := by
    intro k
    induction k with
    | zero => simp
    | succ k ih =>
      intro hk
      have hlt : k < order.length := by omega
      have hleast := h k order[k] (List.getElem?_eq_getElem hlt)
      rw [ih (by omega)] at hleast
      have hfree : Free deps (List.range k) k :=
        ⟨by omega, by simp, fun d hd => List.mem_range.mpr (hlow k d hd)⟩
      have hle : order[k] ≤ k := hleast.2 hfree
      have hge : ¬ order[k] < k := fun hlt => hleast.1.fresh (List.mem_range.mpr hlt)
      rw [List.take_succ_eq_append_getElem hlt, ih (by omega), List.range_succ,
        show order[k] = k by omega]
  rw [← htake deps.size (Nat.le_refl _), List.take_of_length_le (by omega)]

namespace Registry

variable {ρ : Type} {r : Registry ρ} {seen : List String}

/-- Behind some names, every rule has a name of its own and stands behind its
prerequisites. -/
def Declared : List String → Registry ρ → Prop
  | _, [] => True
  | seen, rule :: rest =>
    rule.name ∉ seen ∧ (∀ d ∈ rule.requires, d ∈ seen) ∧ Declared (rule.name :: seen) rest

instance instDecidableDeclared (seen : List String) (r : Registry ρ) :
    Decidable (Declared seen r) :=
  match r with
  | [] => .isTrue trivial
  | rule :: rest =>
    have := instDecidableDeclared (rule.name :: seen) rest
    inferInstanceAs (Decidable (_ ∧ _ ∧ _))

namespace Declared

theorem fresh (h : Declared seen r) : ∀ name ∈ r.names, name ∉ seen := by
  induction r generalizing seen with
  | nil => intro name hname; cases hname
  | cons rule rest ih =>
    obtain ⟨hrule, -, hrest⟩ := h
    intro name hname hseen
    rcases List.mem_cons.mp hname with rfl | hname
    · exact hrule hseen
    · exact ih hrest name hname (List.mem_cons_of_mem _ hseen)

theorem nodup (h : Declared seen r) : r.names.Nodup := by
  induction r generalizing seen with
  | nil => exact .nil
  | cons rule rest ih =>
    obtain ⟨-, -, hrest⟩ := h
    exact List.nodup_cons.mpr
      ⟨fun hmem => hrest.fresh rule.name hmem List.mem_cons_self, ih hrest⟩

theorem behind (h : Declared seen r) {i : Nat} {rule : Rule ρ} (hi : r[i]? = some rule)
    {d : String} (hd : d ∈ rule.requires) : d ∈ seen ∨ ∃ p < i, r.names[p]? = some d := by
  induction r generalizing seen i with
  | nil => cases hi
  | cons first rest ih =>
    obtain ⟨-, hfirst, hrest⟩ := h
    cases i with
    | zero =>
      obtain rfl : first = rule := by simpa using hi
      exact .inl (hfirst d hd)
    | succ i =>
      rcases ih hrest (by simpa using hi) with hseen | ⟨p, hp, hname⟩
      · rcases List.mem_cons.mp hseen with rfl | hseen
        · exact .inr ⟨0, by omega, rfl⟩
        · exact .inl hseen
      · exact .inr ⟨p + 1, by omega, hname⟩

/-- What is kept of a registry is declared in order if prerequisites are kept. -/
theorem filter (h : Declared seen r) {keep : String → Bool} (hkeep : r.KeptBelow keep) :
    Declared (seen.filter keep) (r.filter fun rule => keep rule.name) := by
  induction r generalizing seen with
  | nil => trivial
  | cons rule rest ih =>
    obtain ⟨hfresh, hrule, hrest⟩ := h
    have hafter := ih hrest fun other hother => hkeep other (List.mem_cons_of_mem _ hother)
    by_cases hname : keep rule.name = true
    · rw [List.filter_cons_of_pos hname] at hafter
      rw [List.filter_cons, if_pos hname]
      refine ⟨fun hmem => hfresh (List.mem_of_mem_filter hmem), fun d hd => ?_, hafter⟩
      exact List.mem_filter.mpr ⟨hrule d hd, hkeep rule List.mem_cons_self hname d hd⟩
    · rw [List.filter_cons_of_neg hname] at hafter
      rwa [List.filter_cons, if_neg hname]

/-- Rules of which nothing else is known without running them are declared alike. -/
theorem map (h : Declared seen r) {f : Rule ρ → Rule ρ} (hinfo : ∀ rule, (f rule).info = rule.info) :
    Declared seen (r.map f) := by
  induction r generalizing seen with
  | nil => trivial
  | cons rule rest ih =>
    have hname : (f rule).name = rule.name := congrArg RuleInfo.name (hinfo rule)
    have hrequires : (f rule).requires = rule.requires := congrArg RuleInfo.requires (hinfo rule)
    obtain ⟨hfresh, hrule, hrest⟩ := h
    refine ⟨hname ▸ hfresh, hrequires ▸ hrule, ?_⟩
    rw [hname]
    exact ih hrest

theorem eq_of_name_eq (h : Declared seen r) {a b : Rule ρ} (ha : a ∈ r) (hb : b ∈ r)
    (hab : a.name = b.name) : a = b :=
  Registry.eq_of_name_eq h.nodup ha hb hab

theorem wellFormed (h : Declared [] r) : r.WellFormed := by
  refine ⟨h.nodup, fun rule hrule d hd => ?_, fun name hcycle => ?_⟩
  · obtain ⟨i, hi⟩ := List.mem_iff_getElem?.mp hrule
    obtain ⟨p, -, hp⟩ := (h.behind hi hd).resolve_left List.not_mem_nil
    exact List.mem_of_getElem? hp
  · have hstep : ∀ a b, r.Needs a b → r.names.idxOf b < r.names.idxOf a := by
      rintro _ b ⟨rule, hrule, rfl, hb⟩
      obtain ⟨i, hi⟩ := List.mem_iff_getElem?.mp hrule
      obtain ⟨p, hp, hname⟩ := (h.behind hi hb).resolve_left List.not_mem_nil
      rw [idxOf_names h.nodup hname, idxOf_names h.nodup (getElem?_names.mpr ⟨rule, hi, rfl⟩)]
      exact hp
    exact not_transGen_self _ hstep name hcycle

/-- Rules declared behind their prerequisites run in the order of their declaration. -/
theorem exists_build (h : Declared [] r) :
    ∃ deps, Resolved r deps ∧ r.build = .ok ⟨r.toArray, deps, List.range r.length⟩ := by
  obtain ⟨g, hg⟩ := h.wellFormed.exists_build
  obtain ⟨deps, hresolved, hlen, rfl⟩ := eq_of_build_eq_ok hg
  have hlow : ∀ i d, d ∈ deps.getD i [] → d < i := by
    intro i d hd
    obtain ⟨rule, hrule, name, hname, hdname⟩ := hresolved.mem_iff.mp hd
    obtain ⟨p, hp, hpname⟩ := (h.behind hrule hname).resolve_left List.not_mem_nil
    exact place_unique h.nodup hpname hdname ▸ hp
  refine ⟨deps, hresolved, ?_⟩
  rw [hg, (greedy_runOrder deps).eq_range hlen hlow, hresolved.size]

/-- What is retained is declared in order. -/
theorem retain (h : Declared [] r) (requested : List String) :
    Declared [] (r.retainWithPrerequisites requested).1 :=
  retainWithPrerequisites_eq r requested ▸ h.filter (h.wellFormed.keptBelow_reach requested)

end Declared

end Registry

end Lintel
