import Lintel.Registry.Basic
import Mathlib.Data.List.Basic

/-!
# What is reached from a set

The rounds of a search are sublists of the domain, each one of the next. A round that
adds nothing is the last that can add anything, and there are only as many entries to
add as the domain has. The loops that keep the rules behind some names and mark the rules
that a plan needs take one pending entry after another instead. What they find is what is
reached: they never leave a set that leads to nothing outside of it, and all that an entry
they have dealt with leads to is found or pending.
-/

namespace Lintel

section Rounds

variable {α : Type} [BEq α] {domain set : List α} {next : α → List α} {x y : α}

/-- Adds to a set of entries all entries of a domain that one of them leads to. -/
def widen (domain : List α) (next : α → List α) (set : List α) : List α :=
  domain.filter fun x => set.contains x || set.any fun y => (next y).contains x

/-- The entries of a domain reached from a set, in the order of the domain. As many
rounds as the domain has entries suffice. -/
def reach (domain : List α) (next : α → List α) (set : List α) : List α :=
  domain.length.repeat (widen domain next) (domain.filter set.contains)

def rounds (domain : List α) (next : α → List α) (set : List α) (k : Nat) : List α :=
  k.repeat (widen domain next) (domain.filter set.contains)

variable [LawfulBEq α]

theorem mem_widen :
    x ∈ widen domain next set ↔ x ∈ domain ∧ (x ∈ set ∨ ∃ y ∈ set, x ∈ next y) := by
  simp [widen]

theorem mem_rounds_zero : x ∈ rounds domain next set 0 ↔ x ∈ domain ∧ x ∈ set := by
  simp [rounds, Nat.repeat]

private theorem mem_domain_of_mem_rounds {k : Nat} (h : x ∈ rounds domain next set k) :
    x ∈ domain := by
  cases k with
  | zero => exact (mem_rounds_zero.mp h).1
  | succ k => exact (mem_widen.mp h).1

private theorem mem_rounds_succ {k : Nat} (h : x ∈ rounds domain next set k) :
    x ∈ rounds domain next set (k + 1) :=
  mem_widen.mpr ⟨mem_domain_of_mem_rounds h, .inl h⟩

private theorem mem_rounds_of_le {j k : Nat} (hjk : j ≤ k) (h : x ∈ rounds domain next set j) :
    x ∈ rounds domain next set k := by
  induction hjk with
  | refl => exact h
  | step _ ih => exact mem_rounds_succ ih

private theorem filter_contains_filter (p : α → Bool) :
    domain.filter (domain.filter p).contains = domain.filter p :=
  List.filter_congr fun x hx => by simp [hx]

private theorem filter_contains_rounds (k : Nat) :
    domain.filter (rounds domain next set k).contains = rounds domain next set k := by
  cases k with
  | zero => exact filter_contains_filter _
  | succ k => exact filter_contains_filter _

private theorem rounds_sublist_succ (domain : List α) (next : α → List α) (set : List α) (k : Nat) :
    (rounds domain next set k).Sublist (rounds domain next set (k + 1)) := by
  rw [← filter_contains_rounds k, ← filter_contains_rounds (k + 1)]
  refine List.monotone_filter_right domain fun x hx => ?_
  exact List.contains_iff_mem.mpr (mem_rounds_succ (List.contains_iff_mem.mp hx))

/-- A round adds nothing, or as many entries as there were rounds have been found. -/
theorem rounds_stable (domain : List α) (next : α → List α) (set : List α) (k : Nat) :
    rounds domain next set (k + 1) = rounds domain next set k ∨
      k < (rounds domain next set (k + 1)).length := by
  induction k with
  | zero =>
    have hsub := rounds_sublist_succ domain next set 0
    rcases Nat.eq_or_lt_of_le hsub.length_le with heq | hlt
    · exact .inl (hsub.eq_of_length heq).symm
    · exact .inr (by omega)
  | succ k ih =>
    have hsub := rounds_sublist_succ domain next set (k + 1)
    rcases ih with heq | hlt
    · exact .inl (congrArg (widen domain next) heq)
    · rcases Nat.eq_or_lt_of_le hsub.length_le with heq | hlt
      · exact .inl (hsub.eq_of_length heq).symm
      · exact .inr (by omega)

@[simp] private theorem widen_reach :
    widen domain next (reach domain next set) = reach domain next set := by
  rcases rounds_stable domain next set domain.length with h | h
  · exact h
  · have hle : (rounds domain next set (domain.length + 1)).length ≤ domain.length := by
      rw [← filter_contains_rounds]
      exact List.length_filter_le _ _
    omega

theorem mem_reach_of_mem (hd : x ∈ domain) (h : x ∈ set) : x ∈ reach domain next set :=
  mem_rounds_of_le (Nat.zero_le _) (mem_rounds_zero.mpr ⟨hd, h⟩)

theorem mem_domain_of_mem_reach (h : x ∈ reach domain next set) : x ∈ domain :=
  mem_domain_of_mem_rounds h

theorem mem_reach_of_next (h : x ∈ reach domain next set) (hd : y ∈ domain) (hy : y ∈ next x) :
    y ∈ reach domain next set := by
  rw [← widen_reach]
  exact mem_widen.mpr ⟨hd, .inr ⟨x, h, hy⟩⟩

/-- What holds of the entries that are asked for, and goes on to what they lead to, holds of all
that is reached. -/
theorem reach_induction {P : α → Prop} (hset : ∀ x ∈ domain, x ∈ set → P x)
    (hnext : ∀ y ∈ reach domain next set, P y → ∀ x ∈ domain, x ∈ next y → P x)
    (h : x ∈ reach domain next set) : P x := by
  have hrounds : ∀ k ≤ domain.length, ∀ x ∈ rounds domain next set k, P x := by
    intro k
    induction k with
    | zero =>
      intro _ x hx
      obtain ⟨hd, hx⟩ := mem_rounds_zero.mp hx
      exact hset x hd hx
    | succ k ih =>
      intro hk x hx
      obtain ⟨hd, hx | ⟨y, hy, hxy⟩⟩ := mem_widen.mp hx
      · exact ih (by omega) x hx
      · exact hnext y (mem_rounds_of_le (by omega) hy) (ih (by omega) y hy) x hd hxy
  exact hrounds domain.length (Nat.le_refl _) x h

/-- An entry is reached because it was asked for, or from another. -/
theorem mem_or_next_of_mem_reach (h : x ∈ reach domain next set) :
    x ∈ set ∨ ∃ y ∈ reach domain next set, x ∈ next y :=
  reach_induction (P := fun x => x ∈ set ∨ ∃ y ∈ reach domain next set, x ∈ next y)
    (fun _ _ hx => .inl hx) (fun y hy _ _ _ hx => .inr ⟨y, hy, hx⟩) h

end Rounds

/-! ### The names kept behind others -/

namespace Registry

variable {ρ : Type} {r : Registry ρ} {keep pending : List String} {name : String}

/-- What is required by names that lead to nothing outside of a set is in it. -/
theorem keepPending_subset {S : String → Prop} (hclosed : ∀ x, S x → ∀ d ∈ r.requiresOf x, S d)
    (hkeep : ∀ x ∈ keep, S x) (hpending : ∀ x ∈ pending, S x) :
    ∀ x ∈ r.keepPending keep pending, S x := by
  induction keep, pending using keepPending.induct r with
  | case1 keep => simpa [keepPending] using hkeep
  | case2 keep name pending hold ih =>
    rw [keepPending, if_pos hold]
    exact ih hkeep fun x hx => hpending x (List.mem_cons_of_mem _ hx)
  | case3 keep name pending hnew ih =>
    rw [keepPending, if_neg hnew]
    obtain ⟨hname, hrest⟩ := List.forall_mem_cons.mp hpending
    refine ih (List.forall_mem_cons.mpr ⟨hname, hkeep⟩) fun x hx => ?_
    rcases List.mem_append.mp hx with hx | hx
    · exact hclosed name hname x (List.mem_reverse.mp hx)
    · exact hrest x hx

/-- Nothing that is kept or pending is lost. -/
theorem mem_keepPending (h : name ∈ keep ∨ name ∈ pending) : name ∈ r.keepPending keep pending := by
  induction keep, pending using keepPending.induct r with
  | case1 keep => simpa [keepPending] using h
  | case2 keep top pending hold ih =>
    rw [keepPending, if_pos hold]
    rcases h with h | h
    · exact ih (.inl h)
    · rcases List.mem_cons.mp h with rfl | h
      · exact ih (.inl (List.contains_iff_mem.mp hold))
      · exact ih (.inr h)
  | case3 keep top pending hnew ih =>
    rw [keepPending, if_neg hnew]
    rcases h with h | h
    · exact ih (.inl (List.mem_cons_of_mem _ h))
    · rcases List.mem_cons.mp h with rfl | h
      · exact ih (.inl List.mem_cons_self)
      · exact ih (.inr (List.mem_append_right _ h))

/-- If all that the kept names require is kept or pending, then in the end it is kept. -/
theorem keepPending_closed
    (h : ∀ x ∈ keep, ∀ d ∈ r.requiresOf x, d ∈ keep ∨ d ∈ pending) :
    ∀ x ∈ r.keepPending keep pending, ∀ d ∈ r.requiresOf x, d ∈ r.keepPending keep pending := by
  induction keep, pending using keepPending.induct r with
  | case1 keep => simpa [keepPending] using h
  | case2 keep name pending hold ih =>
    rw [keepPending, if_pos hold]
    refine ih fun x hx d hd => ?_
    rcases h x hx d hd with hd | hd
    · exact .inl hd
    · rcases List.mem_cons.mp hd with rfl | hd
      · exact .inl (List.contains_iff_mem.mp hold)
      · exact .inr hd
  | case3 keep name pending hnew ih =>
    rw [keepPending, if_neg hnew]
    refine ih fun x hx d hd => ?_
    rcases List.mem_cons.mp hx with rfl | hx
    · exact .inr (List.mem_append_left _ (List.mem_reverse.mpr hd))
    · rcases h x hx d hd with hd | hd
      · exact .inl (List.mem_cons_of_mem _ hd)
      · rcases List.mem_cons.mp hd with rfl | hd
        · exact .inl List.mem_cons_self
        · exact .inr (List.mem_append_right _ hd)

/-- The registered names that are kept are those reached from the requested ones. -/
theorem mem_keepPending_iff (hname : name ∈ r.names) (requested : List String) :
    name ∈ r.keepPending [] (requested.filter r.names.contains).reverse ↔
      name ∈ reach r.names r.requiresOf requested := by
  constructor
  · intro hkept
    -- the names of no rule require nothing, so they may be left in the set
    refine keepPending_subset
      (S := fun x => x ∈ r.names → x ∈ reach r.names r.requiresOf requested) ?_ ?_ ?_ name hkept hname
    · intro x hx d hd hdname
      by_cases hknown : x ∈ r.names
      · exact mem_reach_of_next (hx hknown) hdname hd
      · rw [requiresOf_eq_nil hknown] at hd
        cases hd
    · intro x hx
      cases hx
    · intro x hx hxname
      exact mem_reach_of_mem hxname (List.mem_filter.mp (List.mem_reverse.mp hx)).1
  · refine reach_induction (fun x hx hasked => mem_keepPending (.inr ?_)) fun y _ hy x _ hx => ?_
    · exact List.mem_reverse.mpr (List.mem_filter.mpr ⟨hasked, List.contains_iff_mem.mpr hx⟩)
    · exact keepPending_closed (fun x hx => absurd hx List.not_mem_nil) y hy x hx

theorem retainWithPrerequisites_eq (r : Registry ρ) (requested : List String) :
    r.retainWithPrerequisites requested =
      (r.filter fun rule => (reach r.names r.requiresOf requested).contains rule.name,
        requested.filter fun name => !r.names.contains name) := by
  unfold retainWithPrerequisites
  rw [List.partition_eq_filter_filter]
  refine Prod.ext (List.filter_congr fun rule hrule => ?_) rfl
  rw [Bool.eq_iff_iff, List.contains_iff_mem, List.contains_iff_mem]
  exact mem_keepPending_iff (List.mem_map_of_mem hrule) requested

end Registry

/-! ### The places marked as needed -/

namespace PassGraph

variable {ρ : Type} {deps : Array (List Nat)} {needed : Array Bool} {pending : List Nat} {place : Nat}

def Marked (needed : Array Bool) (place : Nat) : Prop :=
  needed.getD place false = true

theorem Marked.lt_size (h : Marked needed place) : place < needed.size :=
  Nat.lt_of_not_le fun hle => by simp [Marked, hle] at h

/-- Some places are marked and those that were not marked before are pending. -/
structure Demanded (places : List Nat) (before after : Array Bool × List Nat) : Prop where
  size : after.1.size = before.1.size
  marked : ∀ place, Marked after.1 place ↔
    Marked before.1 place ∨ place ∈ places ∧ place < before.1.size
  older : before.2 ⊆ after.2
  newer : ∀ place, Marked after.1 place → Marked before.1 place ∨ place ∈ after.2
  only : ∀ place ∈ after.2, place ∈ before.2 ∨ place ∈ places ∧ place < before.1.size

private theorem demanded_demand (work : Array Bool × List Nat) (place : Nat) :
    Demanded [place] work (demand work place) := by
  unfold demand
  split
  · rename_i hold
    refine ⟨rfl, fun other => ⟨.inl, ?_⟩, List.Subset.refl _, fun other => .inl, fun other => .inl⟩
    rintro (h | ⟨hother, hlt⟩)
    · exact h
    · obtain rfl := List.mem_singleton.mp hother
      simpa [Marked, hlt] using hold
  · rename_i hnew
    have hlt : place < work.1.size := Nat.lt_of_not_le fun hle => hnew (by simp [hle])
    have hmarked : ∀ other, Marked (work.1.setIfInBounds place true) other ↔
        Marked work.1 other ∨ other ∈ [place] ∧ other < work.1.size := by
      intro other
      rw [List.mem_singleton]
      by_cases heq : place = other
      · subst heq
        simp [Marked, hlt]
      · simp [Marked, heq, Ne.symm heq]
    refine ⟨Array.size_setIfInBounds, hmarked, List.subset_cons_self _ _, fun other h => ?_,
      fun other h => ?_⟩
    · refine ((hmarked other).mp h).imp_right fun h => ?_
      exact List.mem_cons.mpr (.inl (List.mem_singleton.mp h.1))
    · rcases List.mem_cons.mp h with rfl | h
      · exact .inr ⟨List.mem_cons_self, hlt⟩
      · exact .inl h

theorem demanded_foldl (places : List Nat) (work : Array Bool × List Nat) :
    Demanded places work (places.foldl demand work) := by
  induction places generalizing work with
  | nil =>
    exact ⟨rfl, fun place => by simp, List.Subset.refl _, fun place => .inl, fun place => .inl⟩
  | cons first places ih =>
    have hfirst := demanded_demand work first
    have hrest := ih (demand work first)
    refine ⟨hrest.size.trans hfirst.size, fun place => ?_, fun _ h => hrest.older (hfirst.older h),
      fun place h => ?_, fun place h => ?_⟩
    · rw [List.foldl_cons, hrest.marked, hfirst.marked, hfirst.size, List.mem_singleton, or_assoc,
        ← or_and_right, List.mem_cons]
    · rcases hrest.newer place h with h | h
      · exact (hfirst.newer place h).imp_right fun h => hrest.older h
      · exact .inr h
    · rw [List.mem_cons, or_and_right, ← List.mem_singleton]
      rcases hrest.only place h with h | h
      · exact (hfirst.only place h).imp_right .inl
      · exact .inr (.inr (hfirst.size ▸ h))

/-- What is marked stays marked. -/
theorem Marked.markNeeded (h : Marked needed place) : Marked (markNeeded deps needed pending) place := by
  induction needed, pending using markNeeded.induct deps with
  | case1 needed => simpa [PassGraph.markNeeded] using h
  | case2 needed top pending work ih =>
    rw [PassGraph.markNeeded]
    exact ih (((demanded_foldl _ _).marked place).mpr (.inl h))

/-- Places that lead to nothing outside of a set have nothing marked outside of it. -/
theorem markNeeded_subset {S : Nat → Prop}
    (hclosed : ∀ x, S x → ∀ d ∈ deps.getD x [], d < needed.size → S d)
    (hmarked : ∀ x, Marked needed x → S x) (hpending : ∀ x ∈ pending, S x) :
    ∀ x, Marked (markNeeded deps needed pending) x → S x := by
  induction needed, pending using markNeeded.induct deps with
  | case1 needed => simpa [markNeeded] using hmarked
  | case2 needed top pending work ih =>
    have hwork : Demanded (deps.getD top []) (needed, pending) work := demanded_foldl _ _
    obtain ⟨htop, hrest⟩ := List.forall_mem_cons.mp hpending
    have hbehind : ∀ d ∈ deps.getD top [] , d < needed.size → S d := hclosed top htop
    rw [markNeeded]
    refine ih (by rwa [hwork.size]) (fun x hx => ?_) fun x hx => ?_
    · rcases (hwork.marked x).mp hx with hold | ⟨hmem, hlt⟩
      · exact hmarked x hold
      · exact hbehind x hmem hlt
    · rcases hwork.only x hx with hold | ⟨hmem, hlt⟩
      · exact hrest x hold
      · exact hbehind x hmem hlt

/-- If the prerequisites of the marked places that are not pending are marked, then in the end
those of all marked places are. -/
theorem markNeeded_closed
    (h : ∀ x, Marked needed x → x ∈ pending ∨
      ∀ d ∈ deps.getD x [], d < needed.size → Marked needed d) :
    ∀ x, Marked (markNeeded deps needed pending) x → ∀ d ∈ deps.getD x [], d < needed.size →
      Marked (markNeeded deps needed pending) d := by
  induction needed, pending using markNeeded.induct deps with
  | case1 needed =>
    rw [markNeeded]
    intro x hx
    exact (h x hx).resolve_left List.not_mem_nil
  | case2 needed top pending work ih =>
    have hwork : Demanded (deps.getD top []) (needed, pending) work := demanded_foldl _ _
    rw [markNeeded]
    rw [hwork.size] at ih
    refine ih fun x hx => ?_
    rcases hwork.newer x hx with hold | hnew
    · rcases h x hold with hpending | hdone
      · rcases List.mem_cons.mp hpending with rfl | hpending
        · exact .inr fun d hd hlt => (hwork.marked d).mpr (.inr ⟨hd, hlt⟩)
        · exact .inl (hwork.older hpending)
      · exact .inr fun d hd hlt => (hwork.marked d).mpr (.inl (hdone d hd hlt))
    · exact .inl hnew

private theorem mem_marked_iff :
    place ∈ (List.range needed.size).filter (fun i => needed.getD i false) ↔ Marked needed place := by
  rw [List.mem_filter, List.mem_range]
  exact and_iff_right_of_imp Marked.lt_size

/-- The places that are marked are those reached from the active ones. -/
theorem marked_markNeeded_iff (deps : Array (List Nat)) (active : Array Bool) (place : Nat) :
    Marked (markNeeded deps active
        ((List.range active.size).filter fun i => active.getD i false).reverse) place ↔
      place ∈ reach (List.range active.size) (fun i => deps.getD i [])
        ((List.range active.size).filter fun i => active.getD i false) := by
  have hreached : ∀ x, Marked active x → x ∈ reach (List.range active.size)
      (fun i => deps.getD i []) ((List.range active.size).filter fun i => active.getD i false) :=
    fun x hx => mem_reach_of_mem (List.mem_range.mpr hx.lt_size) (mem_marked_iff.mpr hx)
  constructor
  · refine markNeeded_subset (S := (· ∈ reach (List.range active.size) _ _)) ?_ hreached ?_ place
    · exact fun x hx d hd hlt => mem_reach_of_next hx (List.mem_range.mpr hlt) hd
    · exact fun x hx => hreached x (mem_marked_iff.mp (List.mem_reverse.mp hx))
  · refine reach_induction (fun x _ hx => (mem_marked_iff.mp hx).markNeeded) fun y _ hy x hx hd => ?_
    refine markNeeded_closed (fun x hx => .inl ?_) y hy x hd (List.mem_range.mp hx)
    exact List.mem_reverse.mpr (mem_marked_iff.mpr hx)

/-- A plan holds what is reached from the enabled rules. -/
theorem schedule_eq_reach (g : PassGraph ρ) (enabled : String → Bool) :
    g.schedule enabled =
      let places := List.range g.rules.size
      let active := places.filter fun i => enabled (g.nameAt i)
      let needed := reach places (fun i => g.deps.getD i []) active
      (g.order.filter needed.contains).map fun i => ⟨i, !active.contains i⟩ := by
  have hsize : (g.rules.map fun rule => enabled rule.name).size = g.rules.size := Array.size_map
  have hactive : ((List.range g.rules.size).filter fun i =>
      (g.rules.map fun rule => enabled rule.name).getD i false) =
      (List.range g.rules.size).filter fun i => enabled (g.nameAt i) := by
    refine List.filter_congr fun i hi => ?_
    simp [nameAt, List.mem_range.mp hi]
  have hneeded := marked_markNeeded_iff g.deps (g.rules.map fun rule => enabled rule.name)
  have hmarked : ∀ i, (g.rules.map fun rule => enabled rule.name).getD i false =
      ((List.range g.rules.size).filter fun i => enabled (g.nameAt i)).contains i := by
    intro i
    rw [Bool.eq_iff_iff, List.contains_iff_mem, ← hactive, ← hsize]
    exact mem_marked_iff.symm
  rw [hsize, hactive] at hneeded
  simp only [schedule, hactive]
  simp only [hmarked]
  congr 1
  refine List.filter_congr fun i _ => ?_
  rw [Bool.eq_iff_iff, List.contains_iff_mem]
  exact hneeded i

end PassGraph

end Lintel
