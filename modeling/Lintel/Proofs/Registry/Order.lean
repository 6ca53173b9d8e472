import Lintel.Registry.Basic
import Mathlib.Data.Fintype.Card
import Mathlib.Data.Fintype.EquivFin
import Mathlib.Data.List.Sort
import Mathlib.Logic.Relation
import Mathlib.Order.Bounds.Defs

/-!
# The order in which rules run

While the dependents of the rule placed last are released, the count of a rule exceeds
the prerequisites it still misses by the releases it is owed. This is the invariant of
the agenda. It makes every rule placed the lowest one that could be, and leaves a rule
out only if it comes before itself.
-/

namespace Lintel

/-- Whether a rule can come next. -/
structure Free (deps : Array (List Nat)) (placed : List Nat) (i : Nat) : Prop where
  bound : i < deps.size
  fresh : i ∉ placed
  met : ∀ d ∈ deps.getD i [], d ∈ placed

/-- Every rule was the lowest that could come next. -/
def Greedy (deps : Array (List Nat)) (order : List Nat) : Prop :=
  ∀ k i, order[k]? = some i → IsLeast {j | Free deps (order.take k) j} i

namespace Greedy

variable {deps : Array (List Nat)} {order : List Nat}

theorem nil : Greedy deps [] := by
  intro k i h
  simp at h

theorem concat {i : Nat} (h : Greedy deps order) (hi : IsLeast {j | Free deps order j} i) :
    Greedy deps (order ++ [i]) := by
  intro k j hj
  rcases Nat.lt_trichotomy k order.length with hk | hk | hk
  · rw [List.getElem?_append_left hk] at hj
    rw [List.take_append_of_le_length (Nat.le_of_lt hk)]
    exact h k j hj
  · subst hk
    obtain rfl : i = j := by simpa using hj
    simpa using hi
  · rw [List.getElem?_eq_none (by simp; omega)] at hj
    cases hj

theorem free {i : Nat} (h : Greedy deps order) (hi : i ∈ order) :
    ∃ k, order[k]? = some i ∧ Free deps (order.take k) i := by
  obtain ⟨k, hk⟩ := List.mem_iff_getElem?.mp hi
  exact ⟨k, hk, (h k i hk).1⟩

theorem bound {i : Nat} (h : Greedy deps order) (hi : i ∈ order) : i < deps.size := by
  obtain ⟨k, -, hfree⟩ := h.free hi
  exact hfree.bound

theorem closed {i d : Nat} (h : Greedy deps order) (hi : i ∈ order) (hd : d ∈ deps.getD i []) :
    d ∈ order := by
  obtain ⟨k, -, hfree⟩ := h.free hi
  exact List.mem_of_mem_take (hfree.met d hd)

theorem nodup (h : Greedy deps order) : order.Nodup := by
  rw [List.nodup_iff_getElem?_ne_getElem?]
  intro a b hab hb heq
  have hfree := (h b order[b] (List.getElem?_eq_getElem hb)).1
  refine hfree.fresh (List.mem_take_iff_getElem.mpr ⟨a, by omega, ?_⟩)
  simpa [List.getElem?_eq_getElem hb, List.getElem?_eq_getElem (hab.trans hb)] using heq

theorem length_le (h : Greedy deps order) : order.length ≤ deps.size := by
  have hsub : order ⊆ List.range deps.size := fun i hi => List.mem_range.mpr (h.bound hi)
  simpa using (List.subperm_of_subset h.nodup hsub).length_le

theorem length_eq (h : Greedy deps order) (hall : ∀ i < deps.size, i ∈ order) :
    order.length = deps.size := by
  have hsub : List.range deps.size ⊆ order := fun i hi => hall i (List.mem_range.mp hi)
  have hle := (List.subperm_of_subset List.nodup_range hsub).length_le
  rw [List.length_range] at hle
  exact Nat.le_antisymm h.length_le hle

theorem idxOf_lt {i d : Nat} (h : Greedy deps order) (hi : i ∈ order) (hd : d ∈ deps.getD i []) :
    order.idxOf d < order.idxOf i := by
  have hlt := List.idxOf_lt_length_iff.mpr hi
  have hfree := (h (order.idxOf i) i (by simp [hlt])).1
  obtain ⟨a, ha, had⟩ := List.mem_take_iff_getElem.mp (hfree.met d hd)
  obtain rfl := had
  rw [h.nodup.idxOf_getElem]
  omega

end Greedy

/-! ### The agenda -/

private theorem mem_dependents {deps : Array (List Nat)} {place i : Nat} :
    i ∈ dependents deps place ↔ i < deps.size ∧ place ∈ deps.getD i [] := by
  simp only [dependents, List.mem_flatMap, List.mem_range, List.mem_replicate, ne_eq,
    List.count_eq_zero, not_not]
  constructor
  · rintro ⟨j, hj, hmem, rfl⟩
    exact ⟨hj, hmem⟩
  · rintro ⟨hi, hmem⟩
    exact ⟨i, hi, hmem, rfl⟩

private theorem count_flatMap_replicate (f : Nat → Nat) (i n : Nat) :
    ((List.range n).flatMap fun j => List.replicate (f j) j).count i = if i < n then f i else 0 := by
  induction n with
  | zero => rfl
  | succ n ih =>
    rw [List.range_succ, List.flatMap_append, List.count_append, ih, List.flatMap_singleton,
      List.count_replicate]
    by_cases hin : n = i
    · simp [hin]
    · have hlt : i < n + 1 ↔ i < n := by omega
      simp [hin, hlt]

private theorem count_dependents {deps : Array (List Nat)} {place i : Nat} (hi : i < deps.size) :
    (dependents deps place).count i = (deps.getD i []).count place := by
  rw [dependents, count_flatMap_replicate, if_pos hi]

private theorem countP_not_mem_concat {placed : List Nat} {place : Nat} (h : place ∉ placed)
    (l : List Nat) :
    l.countP (· ∉ placed) = l.countP (· ∉ placed ++ [place]) + l.count place := by
  induction l with
  | nil => rfl
  | cons d l ih =>
    rw [List.countP_cons, List.countP_cons, List.count_cons, ih]
    by_cases hd : d = place
    · simp [hd, h]
      omega
    · simp [hd]
      omega

private theorem mem_enqueue {place i : Nat} {places : List Nat} :
    i ∈ enqueue place places ↔ i = place ∨ i ∈ places := by
  induction places with
  | nil => simp [enqueue]
  | cons first rest ih =>
    rw [enqueue]
    split
    · simp
    · simp [ih, or_left_comm]

private theorem pairwise_enqueue {place : Nat} {places : List Nat} (h : places.Pairwise (· < ·))
    (hfresh : place ∉ places) : (enqueue place places).Pairwise (· < ·) := by
  induction places with
  | nil => simp [enqueue]
  | cons first rest ih =>
    obtain ⟨hfirst, hrest⟩ := List.pairwise_cons.mp h
    obtain ⟨hne, hnot⟩ := not_or.mp (mt List.mem_cons.mpr hfresh)
    rw [enqueue]
    split
    · rename_i hle
      have hlt : place < first := by omega
      refine List.pairwise_cons.mpr ⟨fun j hj => ?_, h⟩
      rcases List.mem_cons.mp hj with rfl | hj
      · exact hlt
      · exact hlt.trans (hfirst j hj)
    · rename_i hgt
      refine List.pairwise_cons.mpr ⟨fun j hj => ?_, ih hrest hnot⟩
      rcases mem_enqueue.mp hj with rfl | hj
      · omega
      · exact hfirst j hj

namespace Agenda

/-- The state of the agenda while some rules are owed a release. -/
structure Sound (deps : Array (List Nat)) (owed : List Nat) (a : Agenda) : Prop where
  size : a.missing.size = deps.size
  counted : ∀ i < deps.size,
    a.missing.getD i 0 = (deps.getD i []).countP (· ∉ a.placed) + owed.count i
  pending : ∀ i ∈ owed, i < deps.size ∧ i ∉ a.placed
  mem_ready : ∀ i, i ∈ a.ready ↔ i < deps.size ∧ i ∉ a.placed ∧ a.missing.getD i 0 = 0
  ascending : a.ready.Pairwise (· < ·)
  greedy : Greedy deps a.placed

variable {deps : Array (List Nat)} {a : Agenda}

private theorem sound_start (deps : Array (List Nat)) : Sound deps [] (start deps) := by
  refine ⟨by simp [start], fun i hi => ?_, by simp, fun i => ?_, ?_, Greedy.nil⟩
  · simp [start, hi, Array.getD]
  · simp only [start, List.mem_filter, List.mem_range, List.not_mem_nil, not_false_eq_true,
      true_and]
    refine and_congr_right fun hi => ?_
    simp [hi, Array.getD]
  · exact List.pairwise_lt_range.filter _

@[simp]
private theorem placed_release (a : Agenda) (i : Nat) : (a.release i).placed = a.placed :=
  rfl

private theorem missing_release {i : Nat} (hi : i < a.missing.size) (j : Nat) :
    (a.release i).missing.getD j 0 =
      if j = i then a.missing.getD i 0 - 1 else a.missing.getD j 0 := by
  simp only [release, Array.getD_eq_getD_getElem?, Array.getElem?_setIfInBounds]
  by_cases hj : j = i
  · simp [hj, hi]
  · simp [hj, Ne.symm hj]

theorem Sound.release {i : Nat} {owed : List Nat} (h : Sound deps (i :: owed) a) :
    Sound deps owed (a.release i) := by
  obtain ⟨hi, hfresh⟩ := h.pending i List.mem_cons_self
  have hmissing := missing_release (hi.trans_eq h.size.symm)
  have hcount : a.missing.getD i 0 - 1 = (deps.getD i []).countP (· ∉ a.placed) + owed.count i := by
    rw [h.counted i hi, List.count_cons_self]
    omega
  have hready : i ∉ a.ready := by
    intro hmem
    have hzero := ((h.mem_ready i).mp hmem).2.2
    rw [h.counted i hi, List.count_cons_self] at hzero
    omega
  refine ⟨by simp [Agenda.release, h.size], fun j hj => ?_, fun j hj => ?_, fun j => ?_, ?_,
    h.greedy⟩
  · rw [hmissing, placed_release]
    by_cases hji : j = i
    · subst hji
      rw [if_pos rfl, hcount]
    · rw [if_neg hji, h.counted j hj, List.count_cons_of_ne (Ne.symm hji)]
  · exact h.pending j (List.mem_cons_of_mem _ hj)
  · rw [hmissing, placed_release, Agenda.release]
    by_cases hleft : a.missing.getD i 0 - 1 = 0
    · rw [if_pos hleft, mem_enqueue, h.mem_ready]
      by_cases hji : j = i
      · subst hji
        rw [if_pos rfl]
        exact iff_of_true (.inl rfl) ⟨hi, hfresh, hleft⟩
      · rw [if_neg hji, or_iff_right hji]
    · rw [if_neg hleft, h.mem_ready]
      by_cases hji : j = i
      · subst hji
        rw [if_pos rfl]
        omega
      · rw [if_neg hji]
  · rw [Agenda.release]
    split
    · exact pairwise_enqueue h.ascending hready
    · exact h.ascending

theorem Sound.foldl_release {owed : List Nat} (h : Sound deps owed a) :
    Sound deps [] (owed.foldl Agenda.release a) := by
  induction owed generalizing a with
  | nil => exact h
  | cons i owed ih => exact ih h.release

@[simp] private theorem placed_foldl_release (owed : List Nat) (a : Agenda) :
    (owed.foldl Agenda.release a).placed = a.placed := by
  induction owed generalizing a with
  | nil => rfl
  | cons i owed ih => exact ih (a.release i)

theorem Sound.mem_ready_iff_free (h : Sound deps [] a) (i : Nat) :
    i ∈ a.ready ↔ Free deps a.placed i := by
  rw [h.mem_ready]
  constructor
  · rintro ⟨hi, hfresh, hzero⟩
    rw [h.counted i hi, List.count_nil, Nat.add_zero, List.countP_eq_zero] at hzero
    exact ⟨hi, hfresh, fun d hd => by simpa using hzero d hd⟩
  · rintro ⟨hi, hfresh, hmet⟩
    rw [h.counted i hi, List.count_nil, Nat.add_zero, List.countP_eq_zero]
    exact ⟨hi, hfresh, fun d hd => by simpa using hmet d hd⟩

theorem Sound.isLeast {place : Nat} {rest : List Nat} (h : Sound deps [] a)
    (hr : a.ready = place :: rest) : IsLeast {j | Free deps a.placed j} place := by
  have hready := h.mem_ready_iff_free
  have hlow := h.ascending
  rw [hr] at hready hlow
  refine ⟨(hready place).mp List.mem_cons_self, fun j hj => ?_⟩
  rcases List.mem_cons.mp ((hready j).mpr hj) with rfl | hmem
  · exact Nat.le_refl j
  · exact Nat.le_of_lt ((List.pairwise_cons.mp hlow).1 j hmem)

/-- Placing the lowest ready rule leaves its dependents to be released. -/
theorem Sound.place {place : Nat} {rest : List Nat} (h : Sound deps [] a)
    (hr : a.ready = place :: rest) :
    Sound deps (dependents deps place)
      { a with ready := rest, placed := a.placed ++ [place] } := by
  have hleast := h.isLeast hr
  have hfree : Free deps a.placed place := hleast.1
  have hlow := h.ascending
  rw [hr] at hlow
  obtain ⟨hfirst, hrest⟩ := List.pairwise_cons.mp hlow
  refine ⟨h.size, fun i hi => ?_, fun i hi => ?_, fun i => ?_, hrest, h.greedy.concat hleast⟩
  · rw [count_dependents hi, ← countP_not_mem_concat hfree.fresh, h.counted i hi]
    rfl
  · obtain ⟨hbound, hneeds⟩ := mem_dependents.mp hi
    refine ⟨hbound, fun hmem => hfree.fresh ?_⟩
    rcases List.mem_append.mp hmem with hmem | hmem
    · exact h.greedy.closed hmem hneeds
    · rw [List.mem_singleton.mp hmem] at hneeds
      exact hfree.met place hneeds
  · have hmem := h.mem_ready i
    rw [hr, List.mem_cons] at hmem
    by_cases hi : i = place
    · subst hi
      have hnot : i ∉ rest := fun hi => Nat.lt_irrefl i (hfirst i hi)
      simp [hnot]
    · simpa [hi] using hmem

theorem Sound.advance (h : Sound deps [] a) : Sound deps [] (a.advance deps) := by
  rw [Agenda.advance]
  split
  · exact h
  · rename_i place rest hr
    exact (h.place hr).foldl_release

private theorem length_placed_advance (a : Agenda) (h : a.ready ≠ []) :
    (a.advance deps).placed.length = a.placed.length + 1 := by
  rw [Agenda.advance]
  split
  · contradiction
  · simp

theorem sound_repeat (deps : Array (List Nat)) (k : Nat) :
    Sound deps [] (k.repeat (Agenda.advance deps) (.start deps)) := by
  induction k with
  | zero => exact sound_start deps
  | succ k ih => exact ih.advance

private theorem ready_repeat (deps : Array (List Nat)) (k : Nat) :
    (k.repeat (Agenda.advance deps) (.start deps)).ready = [] ∨
      (k.repeat (Agenda.advance deps) (.start deps)).placed.length = k := by
  induction k with
  | zero => exact .inr rfl
  | succ k ih =>
    rw [Nat.repeat]
    by_cases hr : (k.repeat (Agenda.advance deps) (.start deps)).ready = []
    · refine .inl ?_
      rw [Agenda.advance]
      simp [hr]
    · refine .inr ?_
      rw [length_placed_advance _ hr, ih.resolve_left hr]

/-- As many steps as there are rules leave none that could come next. -/
theorem ready_eq_nil (deps : Array (List Nat)) :
    (deps.size.repeat (Agenda.advance deps) (.start deps)).ready = [] := by
  have hsound := sound_repeat deps deps.size
  rcases ready_repeat deps deps.size with h | h
  · exact h
  · by_contra hr
    have hlen := hsound.advance.greedy.length_le
    rw [length_placed_advance _ hr] at hlen
    omega

end Agenda

/-! ### The whole order -/

theorem greedy_runOrder (deps : Array (List Nat)) : Greedy deps (runOrder deps) :=
  (Agenda.sound_repeat deps deps.size).greedy

theorem not_free_runOrder (deps : Array (List Nat)) (i : Nat) : ¬ Free deps (runOrder deps) i := by
  intro h
  have hmem := ((Agenda.sound_repeat deps deps.size).mem_ready_iff_free i).mpr h
  rw [Agenda.ready_eq_nil] at hmem
  cases hmem

theorem Greedy.perm {deps : Array (List Nat)} {order : List Nat} (h : Greedy deps order)
    (hlen : order.length = deps.size) : order.Perm (List.range deps.size) := by
  have hsub : order ⊆ List.range deps.size := fun i hi => List.mem_range.mpr (h.bound hi)
  exact (List.subperm_of_subset h.nodup hsub).perm_of_length_le (by simp [hlen])

/-- All rules are placed if none comes before itself. -/
theorem length_runOrder {deps : Array (List Nat)}
    (hdeps : ∀ i d, d ∈ deps.getD i [] → d < deps.size)
    (hacyclic : ∀ i, ¬ Relation.TransGen (fun i d => d ∈ deps.getD i []) i i) :
    (runOrder deps).length = deps.size := by
  have hwf : WellFounded fun d i : Fin deps.size =>
      Relation.TransGen (fun i d => d ∈ deps.getD i []) i.val d.val := by
    have : IsTrans (Fin deps.size) fun d i =>
        Relation.TransGen (fun i d => d ∈ deps.getD i []) i.val d.val :=
      ⟨fun _ _ _ hde hef => hef.trans hde⟩
    have : Std.Irrefl fun d i : Fin deps.size =>
        Relation.TransGen (fun i d => d ∈ deps.getD i []) i.val d.val := ⟨fun i => hacyclic i⟩
    exact Finite.wellFounded_of_trans_of_irrefl _
  have hall : ∀ i : Fin deps.size, i.val ∈ runOrder deps := by
    intro i
    induction i using hwf.induction with
    | _ i ih =>
      by_contra hi
      exact not_free_runOrder deps i
        ⟨i.isLt, hi, fun d hd => ih ⟨d, hdeps i d hd⟩ (.single hd)⟩
  exact (greedy_runOrder deps).length_eq fun i hi => hall ⟨i, hi⟩

end Lintel
