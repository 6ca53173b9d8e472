import Lintel.Facts
import Lintel.Proofs.Search
import Mathlib.Data.List.Induction
import Mathlib.Data.List.Nodup
import Mathlib.Data.String.Basic
import Mathlib.Order.Compare

/-!
# Sets of methods

A set in ascending order stays so when a method is added, and it then holds the methods it
held before, but for one of the same name. Such a set is determined by what it gives for
each name. A set made of a list of methods gives for each name the last of them with that
name.
-/

namespace Lintel

namespace MethodSet

variable {set other : MethodSet} {method m : Method} {name : String}

/-- A set whose methods are in ascending order of their names, each name once. -/
def Ascending (set : MethodSet) : Prop :=
  set.toList.Pairwise fun a b => a.name < b.name

private theorem ascending_empty : empty.Ascending :=
  .nil

private theorem compare_name_lt : compareOfLessAndEq m.name name = .lt ↔ m.name < name :=
  compareOfLessAndEq_eq_lt

private theorem compare_name_gt : compareOfLessAndEq m.name name = .gt ↔ name < m.name :=
  compareOfLessAndEq_eq_gt le_antisymm le_total not_le _ _

private theorem compare_name_eq : compareOfLessAndEq m.name name = .eq ↔ m.name = name :=
  compareOfLessAndEq_eq_eq le_refl not_le

theorem Ascending.fits (h : set.Ascending) (name : String) :
    Fits (fun m => compareOfLessAndEq m.name name) set.methods.toList := by
  refine List.Pairwise.imp (fun {a b} hab => ⟨fun hlt => ?_, fun hgt => ?_⟩) h
  · exact compare_name_lt.mpr (lt_trans hab (compare_name_lt.mp hlt))
  · exact compare_name_gt.mpr (lt_trans (compare_name_gt.mp hgt) hab)

/-! ### Where a name belongs -/

/-- The methods before a name, the one of that name, and those behind it. -/
structure Splits (set : MethodSet) (name : String) (before : List Method) (here : Option Method)
    (behind : List Method) : Prop where
  toList : set.toList = before ++ here.toList ++ behind
  before : ∀ m ∈ before, m.name < name
  here : ∀ m ∈ here, m.name = name
  behind : ∀ m ∈ behind, name < m.name

private theorem insertIdx_eq_take_append_drop {α : Type} (a : α) :
    ∀ (i : Nat) (as : List α), i ≤ as.length → as.insertIdx i a = as.take i ++ a :: as.drop i
  | 0, _, _ => rfl
  | i + 1, b :: as, h => by
    rw [List.insertIdx_succ_cons,
      insertIdx_eq_take_append_drop a i as (Nat.le_of_succ_le_succ h)]
    rfl

theorem exists_of_slot_found {i : Nat} (hslot : set.slot name = .found i) :
    ∃ m, set.toList[i]? = some m ∧ m.name = name := by
  obtain ⟨m, hm, horder⟩ := search_found hslot
  exact ⟨m, hm, compare_name_eq.mp horder⟩

theorem Ascending.of_slot_gap (h : set.Ascending) {i : Nat} (hslot : set.slot name = .gap i) :
    (∀ m ∈ set.toList.take i, m.name < name) ∧ (∀ m ∈ set.toList.drop i, name < m.name) ∧
      i ≤ set.size := by
  obtain ⟨hbefore, hbehind, hle⟩ := search_gap (h.fits name) hslot
  exact ⟨fun m hm => compare_name_lt.mp (hbefore m hm),
    fun m hm => compare_name_gt.mp (hbehind m hm), hle⟩

theorem Ascending.splits_of_found (h : set.Ascending) {i : Nat} (hslot : set.slot name = .found i) :
    ∃ before here behind, set.Splits name before (some here) behind ∧
      set.get? name = some here ∧ ∀ method : Method, method.name = name →
        (set.insert method).toList = before ++ method :: behind := by
  obtain ⟨m, hget, hname⟩ := exists_of_slot_found hslot
  obtain ⟨hlt, rfl⟩ := List.getElem?_eq_some_iff.mp hget
  have hlist : set.toList = set.toList.take i ++ set.toList[i] :: set.toList.drop (i + 1) := by
    rw [← List.drop_eq_getElem_cons hlt, List.take_append_drop]
  have hpair := h
  rw [Ascending, hlist, List.pairwise_append, List.pairwise_cons] at hpair
  obtain ⟨-, ⟨hbehind, -⟩, hbefore⟩ := hpair
  refine ⟨_, _, _, ⟨hlist.trans (List.append_cons _ _ _), fun a ha => ?_, fun a ha => ?_, fun a ha => ?_⟩,
    ?_, fun method hmethod => ?_⟩
  · exact hname ▸ hbefore a ha _ List.mem_cons_self
  · exact Option.some.inj ha ▸ hname
  · exact hname ▸ hbehind a ha
  · rw [get?, hslot, ← hget]
    simp [MethodSet.toList]
  · rw [insert, hmethod, hslot]
    have hset : (set.methods.setIfInBounds i method).toList = set.toList.set i method :=
      Array.toList_setIfInBounds
    exact hset.trans (by rw [List.set_eq_take_append_cons_drop, if_pos hlt])

theorem Ascending.splits_of_gap (h : set.Ascending) {i : Nat} (hslot : set.slot name = .gap i) :
    ∃ before behind, set.Splits name before none behind ∧ set.get? name = none ∧
      ∀ method : Method, method.name = name →
        (set.insert method).toList = before ++ method :: behind := by
  obtain ⟨hbefore, hbehind, hle⟩ := h.of_slot_gap hslot
  refine ⟨set.toList.take i, set.toList.drop i, ⟨by simp, hbefore, fun a ha => ?_, hbehind⟩, ?_,
    fun method hmethod => ?_⟩
  · cases ha
  · rw [get?, hslot]
  · have hinsert : (set.insert method).toList = set.toList.insertIdx i method := by
      have harray := List.insertIdxIfInBounds_toArray set.methods.toList i method
      rw [Array.toArray_toList] at harray
      rw [insert, hmethod, hslot]
      exact congrArg Array.toList harray
    rw [hinsert, insertIdx_eq_take_append_drop method i set.toList hle]

/-- A set in order is split at every name, a lookup gives the method there, and an added method
takes its place. -/
theorem Ascending.exists_splits (h : set.Ascending) (name : String) :
    ∃ before here behind, set.Splits name before here behind ∧ set.get? name = here ∧
      ∀ method : Method, method.name = name →
        (set.insert method).toList = before ++ method :: behind := by
  cases hslot : set.slot name with
  | found i =>
    obtain ⟨before, here, behind, hsplits⟩ := h.splits_of_found hslot
    exact ⟨before, some here, behind, hsplits⟩
  | gap i =>
    obtain ⟨before, behind, hsplits⟩ := h.splits_of_gap hslot
    exact ⟨before, none, behind, hsplits⟩

/-! ### Lookups -/

theorem Splits.mem_iff {before behind : List Method} {here : Option Method}
    (h : set.Splits name before here behind) :
    (m ∈ set.toList ∧ m.name = name ↔ here = some m) ∧
      (m ∈ set.toList ∧ m.name ≠ name ↔ m ∈ before ∨ m ∈ behind) := by
  have hmem : m ∈ set.toList ↔ m ∈ before ∨ here = some m ∨ m ∈ behind := by
    rw [h.toList]
    simp
  have hbefore : m ∈ before → m.name ≠ name := fun hm => ne_of_lt (h.before m hm)
  have hhere : here = some m → m.name = name := fun hm => h.here m hm
  have hbehind : m ∈ behind → m.name ≠ name := fun hm => (ne_of_lt (h.behind m hm)).symm
  rw [hmem]
  tauto

theorem Ascending.get?_eq_some_iff (h : set.Ascending) :
    set.get? name = some m ↔ m ∈ set.toList ∧ m.name = name := by
  obtain ⟨before, here, behind, hsplits, hget, -⟩ := h.exists_splits name
  rw [hget, hsplits.mem_iff.1]

theorem Ascending.mem_insert_iff (h : set.Ascending) :
    m ∈ (set.insert method).toList ↔ m = method ∨ m ∈ set.toList ∧ m.name ≠ method.name := by
  obtain ⟨before, here, behind, hsplits, -, hinsert⟩ := h.exists_splits method.name
  rw [hinsert method rfl, hsplits.mem_iff.2, List.mem_append, List.mem_cons]
  tauto

theorem Ascending.insert (h : set.Ascending) (method : Method) : (set.insert method).Ascending := by
  obtain ⟨before, here, behind, hsplits, -, hinsert⟩ := h.exists_splits method.name
  rw [Ascending, hsplits.toList, List.append_assoc, List.pairwise_append,
    List.pairwise_append] at h
  obtain ⟨hbefore, ⟨-, hbehind, -⟩, hacross⟩ := h
  rw [Ascending, hinsert method rfl, List.pairwise_append, List.pairwise_cons]
  refine ⟨hbefore, ⟨hsplits.behind, hbehind⟩, fun a ha b hb => ?_⟩
  rcases List.mem_cons.mp hb with rfl | hb
  · exact hsplits.before a ha
  · exact hacross a ha b (List.mem_append_right _ hb)

theorem Ascending.get?_insert (h : set.Ascending) (method : Method) (name : String) :
    (set.insert method).get? name = if method.name = name then some method else set.get? name := by
  ext m
  rw [(h.insert method).get?_eq_some_iff, h.mem_insert_iff]
  split
  · rename_i heq
    constructor
    · rintro ⟨rfl | ⟨-, hne⟩, hname⟩
      · rfl
      · exact absurd (hname.trans heq.symm) hne
    · rintro ⟨⟩
      exact ⟨.inl rfl, heq⟩
  · rename_i hne
    rw [h.get?_eq_some_iff]
    constructor
    · rintro ⟨rfl | ⟨hm, -⟩, hname⟩
      · exact absurd hname hne
      · exact ⟨hm, hname⟩
    · rintro ⟨hm, hname⟩
      exact ⟨.inr ⟨hm, fun heq => hne (heq.symm.trans hname)⟩, hname⟩

theorem Ascending.nodup_names (h : set.Ascending) : (set.toList.map (·.name)).Nodup :=
  List.pairwise_map.mpr (h.imp fun hlt => ne_of_lt hlt)

/-- Sets in order that give the same for each name are the same. -/
theorem Ascending.ext (h : set.Ascending) (hother : other.Ascending)
    (hget : ∀ name, set.get? name = other.get? name) : set = other := by
  have hmem : ∀ m, m ∈ set.toList ↔ m ∈ other.toList := fun m => by
    have hset : set.get? m.name = some m ↔ m ∈ set.toList ∧ m.name = m.name :=
      h.get?_eq_some_iff
    rw [hget, hother.get?_eq_some_iff] at hset
    simpa using hset.symm
  have hperm := (List.perm_ext_iff_of_nodup (h.nodup_names.of_map _)
    (hother.nodup_names.of_map _)).mpr hmem
  have hlist : set.toList = other.toList :=
    hperm.eq_of_pairwise (fun a b _ _ hab hba => absurd hba (lt_asymm hab)) h hother
  obtain ⟨methods⟩ := set
  obtain ⟨others⟩ := other
  exact congrArg MethodSet.mk (Array.toList_inj.mp hlist)

/-! ### Sets made of lists -/

/-- The set of some methods, the later of two with the same name. -/
def ofList (methods : List Method) : MethodSet :=
  methods.foldl .insert .empty

@[simp] theorem ofList_append_singleton (methods : List Method) (method : Method) :
    ofList (methods ++ [method]) = (ofList methods).insert method :=
  List.foldl_concat ..

@[simp] theorem get?_empty (name : String) : empty.get? name = none := by
  refine Option.eq_none_iff_forall_ne_some.mpr fun m hm => ?_
  cases (ascending_empty.get?_eq_some_iff.mp hm).1

theorem ascending_ofList (methods : List Method) : (ofList methods).Ascending := by
  induction methods using List.reverseRecOn with
  | nil => exact ascending_empty
  | append_singleton methods method ih =>
    rw [ofList_append_singleton]
    exact ih.insert method

theorem get?_ofList (methods : List Method) (name : String) :
    (ofList methods).get? name = (methods.filter (·.name == name)).getLast? := by
  induction methods using List.reverseRecOn with
  | nil => exact get?_empty name
  | append_singleton methods method ih =>
    rw [ofList_append_singleton, (ascending_ofList methods).get?_insert, ih, List.filter_append]
    by_cases h : method.name = name
    · simp [h]
    · simp [h]

private theorem get?_ofList_eq_some_iff {methods : List Method}
    (hnodup : (methods.map (·.name)).Nodup) :
    (ofList methods).get? name = some m ↔ m ∈ methods ∧ m.name = name := by
  have hmem : ∀ a, a ∈ methods.filter (·.name == name) ↔ a ∈ methods ∧ a.name = name := by simp
  rw [get?_ofList]
  constructor
  · exact fun h => (hmem m).mp (List.mem_of_mem_getLast? h)
  · intro h
    obtain ⟨last, hlast⟩ : ∃ last, (methods.filter (·.name == name)).getLast? = some last :=
      ⟨_, List.getLast?_eq_some_getLast (List.ne_nil_of_mem ((hmem m).mpr h))⟩
    have hfound := (hmem last).mp (List.mem_of_mem_getLast? hlast)
    have heq := List.inj_on_of_nodup_map hnodup hfound.1 h.1 (hfound.2.trans h.2.symm)
    rw [hlast, heq]

theorem ofList_eq_of_perm {methods others : List Method} (hperm : methods.Perm others)
    (hnodup : (methods.map (·.name)).Nodup) : ofList methods = ofList others := by
  refine (ascending_ofList methods).ext (ascending_ofList others) fun name => ?_
  have hothers : (others.map (·.name)).Nodup := (hperm.map _).nodup_iff.mp hnodup
  ext m
  rw [get?_ofList_eq_some_iff hnodup, get?_ofList_eq_some_iff hothers, hperm.mem_iff]

end MethodSet

/-! ### Methods of a package -/

def methodsOfBase (entries : List (String × Method)) (base : String) : List Method :=
  (entries.filter (·.1 == base)).map (·.2)

@[simp] theorem methodsOfBase_append (entries others : List (String × Method)) (base : String) :
    methodsOfBase (entries ++ others) base =
      methodsOfBase entries base ++ methodsOfBase others base := by
  rw [methodsOfBase, List.filter_append, List.map_append]
  rfl

private theorem methodsOfBase_eq_nil {entries : List (String × Method)} {base : String}
    (h : base ∉ entries.map (·.1)) : methodsOfBase entries base = [] := by
  rw [methodsOfBase, List.map_eq_nil_iff, List.filter_eq_nil_iff]
  intro entry hentry hbase
  exact h (List.mem_map.mpr ⟨entry, hentry, by simpa using hbase⟩)

theorem nodup_methodsOfBase {entries : List (String × Method)} (base : String)
    (h : (entries.map fun entry => (entry.1, entry.2.name)).Nodup) :
    ((methodsOfBase entries base).map (·.name)).Nodup := by
  have hsub := ((entries.filter_sublist (p := (·.1 == base))).map
    fun entry => (entry.1, entry.2.name)).nodup h
  have hpairs : (entries.filter (·.1 == base)).map (fun entry => (entry.1, entry.2.name)) =
      ((methodsOfBase entries base).map (·.name)).map fun name => (base, name) := by
    rw [methodsOfBase, List.map_map, List.map_map]
    refine List.map_congr_left fun entry hentry => ?_
    simpa using (List.mem_filter.mp hentry).2
  exact List.Nodup.of_map _ (hpairs ▸ hsub)

namespace FactTable

variable {facts : FactTable} {package : Option String} {declared : List String}
  {entries : List (String × Method)} {base other : String}

@[simp] theorem types_updateMethods (facts : FactTable) (type : GoType)
    (update : MethodSet → MethodSet) : (facts.updateMethods type update).types = facts.types := by
  unfold updateMethods
  split <;> rfl

theorem types_foldl_recordMethod (package : Option String) (entries : List (String × Method))
    (facts : FactTable) :
    (entries.foldl (fun facts (base, method) => facts.recordMethod (.named package base) method)
      facts).types = facts.types := by
  induction entries generalizing facts with
  | nil => rfl
  | cons entry entries ih =>
    rw [List.foldl_cons, ih]
    exact types_updateMethods facts _ _

/-- The types of a package that a table knows are those declared and those with methods, and
each has the methods of the entries. -/
def Holds (facts : FactTable) (package : Option String) (declared : List String)
    (entries : List (String × Method)) : Prop :=
  ∀ base, facts.methodSet? (.named package base) =
    if base ∈ declared ∨ base ∈ entries.map (·.1) then
      some (.ofList (methodsOfBase entries base))
    else
      none

/-- What is changed under the key of one type is seen under the same key, and under no other. -/
theorem methodSet?_updateMethods_of_key {type other : GoType} {update : MethodSet → MethodSet}
    {key : String} (hkey : other.methodSetKey? = some key) :
    (facts.updateMethods type update).methodSet? other =
      if type.methodSetKey? = some key then some (update ((facts.methodSet? other).getD .empty))
      else facts.methodSet? other := by
  cases hsubject : type.methodSetKey? with
  | none => simp [updateMethods, hsubject]
  | some subject =>
    simp only [methodSet?, updateMethods, hsubject, hkey, Option.bind_some, Option.some.injEq,
      Std.TreeMap.getElem?_insert, Std.compare_eq_iff_eq, Std.TreeMap.getD_eq_getD_getElem?]
    split
    · rename_i heq
      rw [heq]
    · rfl

private theorem methodSetKey?_named_inj (package : Option String) (base other : String) :
    (GoType.named package base).methodSetKey? = (GoType.named package other).methodSetKey? ↔
      base = other := by
  cases package with
  | none => simp [GoType.methodSetKey?, GoType.stripPointers]
  | some path => simp [GoType.methodSetKey?, GoType.stripPointers, String.append_right_inj]

private theorem methodSet?_updateMethods (facts : FactTable) (package : Option String)
    (base other : String) (update : MethodSet → MethodSet) :
    (facts.updateMethods (.named package base) update).methodSet? (.named package other) =
      if base = other then
        some (update ((facts.methodSet? (.named package base)).getD .empty))
      else
        facts.methodSet? (.named package other) := by
  obtain ⟨key, hkey⟩ : ∃ key, (GoType.named package other).methodSetKey? = some key := by
    cases package with
    | none => exact ⟨other, rfl⟩
    | some path => exact ⟨path ++ "." ++ other, rfl⟩
  have hinj : (GoType.named package base).methodSetKey? = some key ↔ base = other := by
    rw [← hkey, methodSetKey?_named_inj]
  simp only [methodSet?_updateMethods_of_key hkey, hinj]
  split
  · rename_i heq
    rw [heq]
  · rfl

theorem holds_nil (h : facts.methodSets = ∅) (package : Option String) :
    facts.Holds package [] [] := by
  intro base
  simp [methodSet?, h]

theorem Holds.getD (h : facts.Holds package declared entries) (base : String) :
    (facts.methodSet? (.named package base)).getD .empty = .ofList (methodsOfBase entries base) := by
  rw [h base]
  split
  · rfl
  · rename_i hunknown
    rw [methodsOfBase_eq_nil fun hmem => hunknown (.inr hmem)]
    rfl

theorem Holds.declareType (h : facts.Holds package declared entries) (base : String) :
    (facts.declareType (.named package base)).Holds package (declared ++ [base]) entries := by
  intro other
  rw [FactTable.declareType, methodSet?_updateMethods, h.getD]
  by_cases heq : base = other
  · subst heq
    simp
  · rw [if_neg heq, h other]
    simp only [List.mem_append, List.mem_singleton, Ne.symm heq, or_false]

theorem Holds.recordMethod (h : facts.Holds package declared entries) (base : String)
    (method : Method) :
    (facts.recordMethod (.named package base) method).Holds package declared
      (entries ++ [(base, method)]) := by
  intro other
  rw [FactTable.recordMethod, methodSet?_updateMethods, h.getD, methodsOfBase_append,
    List.map_append]
  by_cases heq : base = other
  · subst heq
    have hone : methodsOfBase [(base, method)] base = [method] := by simp [methodsOfBase]
    rw [if_pos rfl, if_pos (by simp), hone, MethodSet.ofList_append_singleton]
  · have hnone : methodsOfBase [(base, method)] other = [] :=
      methodsOfBase_eq_nil (by simpa using Ne.symm heq)
    rw [if_neg heq, h other, hnone, List.append_nil]
    simp only [List.map_cons, List.map_nil, List.mem_append, List.mem_singleton, Ne.symm heq,
      or_false]

theorem Holds.foldl_recordMethod (h : facts.Holds package declared entries)
    (more : List (String × Method)) :
    (more.foldl (fun facts (base, method) => facts.recordMethod (.named package base) method)
      facts).Holds package declared (entries ++ more) := by
  induction more generalizing facts entries with
  | nil => simpa using h
  | cons entry more ih => simpa using ih (h.recordMethod entry.1 entry.2)

end FactTable

end Lintel
