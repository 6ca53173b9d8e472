import Lintel.Proofs.Facts.Methods
import Lintel.Proofs.Text.ByteOrder
import Mathlib.Data.Finset.Card

/-!
# Methods added one after another

A set that methods are added to, in any order and with any names, keeps the last method of each
name. It holds them in the order of the bytes of their names, so that the search for a name always
finds its method, or the place where one belongs. As nothing else is kept, two sequences give the
same set if and only if they have the same last methods.
-/

namespace Lintel

namespace MethodSet

variable {set : MethodSet} {methods others : List Method} {m : Method} {name : String}

/-! ### Last methods -/

/-- A method that is added, and no other of its name after it. -/
def IsLast (methods : List Method) (m : Method) : Prop :=
  ∃ before behind, methods = before ++ m :: behind ∧ ∀ a ∈ behind, a.name ≠ m.name

private theorem getLast?_filter_eq_some_iff {α : Type} {p : α → Bool} {entries : List α} {a : α} :
    (entries.filter p).getLast? = some a ↔ p a = true ∧
      ∃ before behind, entries = before ++ a :: behind ∧ ∀ b ∈ behind, p b = false := by
  rw [List.getLast?_filter, List.find?_eq_some_iff_append]
  refine and_congr_right fun _ => ⟨?_, ?_⟩
  · rintro ⟨behind, before, hlist, hbehind⟩
    refine ⟨before.reverse, behind.reverse, ?_, fun b hb => ?_⟩
    · rw [← List.reverse_reverse entries, hlist]
      simp
    · simpa using hbehind b (List.mem_reverse.mp hb)
  · rintro ⟨before, behind, rfl, hbehind⟩
    exact ⟨behind.reverse, before.reverse, by simp, by simpa using hbehind⟩

private theorem get?_ofList_eq_some_iff_isLast :
    (ofList methods).get? name = some m ↔ IsLast methods m ∧ m.name = name := by
  rw [get?_ofList, getLast?_filter_eq_some_iff, beq_iff_eq, and_comm]
  refine and_congr_left fun hname => ?_
  subst hname
  simp only [IsLast, beq_eq_false_iff_ne]

private theorem get?_ofList_eq_none_iff :
    (ofList methods).get? name = none ↔ name ∉ methods.map (·.name) := by
  simp [get?_ofList]

/-- Sets are the same if and only if what was added last is the same for each name. -/
theorem ofList_eq_ofList_iff :
    ofList methods = ofList others ↔ ∀ m, IsLast methods m ↔ IsLast others m := by
  have hlast : ∀ added m, (ofList added).get? m.name = some m ↔ IsLast added m := fun added m => by
    rw [get?_ofList_eq_some_iff_isLast, and_iff_left rfl]
  constructor
  · intro h m
    rw [← hlast, h, hlast]
  · intro h
    refine (ascending_ofList methods).ext (ascending_ofList others) fun name => ?_
    ext m
    rw [get?_ofList_eq_some_iff_isLast, get?_ofList_eq_some_iff_isLast, h]

/-! ### Names in order -/

private theorem ascending_iff_bytes : set.Ascending ↔
    set.toList.Pairwise fun a b => Text.bytes a.name < Text.bytes b.name := by
  simp only [Ascending, Text.bytes_lt_bytes_iff]

theorem Ascending.mem_names_iff (h : set.Ascending) :
    name ∈ set.toList.map (·.name) ↔ set.get? name ≠ none := by
  simp only [List.mem_map, Option.ne_none_iff_exists', h.get?_eq_some_iff]

/-- A set has as many methods as there are names among those added. -/
theorem size_ofList (methods : List Method) :
    (ofList methods).size = (methods.map (·.name)).toFinset.card := by
  have hascending := ascending_ofList methods
  have hnames : ((ofList methods).toList.map (·.name)).toFinset =
      (methods.map (·.name)).toFinset := by
    refine List.toFinset.ext fun name => ?_
    rw [hascending.mem_names_iff, Ne, get?_ofList_eq_none_iff, not_not]
  rw [← hnames, List.toFinset_card_of_nodup hascending.nodup_names, List.length_map]
  rfl

/-! ### The search for a name -/

/-- What a search for a name should say: where its method is, or a gap with the smaller names
before it and the greater ones behind it. -/
inductive RightSlot (set : MethodSet) (name : String) : Slot → Prop
  | found (i : Nat) (m : Method) (here : set.toList[i]? = some m) (same : m.name = name) :
    RightSlot set name (.found i)
  | gap (i : Nat) (bound : i ≤ set.size)
    (before : ∀ m ∈ set.toList.take i, Text.bytes m.name < Text.bytes name)
    (behind : ∀ m ∈ set.toList.drop i, Text.bytes name < Text.bytes m.name) :
    RightSlot set name (.gap i)

theorem Ascending.rightSlot (h : set.Ascending) (name : String) :
    set.RightSlot name (set.slot name) := by
  cases hslot : set.slot name with
  | found i =>
    obtain ⟨m, hm, hname⟩ := exists_of_slot_found hslot
    exact .found i m hm hname
  | gap i =>
    obtain ⟨hbefore, hbehind, hle⟩ := h.of_slot_gap hslot
    exact .gap i hle (fun m hm => Text.bytes_lt_bytes (hbefore m hm))
      fun m hm => Text.bytes_lt_bytes (hbehind m hm)

/-- A set to which some methods are added has them in the order of the bytes of their names, each
name once, so that every search in it is right. It gives the last method of each name, and nothing
for a name that none of them has. So there are as many methods in it as there are names, and what
is added in another order gives the same set if and only if the last receiver of each name is the
same. -/
theorem ofList_keeps_last (methods : List Method) :
    ((ofList methods).toList.Pairwise fun a b => Text.bytes a.name < Text.bytes b.name) ∧
    (∀ name, (ofList methods).RightSlot name ((ofList methods).slot name)) ∧
    (∀ name m, (ofList methods).get? name = some m ↔ IsLast methods m ∧ m.name = name) ∧
    (∀ name, (ofList methods).get? name = none ↔ name ∉ methods.map (·.name)) ∧
    (ofList methods).size = (methods.map (·.name)).toFinset.card ∧
    ∀ others, ofList methods = ofList others ↔
      ∀ name receiver, IsLast methods ⟨name, receiver⟩ ↔ IsLast others ⟨name, receiver⟩ := by
  have hascending := ascending_ofList methods
  refine ⟨ascending_iff_bytes.mp hascending, hascending.rightSlot, fun name m => ?_, fun name => ?_,
    size_ofList methods, fun others => ?_⟩
  · exact get?_ofList_eq_some_iff_isLast
  · exact get?_ofList_eq_none_iff
  · exact ofList_eq_ofList_iff.trans ⟨fun h name receiver => h ⟨name, receiver⟩, fun h m => h _ _⟩

/-- The method of a name is replaced, and the methods stay in order. -/
example : (ofList [⟨"Validate", .value⟩, ⟨"BeginTx", .value⟩, ⟨"Create", .value⟩,
    ⟨"Validate", .pointer⟩]).toList =
      [⟨"BeginTx", .value⟩, ⟨"Create", .value⟩, ⟨"Validate", .pointer⟩] := by cbv

end MethodSet

end Lintel
