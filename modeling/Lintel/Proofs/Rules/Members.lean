import Lintel.Proofs.Rules.Questions
import Lintel.Rules.Style

/-!
# Members of field lists

An entry of a field list declares a member for every name, and one member without a name if there
is none. How many members a list has, which types they have and which nodes name them are
questions about the list. On a tree whose kinds name lower nodes only all of them are answered, as
are those about the results and the body of a function.
-/

namespace Lintel.Tree

/-- The members that an entry declares, each with the node that names it and with its type. A member
without a name is known by its type. -/
def declaredBy (t : Tree) (entry : Nat) : List (Nat × Nat) :=
  match t.kind entry with
  | .field [] type _ => [(type, type)]
  | .field names type _ => names.map (·, type)
  | _ => []

/-- The members of a list, in order. -/
def members (t : Tree) (list : Nat) : List (Nat × Nat) :=
  (t.children list).flatMap t.declaredBy

/-- The members of a list that may be missing. -/
def membersOf (t : Tree) (list : Option Nat) : List (Nat × Nat) :=
  list.toList.flatMap t.members

def results (t : Tree) (func : Nat) : List (Nat × Nat) :=
  t.membersOf ((t.funcParts? func).bind (·.results))

variable {t : Tree}

@[simp] theorem membersOf_some (t : Tree) (list : Nat) : t.membersOf (some list) = t.members list :=
  List.flatMap_singleton _ _

/-! ### Counts -/

private theorem length_declaredBy (t : Tree) (entry : Nat) :
    (t.declaredBy entry).length = t.fieldWeight entry := by
  unfold declaredBy fieldWeight
  cases t.kind entry with
  | field names type tag => cases names <;> simp
  | _ => rfl

/-- The fields of a list are counted one for each member. -/
theorem fieldCount_eq (t : Tree) (list : Option Nat) :
    t.fieldCount list = (t.membersOf list).length := by
  cases list with
  | none => rfl
  | some list =>
    rw [membersOf_some, members, fieldCount]
    induction t.children list with
    | nil => rfl
    | cons entry entries ih =>
      rw [List.map_cons, total, List.flatMap_cons, List.length_append, length_declaredBy, ih]

/-! ### Types and names -/

theorem Grounded.fieldTypes_eq (h : t.Grounded) (list : Option Nat) :
    t.fieldTypes list = .ok ((t.membersOf list).map (·.2)) := by
  cases list with
  | none => rfl
  | some list =>
    rw [membersOf_some, members, List.map_flatMap, fieldTypes]
    refine gather_eq_ok_flatMap fun entry _ => ?_
    rw [← length_declaredBy]
    unfold declaredBy
    cases hkind : t.kind entry with
    | field names type tag =>
      have htype : t.follow type = .ok type := h.follow entry (by simp [hkind, NodeKind.refs])
      simp only [htype, bind, Except.bind, pure, Except.pure]
      cases names with
      | nil => rfl
      | cons name names => simp [List.replicate_succ, Function.comp_def]
    | _ => rfl

/-- The nodes that name the members of an entry. -/
theorem Grounded.fieldNameNodes_eq (h : t.Grounded) (entry : Nat) :
    fieldNameNodes t entry = .ok ((t.declaredBy entry).map (·.1)) := by
  unfold fieldNameNodes declaredBy
  cases hkind : t.kind entry with
  | field names type tag =>
    cases names with
    | nil =>
      have htype : t.follow type = .ok type := h.follow entry (by simp [hkind, NodeKind.refs])
      simp [htype, bind, Except.bind, pure, Except.pure]
    | cons name names =>
      have hnames : (name :: names).mapM t.follow = .ok (name :: names) := by
        apply h.followAll_eq entry
        rw [hkind]
        exact List.subset_append_left _ _
      simpa [Function.comp_def] using hnames
  | _ => rfl

/-! ### Functions -/

theorem Grounded.followOption_eq (h : t.Grounded) (id : Nat) {ref : Option Nat}
    (hrefs : ∀ r ∈ ref, r ∈ (t.kind id).refs) : t.followOption ref = .ok ref := by
  cases ref with
  | none => rfl
  | some r =>
    have hfollow : t.follow r = .ok r := h.follow id (hrefs r rfl)
    simp [followOption, hfollow, bind, Except.bind, pure, Except.pure]

theorem Grounded.resultTypes_eq (h : t.Grounded) (func : Nat) :
    t.resultTypes func = .ok ((t.results func).map (·.2)) := by
  have hlist : t.followOption ((t.funcParts? func).bind (·.results)) =
      .ok ((t.funcParts? func).bind (·.results)) := by
    refine h.followOption_eq func fun list hlist => ?_
    obtain ⟨parts, hparts, hlist⟩ := Option.bind_eq_some_iff.mp hlist
    exact refs_subset_of_funcParts? hparts (by simp [FuncParts.refs, hlist])
  rw [resultTypes, hlist]
  exact h.fieldTypes_eq _

theorem Grounded.body?_eq (h : t.Grounded) (func : Nat) :
    t.body? func = .ok ((t.funcParts? func).bind (·.body)) := by
  refine h.followOption_eq func fun body hbody => ?_
  obtain ⟨parts, hparts, hbody⟩ := Option.bind_eq_some_iff.mp hbody
  exact refs_subset_of_funcParts? hparts (by simp [FuncParts.refs, hbody])

end Lintel.Tree
