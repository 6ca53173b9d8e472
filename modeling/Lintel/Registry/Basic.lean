import Lintel.Rule.Basic
import Lintel.Text.Quoted

/-!
# The rule registry and its graph

Rules name the rules that must run before them. A registry builds a graph if the
names are distinct, every prerequisite is registered and no rule comes before
itself. The graph then has an order in which every rule follows its prerequisites
and, among those free to run, the one declared first is taken. To find it, each rule
counts the prerequisites it still misses.
-/

namespace Lintel

variable {ρ : Type}

inductive GraphError where
  | cycle (path : List String)
  | unknownDependency (rule dependency : String)
  | duplicateRule (rule : String)
  deriving DecidableEq, Repr

def GraphError.message : GraphError → String
  | .cycle path => "dependency cycle between rules: " ++ Text.join " -> " path
  | .unknownDependency rule dependency =>
    "rule `" ++ rule ++ "` requires unknown rule `" ++ dependency ++ "`"
  | .duplicateRule rule => "rule `" ++ rule ++ "` is registered more than once"

/-! ### Order -/

/-- Work on an order: how many prerequisites of each rule are not placed yet, counted as
often as they are named, the rules that miss none, in ascending order, and the rules
placed so far. -/
structure Agenda where
  missing : Array Nat
  ready : List Nat
  placed : List Nat

/-- Puts a place in its position among others in ascending order. -/
def enqueue (place : Nat) : List Nat → List Nat
  | [] => [place]
  | first :: rest =>
    if place ≤ first then place :: first :: rest else first :: enqueue place rest

/-- The rules that name a rule as their prerequisite, each as often as it does. -/
def dependents (deps : Array (List Nat)) (place : Nat) : List Nat :=
  (List.range deps.size).flatMap fun i => List.replicate ((deps.getD i []).count place) i

namespace Agenda

def start (deps : Array (List Nat)) : Agenda where
  missing := deps.map (·.length)
  ready := (List.range deps.size).filter fun i => (deps.getD i []).isEmpty
  placed := []

/-- Counts one prerequisite of a rule as placed; the last one makes the rule ready. -/
def release (a : Agenda) (place : Nat) : Agenda :=
  let left := a.missing.getD place 0 - 1
  { a with
    missing := a.missing.setIfInBounds place left
    ready := if left = 0 then enqueue place a.ready else a.ready }

/-- Places the lowest ready rule, if there is one. -/
def advance (deps : Array (List Nat)) (a : Agenda) : Agenda :=
  match a.ready with
  | [] => a
  | place :: rest =>
    (dependents deps place).foldl release { a with ready := rest, placed := a.placed ++ [place] }

end Agenda

/-- The order in which rules run, as far as there is one. Every step places a rule, so
that as many steps as there are rules suffice. -/
def runOrder (deps : Array (List Nat)) : List Nat :=
  (deps.size.repeat (Agenda.advance deps) (.start deps)).placed

/-- Follows the first unplaced prerequisite of each rule until one comes back. -/
def chase (deps : Array (List Nat)) (placed : List Nat) : Nat → List Nat → Nat → List Nat
  | 0, path, current => path ++ [current]
  | steps + 1, path, current =>
    let here := path ++ [current]
    match (deps.getD current []).find? fun d => !placed.contains d with
    | none => here
    | some next =>
      if here.contains next then
        here.dropWhile (· != next) ++ [next]
      else
        chase deps placed steps here next

def findCycle (deps : Array (List Nat)) (placed : List Nat) : List Nat :=
  match (List.range deps.size).find? fun i => !placed.contains i with
  | none => []
  | some start => chase deps placed deps.size [] start

/-! ### Registries -/

/-- Rules in the order of their declaration. -/
abbrev Registry (ρ : Type) := List (Rule ρ)

/-- The graph of a registry: prerequisites by place, and the order of execution. -/
structure PassGraph (ρ : Type) where
  rules : Array (Rule ρ)
  deps : Array (List Nat)
  order : List Nat

namespace Registry

def names (r : Registry ρ) : List String :=
  r.map (·.name)

/-- The first name that was registered before. -/
def firstDuplicate : List String → List String → Option String
  | _, [] => none
  | seen, name :: rest =>
    if seen.contains name then some name else firstDuplicate (seen ++ [name]) rest

def dependencies (names : List String) (rule : Rule ρ) : Except GraphError (List Nat) :=
  rule.requires.mapM fun dependency =>
    match names.idxOf? dependency with
    | some i => .ok i
    | none => .error (.unknownDependency rule.name dependency)

/-- Builds the graph of a registry. A repeated name is found before an unknown
prerequisite, and that before a cycle. -/
def build (r : Registry ρ) : Except GraphError (PassGraph ρ) :=
  match firstDuplicate [] r.names with
  | some name => .error (.duplicateRule name)
  | none =>
    match r.mapM (dependencies r.names) with
    | .error e => .error e
    | .ok lists =>
      let deps := lists.toArray
      let order := runOrder deps
      if order.length = deps.size then
        .ok ⟨r.toArray, deps, order⟩
      else
        .error (.cycle ((findCycle deps order).filterMap fun i => r.names[i]?))

/-- The prerequisites of a name; of two rules with one name the later counts. -/
def requiresOf (r : Registry ρ) (name : String) : List String :=
  match r.reverse.find? fun rule => rule.name == name with
  | some rule => rule.requires
  | none => []

theorem requiresOf_eq_nil {r : Registry ρ} {name : String} (h : name ∉ r.names) :
    r.requiresOf name = [] := by
  unfold requiresOf
  split
  · rename_i rule hrule
    have hname : rule.name = name := by simpa using List.find?_some hrule
    have hmem := List.mem_reverse.mp (List.mem_of_find?_eq_some hrule)
    exact absurd (hname ▸ List.mem_map_of_mem hmem) h
  · rfl

def unkept (r : Registry ρ) (keep : List String) : List String :=
  r.names.filter fun name => !keep.contains name

@[simp] private theorem unkept_cons (r : Registry ρ) (name : String) (keep : List String) :
    r.unkept (name :: keep) = (r.unkept keep).filter (· != name) := by
  rw [unkept, unkept, List.filter_filter]
  exact List.filter_congr fun other _ => by rw [List.contains_cons, Bool.not_or, bne]

/-- Takes pending names until none is left. One that is not kept yet is kept, and what its rule
requires is put on top of the others. -/
def keepPending (r : Registry ρ) (keep : List String) : List String → List String
  | [] => keep
  | name :: pending =>
    if keep.contains name then
      r.keepPending keep pending
    else
      r.keepPending (name :: keep) ((r.requiresOf name).reverse ++ pending)
termination_by pending => ((r.unkept keep).length, pending.length)
decreasing_by
  · exact Prod.Lex.right _ (Nat.lt_succ_self _)
  · rename_i hnew
    rw [unkept_cons]
    by_cases hknown : name ∈ r.names
    · refine Prod.Lex.left _ _ (List.length_filter_lt_length_iff_exists.mpr ⟨name, ?_, by simp⟩)
      exact List.mem_filter.mpr ⟨hknown, by simpa using hnew⟩
    · -- nothing is required by the name of no rule, so only the stack gets shorter
      rw [requiresOf_eq_nil hknown, List.filter_eq_self.mpr fun other hother => ?_]
      · exact Prod.Lex.right _ (Nat.lt_succ_self _)
      · exact bne_iff_ne.mpr fun heq => hknown (heq ▸ (List.mem_filter.mp hother).1)

/-- Keeps the named rules and all that they need, and returns the names of no rule. -/
def retainWithPrerequisites (r : Registry ρ) (requested : List String) :
    Registry ρ × List String :=
  let (known, unknown) := requested.partition r.names.contains
  let keep := r.keepPending [] known.reverse
  (r.filter fun rule => keep.contains rule.name, unknown)

end Registry

/-- A rule to run, by place; a silent one runs for its result only. -/
structure Scheduled where
  index : Nat
  silent : Bool
  deriving DecidableEq, Repr

namespace PassGraph

def size (g : PassGraph ρ) : Nat :=
  g.rules.size

def nameAt (g : PassGraph ρ) (i : Nat) : String :=
  (g.rules[i]?.map (·.name)).getD ""

def declaredNames (g : PassGraph ρ) : List String :=
  g.rules.toList.map (·.name)

def orderedNames (g : PassGraph ρ) : List String :=
  g.order.map g.nameAt

/-- Marks a place that is not marked yet, and puts it on top of the pending ones. -/
def demand (work : Array Bool × List Nat) (place : Nat) : Array Bool × List Nat :=
  if work.1.getD place true then work else (work.1.setIfInBounds place true, place :: work.2)

private theorem count_demand (work : Array Bool × List Nat) (place : Nat) :
    (demand work place).1.count false + (demand work place).2.length =
      work.1.count false + work.2.length := by
  unfold demand
  split
  · rfl
  · rename_i hnew
    have hlt : place < work.1.size := Nat.lt_of_not_le fun hle => hnew (by simp [hle])
    have hfalse : work.1[place] = false := by simpa [hlt] using hnew
    have hpos : 0 < work.1.count false := Array.count_pos_iff.mpr (hfalse ▸ Array.getElem_mem hlt)
    simp only [Array.setIfInBounds, hlt, dif_pos, Array.count_set, hfalse, List.length_cons]
    simp
    omega

private theorem count_foldl_demand (places : List Nat) (work : Array Bool × List Nat) :
    (places.foldl demand work).1.count false + (places.foldl demand work).2.length =
      work.1.count false + work.2.length := by
  induction places generalizing work with
  | nil => rfl
  | cons place places ih => rw [List.foldl_cons, ih, count_demand]

/-- Takes pending places until none is left, and marks the prerequisites of each. -/
def markNeeded (deps : Array (List Nat)) (needed : Array Bool) : List Nat → Array Bool
  | [] => needed
  | place :: pending =>
    let work := (deps.getD place []).foldl demand (needed, pending)
    markNeeded deps work.1 work.2
termination_by pending => needed.count false + pending.length
decreasing_by
  rw [count_foldl_demand]
  exact Nat.lt_succ_self _

/-- The rules to run for a choice of enabled names: those, and what they need. -/
def schedule (g : PassGraph ρ) (enabled : String → Bool) : List Scheduled :=
  let active := g.rules.map fun rule => enabled rule.name
  let pending := (List.range g.rules.size).filter fun i => active.getD i false
  let needed := markNeeded g.deps active pending.reverse
  (g.order.filter fun i => needed.getD i false).map fun i => ⟨i, !active.getD i false⟩

/-- The names in the order of execution, written as a list. -/
def display (g : PassGraph ρ) : String :=
  Text.quotedList g.orderedNames

end PassGraph

end Lintel
