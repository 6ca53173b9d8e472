import Lintel.Proofs.Rules.Questions
import Lintel.Proofs.Text.Chars
import Lintel.Proofs.Tree.Order
import Lintel.Rules.Entities

/-!
# What is asked of tasks

All that is asked of the fields of tasks is whether a name is an old one and whether the value of
a time is a number. The questions come from composite literals, selectors and assignments, in the
order of a walk through the file, and what is reported are the answers in this order.
-/

namespace Lintel

open Lintel.Text

/-- The type that is recorded of a node is named, and its name, behind pointers, ends in `Task`. -/
def IsTaskTyped (facts : FactTable) (owner : Nat) : Prop :=
  ∃ type package stem, facts.typeOf? owner = some type ∧
    type.stripPointers = .named package (stem ++ "Task")

theorem isTask_iff {facts : FactTable} {owner : Nat} : facts.isTask owner = true ↔ IsTaskTyped facts owner := by
  simp only [FactTable.isTask, Option.any_eq_true, Option.bind_eq_some_iff, IsTaskTyped]
  constructor
  · rintro ⟨name, ⟨type, htype, hname⟩, hends⟩
    unfold GoType.name? at hname
    split at hname
    · rename_i package found hstrip
      obtain rfl := Option.some.inj hname
      obtain ⟨stem, rfl⟩ := endsWith_iff.mp hends
      exact ⟨type, package, stem, htype, hstrip⟩
    · cases hname
  · rintro ⟨type, package, stem, htype, hstrip⟩
    refine ⟨stem ++ "Task", ⟨type, htype, ?_⟩, endsWith_iff.mpr ⟨stem, rfl⟩⟩
    rw [GoType.name?, hstrip]

/-- What is asked of a field of a task: whether its name is an old one, or whether the value that
it gets is a number if it holds a time. -/
inductive TaskQuestion where
  | name (field : Nat)
  | time (field value : Nat)
  deriving DecidableEq

def TaskQuestion.answer (pass : Pass Published) : TaskQuestion → Check (List Diagnostic)
  | .name field => checkRename pass field
  | .time field value => checkTime pass field value

def elementQuestions (t : Tree) (element : Nat) : List TaskQuestion :=
  match t.kind element with
  | .keyValue key value => [.name key, .time key value]
  | _ => []

def targetQuestions (t : Tree) (facts : FactTable) (target value : Nat) : List TaskQuestion :=
  match t.kind target with
  | .selectorExpr operand field => if facts.isTask operand then [.time field value] else []
  | _ => []

def questionsAt (t : Tree) (facts : FactTable) (id : Nat) : List TaskQuestion :=
  match t.kind id with
  | .compositeLit _ elements => if facts.isTask id then elements.flatMap (elementQuestions t) else []
  | .selectorExpr operand field => if facts.isTask operand then [.name field] else []
  | .assignStmt targets values _ =>
    if targets.length == values.length then
      (targets.zip values).flatMap fun p => targetQuestions t facts p.1 p.2
    else []
  | _ => []

/-- What the nodes of a file add to a list, in the order of a walk, is what some node adds, if files
themselves add nothing. -/
theorem Tree.mem_flatMap_preorder_iff {α : Type} {t : Tree} {f : Nat → List α} {a : α}
    (hfile : ∀ id, t.kind id = .file → f id = []) :
    a ∈ (t.preorder t.root).flatMap f ↔ ∃ id, a ∈ f id := by
  rw [List.mem_flatMap]
  refine ⟨fun ⟨id, _, ha⟩ => ⟨id, ha⟩, fun ⟨id, ha⟩ => ⟨id, ?_, ha⟩⟩
  refine t.preorder_root_perm.mem_iff.mpr (List.mem_range.mpr (Nat.lt_of_not_le fun hle => ?_))
  rw [hfile id (Tree.kind_eq_file_of_size_le hle)] at ha
  cases ha

def taskQuestions (t : Tree) (facts : FactTable) : List TaskQuestion :=
  (t.preorder t.root).flatMap (questionsAt t facts)

section Questions

variable {pass : Pass Published} (h : pass.tree.Grounded)

include h

private theorem checkElement_eq (id : Nat) {element : Nat}
    (helement : element ∈ (pass.tree.kind id).refs) :
    checkElement pass element =
      gather (TaskQuestion.answer pass) (elementQuestions pass.tree element) := by
  unfold checkElement elementQuestions
  dsimp only
  rw [h.follow id helement]
  cases hkind : pass.tree.kind element with
  | keyValue key value =>
    have hkey : pass.tree.follow key = .ok key := h.follow element (by simp [hkind, NodeKind.refs])
    have hvalue : pass.tree.follow value = .ok value := h.follow element (by simp [hkind, NodeKind.refs])
    have hboth : gather (TaskQuestion.answer pass) [.name key, .time key value] = do
        return (← checkRename pass key) ++ (← checkTime pass key value) := by
      rw [gather_cons, gather_singleton]
      rfl
    rw [hboth]
    simp [bind, Except.bind, hkind, hkey, hvalue]
  | _ => simp [bind, Except.bind, hkind, gather, pure, Except.pure]

private theorem checkTarget_eq (id : Nat) {p : Nat × Nat} (htarget : p.1 ∈ (pass.tree.kind id).refs)
    (hvalue : p.2 ∈ (pass.tree.kind id).refs) :
    checkTarget pass p =
      gather (TaskQuestion.answer pass) (targetQuestions pass.tree pass.facts p.1 p.2) := by
  unfold checkTarget targetQuestions
  dsimp only
  rw [h.follow id htarget]
  cases hkind : pass.tree.kind p.1 with
  | selectorExpr operand field =>
    have hfield : pass.tree.follow field = .ok field := h.follow p.1 (by simp [hkind, NodeKind.refs])
    by_cases htask : pass.facts.isTask operand = true
    · simp only [htask, if_true, gather_singleton]
      simp [bind, Except.bind, hkind, htask, hfield, h.follow id hvalue, TaskQuestion.answer]
    · simp [bind, Except.bind, hkind, htask, gather, pure, Except.pure]
  | _ => simp [bind, Except.bind, hkind, gather, pure, Except.pure]

private theorem checkTaskNode_eq (id : Nat) : checkTaskNode pass id =
    gather (TaskQuestion.answer pass) (questionsAt pass.tree pass.facts id) := by
  unfold checkTaskNode questionsAt
  dsimp only
  cases hkind : pass.tree.kind id with
  | compositeLit type elements =>
    by_cases htask : pass.facts.isTask id = true
    · simp only [htask, if_true]
      rw [gather_flatMap]
      refine gather_congr fun element helement => checkElement_eq h id ?_
      rw [hkind]
      exact List.mem_append_right _ helement
    · simp only [htask]
      rfl
  | selectorExpr operand field =>
    by_cases htask : pass.facts.isTask operand = true
    · have hfield : pass.tree.follow field = .ok field := h.follow id (by simp [hkind, NodeKind.refs])
      simp only [htask, if_true, gather_singleton, hfield]
      rfl
    · simp only [htask]
      rfl
  | assignStmt targets values define =>
    by_cases hlength : (targets.length == values.length) = true
    · simp only [hlength, if_true]
      rw [gather_flatMap]
      refine gather_congr fun p hp => checkTarget_eq h id ?_ ?_
      · rw [hkind]
        exact List.mem_append_left _ (List.of_mem_zip hp).1
      · rw [hkind]
        exact List.mem_append_right _ (List.of_mem_zip hp).2
    · simp only [hlength]
      rfl
  | _ => rfl

/-- What is reported of tasks are the answers to what the file asks. -/
theorem run_taskFields (severity : Severity) : (taskFields severity).run pass = do
    return .report (← gather (TaskQuestion.answer pass) (taskQuestions pass.tree pass.facts)) := by
  unfold taskQuestions
  rw [gather_flatMap, gather_congr fun id _ => (checkTaskNode_eq h id).symm,
    ← Tree.visited_eq_preorder]
  rfl

end Questions

/-! ### Kinds of findings -/

/-- Whether a diagnostic is about a time that is no number. -/
def Diagnostic.isTimeFinding (d : Diagnostic) : Bool :=
  d.message == "time fields must be int64 (Unix timestamp)"

section Kinds

variable {pass : Pass Published}

theorem checkTime_isTimeFinding (field value : Nat) :
    Yields (checkTime pass field value) fun ds => ∀ d ∈ ds, d.isTimeFinding = true := by
  have hnone : Yields (.ok [] : Check (List Diagnostic)) fun ds => ∀ d ∈ ds, d.isTimeFinding = true :=
    .pure (by simp)
  unfold checkTime
  dsimp only
  split
  · exact hnone
  · refine .bind fun numeric _ => ?_
    split
    · exact hnone
    · split
      · exact hnone
      · split
        · exact hnone
        · exact .bind fun fixes _ => .pure (by simp [Diagnostic.isTimeFinding, Pass.finding])

/-- No name that is put into what is said of a name makes it what is said of a time. -/
theorem isTimeFinding_rename (span : Span) (old new : String) (help : Option String)
    (fixes : List Fix) :
    (pass.finding span s!"task field `{old}` should be named `{new}`" help fixes).isTimeFinding =
      false := by
  refine beq_eq_false_iff_ne.mpr fun h => ?_
  have hchars := congrArg String.toList h
  simp [Pass.finding, toString] at hchars

theorem checkRename_isTimeFinding (field : Nat) :
    Yields (checkRename pass field) fun ds => ∀ d ∈ ds, d.isTimeFinding = false := by
  have hnone : Yields (.ok [] : Check (List Diagnostic)) fun ds => ∀ d ∈ ds, d.isTimeFinding = false :=
    .pure (by simp)
  unfold checkRename
  split
  · exact hnone
  · split
    · exact hnone
    · refine .bind fun fix _ => .pure ?_
      exact List.forall_mem_singleton.mpr (isTimeFinding_rename _ _ _ none [fix])

end Kinds

end Lintel
