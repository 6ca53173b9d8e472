import Lintel.Proofs.Rules.Findings
import Lintel.Proofs.Text.Chars

/-!
# Kinds of findings

What a finding is about is told by the words with which its message begins: kinds of findings keep
apart if no words of one kind begin words of the other one. A finding at a node is heard if no
comment silences the rule where the node starts, and in a file without directives all are.
-/

namespace Lintel

open Lintel.Text

/-! ### Words at the beginning -/

def Diagnostic.beginsWith (heads : List String) (d : Diagnostic) : Bool :=
  heads.any fun head => startsWith head d.message

/-- Whether no words of one list begin words of another one. -/
def keepApart (heads others : List String) : Bool :=
  heads.all fun head => others.all fun other => !startsWith head other && !startsWith other head

section Words

variable {heads others : List String} {ds : List Diagnostic}

theorem beginsWith_iff {d : Diagnostic} :
    d.beginsWith heads = true ↔ ∃ head ∈ heads, ∃ rest, d.message = head ++ rest := by
  simp only [Diagnostic.beginsWith, List.any_eq_true, startsWith_iff]

theorem beginsWith_of_message {d : Diagnostic} {head rest : String} (hhead : head ∈ heads)
    (hmessage : d.message = head ++ rest) : d.beginsWith heads = true :=
  beginsWith_iff.mpr ⟨head, hhead, rest, hmessage⟩

private theorem beginsWith_eq_false {d : Diagnostic} (h : d.beginsWith heads = true)
    (hapart : keepApart heads others = true) : d.beginsWith others = false := by
  obtain ⟨head, hhead, hstart⟩ := List.any_eq_true.mp h
  refine List.any_eq_false.mpr fun other hother hstart' => ?_
  have hneither := List.all_eq_true.mp (List.all_eq_true.mp hapart head hhead) other hother
  simp only [Bool.and_eq_true, Bool.not_eq_true'] at hneither
  rcases startsWith_or_startsWith hstart hstart' with hprefix | hprefix
  · rw [hneither.1] at hprefix
    cases hprefix
  · rw [hneither.2] at hprefix
    cases hprefix

theorem filter_beginsWith_eq_nil (h : ∀ d ∈ ds, d.beginsWith heads = true)
    (hapart : keepApart heads others = true) : ds.filter (Diagnostic.beginsWith others) = [] := by
  refine List.filter_eq_nil_iff.mpr fun d hd => ?_
  rw [beginsWith_eq_false (h d hd) hapart]
  exact Bool.false_ne_true

end Words

/-! ### Findings that are heard -/

/-- Whether no comment silences the rule where a node starts. -/
def Pass.hears {ρ : Type} (pass : Pass ρ) (id : Nat) : Bool :=
  !(Allowance.check pass.file.content (pass.file.lines.lineCol (pass.tree.span id).start).1
    pass.rule.name).isAllowed

/-- On no line of a text a directive is read. -/
def HasNoDirective (content : String) : Prop :=
  ∀ line ∈ physicalLines content.toList, Directive.ofLine? line = none

section Heard

variable {ρ : Type} {pass : Pass ρ}

/-- Of findings at nodes, those are heard that are at nodes where the rule is. -/
theorem Pass.heard_map {α : Type} {f : α → Diagnostic} {place : α → Nat} {as : List α}
    (h : ∀ a ∈ as, pass.isHeard (f a) = pass.hears (place a)) :
    pass.heard (as.map f) = (as.filter fun a => pass.hears (place a)).map f := by
  rw [Pass.heard, List.filter_map]
  exact congrArg (List.map f) (List.filter_congr h)

theorem Pass.filter_heard (kind : Diagnostic → Bool) (ds : List Diagnostic) :
    (pass.heard ds).filter kind = pass.heard (ds.filter kind) :=
  List.filter_comm ..

private theorem linesFor_subset (content : String) (line : Nat) :
    Allowance.linesFor content line ⊆ physicalLines content.toList := by
  unfold Allowance.linesFor
  split
  · exact List.nil_subset _
  · exact List.take_subset _ _
  · exact List.Subset.trans (List.take_subset _ _) (List.drop_subset _ _)

/-- Without directives a rule is heard everywhere. -/
theorem Pass.hears_of_hasNoDirective (h : HasNoDirective pass.file.content) (id : Nat) :
    pass.hears id = true := by
  unfold Pass.hears Allowance.check
  have hnone : ∀ line, (Allowance.linesFor pass.file.content line).filterMap Directive.ofLine? = [] :=
    fun line => List.filterMap_eq_nil_iff.mpr fun l hl => h l (linesFor_subset _ line hl)
  rw [hnone]
  rfl

end Heard

end Lintel
