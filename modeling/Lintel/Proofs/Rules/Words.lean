import Lintel.Proofs.Edit.Listing
import Lintel.Proofs.Rules.Findings
import Lintel.Proofs.Text.Places
import Lintel.Rule.Words

/-!
# Rules whose sums are words

No node of a tree starts at the last word. Then whatever is added to the offsets of its nodes is
a word, and what a rule of the catalog reports in words is what it reports.
-/

namespace Lintel

open Lintel.Text

/-- The ranges of all nodes are words, and none of them starts at the last one. -/
structure Tree.InWords (t : Tree) : Prop where
  start : ∀ id, (t.span id).start + 1 < wordCount
  stop : ∀ id, (t.span id).stop < wordCount

/-- What rules add up of a tree: the columns of findings and of returns, the place behind the
first byte of a node, and the column before its last byte, which is looked up for its indent. -/
inductive Tree.Sum (t : Tree) : Nat → Prop
  | column (id : Nat) : t.Sum (t.file.lines.lineCol (t.span id).start).2
  | behind (id : Nat) : t.Sum ((t.span id).start + 1)
  | closing (id : Nat) : t.Sum (t.file.lines.lineCol ((t.span id).stop - 1)).2

theorem SourceFile.column_le (file : SourceFile) (offset : Nat) :
    (file.lines.lineCol offset).2 ≤ offset + 1 := by
  obtain ⟨start, hcol, -⟩ := exists_lineCol file.content offset
  rw [file.lines_eq, hcol]
  exact Nat.succ_le_succ (Nat.sub_le offset start)

theorem Tree.InWords.sum_lt {t : Tree} (h : t.InWords) {sum : Nat} (hsum : t.Sum sum) :
    sum < wordCount := by
  cases hsum with
  | column id => exact Nat.lt_of_le_of_lt (t.file.column_le _) (h.start id)
  | behind id => exact h.start id
  | closing id =>
    have hle := t.file.column_le ((t.span id).stop - 1)
    have hstop := h.stop id
    have hstart := h.start id
    omega

/-! ### What stays as it is in words -/

variable {overflow : Overflow}

@[simp] theorem Overflow.check_of_lt {sum : Nat} (h : sum < wordCount) :
    overflow.check sum = .ok sum := by
  rw [check, overflow.word_of_lt h]

theorem mapM_eq_ok_self {ε α : Type} {f : α → Except ε α} {as : List α} (h : ∀ a ∈ as, f a = .ok a) :
    as.mapM f = .ok as :=
  mapM_eq_ok_iff.mpr (List.forall₂_same.mpr h)

theorem TextEdit.inWords_eq {e : TextEdit} (hstart : e.start < wordCount) (hstop : e.stop < wordCount) :
    e.inWords overflow = .ok e := by
  rw [inWords, Overflow.check_of_lt hstart, Overflow.check_of_lt hstop]
  rfl

@[simp] theorem Fix.check_edits (fix : Fix) : Fix.check fix.description fix.edits = .ok fix := by
  have hbuilt : Fix.ofEdits fix.description fix.edits = .ok fix := by
    refine Fix.ofEdits_eq_ok_iff.mpr ⟨⟨fix.forward, ?_⟩, rfl, fix.ascending_edits.symm⟩
    exact fix.apart.imp TextEdit.Apart.not_overlaps
  rw [Fix.check, hbuilt]

theorem Fix.inWords_eq {fix : Fix}
    (h : ∀ e ∈ fix.edits, e.start < wordCount ∧ e.stop < wordCount) :
    fix.inWords overflow = .ok fix := by
  rw [inWords, mapM_eq_ok_self fun e he => TextEdit.inWords_eq (h e he).1 (h e he).2]
  exact fix.check_edits

theorem Diagnostic.inWords_eq {d : Diagnostic} (hcolumn : d.location.column < wordCount)
    (hfixes : ∀ fix ∈ d.fixes, ∀ e ∈ fix.edits, e.start < wordCount ∧ e.stop < wordCount) :
    d.inWords overflow = .ok d := by
  rw [inWords, mapM_eq_ok_self fun fix hfix => Fix.inWords_eq (hfixes fix hfix), Location.inWords,
    Overflow.check_of_lt hcolumn]
  rfl

/-! ### What rules report of a tree in words -/

variable {t : Tree} {span : Span} {fix : Fix}

theorem MendsBody.words (h : t.InWords) (hfix : MendsBody t span fix) :
    ∀ e ∈ fix.edits, e.start < wordCount ∧ e.stop < wordCount := by
  obtain ⟨func, body, offset, text, -, -, hedits, hoffset⟩ := hfix
  have hword : offset < wordCount := by
    rcases hoffset with rfl | ⟨last, -, rfl⟩ | rfl
    · exact h.start body
    · exact Nat.lt_of_succ_lt (h.start last)
    · exact Nat.lt_of_le_of_lt (Nat.sub_le _ _) (h.stop body)
  rw [hedits, List.forall_mem_singleton]
  exact ⟨hword, hword⟩

theorem MendsNode.words (h : t.InWords) (hfix : MendsNode t span fix) :
    ∀ e ∈ fix.edits, e.start < wordCount ∧ e.stop < wordCount := by
  obtain ⟨id, text, hedits | hedits⟩ := hfix
  · rw [hedits, List.forall_mem_singleton]
    exact ⟨Nat.lt_of_succ_lt (h.start id), h.stop id⟩
  · rw [hedits, List.forall_mem_singleton]
    exact ⟨h.stop id, h.stop id⟩

/-- On such a tree a rule of the catalog runs in words as it runs. -/
theorem run_inWords {unit : SourceUnit} (h : unit.tree.InWords) {severity : Severity}
    {limits : StyleLimits} {rule : Rule Published} (hrule : rule ∈ catalog severity limits)
    (info : RuleInfo) (results : List (String × Published)) :
    (rule.inWords overflow).run ⟨unit, info, results⟩ = rule.run ⟨unit, info, results⟩ := by
  cases hrun : rule.run ⟨unit, info, results⟩ with
  | error fault => simp only [Rule.inWords, hrun]; rfl
  | ok outcome =>
    have hreported : ∀ d ∈ outcome.reported, d.inWords overflow = .ok d := by
      intro d hd
      obtain ⟨id, message, help, fixes, rfl, hfixes⟩ := finds_of_mem_catalog rule hrule outcome hrun d hd
      refine Diagnostic.inWords_eq (h.sum_lt (.column id)) fun fix hfix => ?_
      exact (hfixes fix hfix).elim (·.words h) (·.words h)
    have houtcome : outcome.inWords overflow = .ok outcome := by
      rw [Outcome.inWords, mapM_eq_ok_self hreported]
      rfl
    simp only [Rule.inWords, hrun]
    exact houtcome

end Lintel
