import Lintel.Span
import Lintel.Text.Slice

/-!
# Edits and fixes

An edit replaces a range of the unmodified source by a text. A fix is a described
list of edits that are in order and keep apart, so that each of them can be read
as a change of the text as given. Building a fix sorts the edits and refuses a range
that runs backwards and two edits that touch.
-/

namespace Lintel

/-- Replacement of the bytes from `start` to `stop`; an insertion if they are equal. -/
structure TextEdit where
  start : Nat
  stop : Nat
  replacement : String
  deriving DecidableEq, Repr

namespace TextEdit

def replace (span : Span) (text : String) : TextEdit :=
  ⟨span.start, span.stop, text⟩

def insert (offset : Nat) (text : String) : TextEdit :=
  ⟨offset, offset, text⟩

/-- Whether two edits touch the same bytes. Two edits at one offset always do, since
the order of their replacements would be open. -/
def overlaps (a b : TextEdit) : Bool :=
  a.start == b.start || (a.start < b.stop && b.start < a.stop)

/-- The order of edits by start, then by stop. -/
def precedes (a b : TextEdit) : Bool :=
  a.start < b.start || (a.start == b.start && a.stop ≤ b.stop)

def ascending (edits : List TextEdit) : List TextEdit :=
  edits.mergeSort precedes

/-- Whether a later edit starts strictly later and not before the first one stops. -/
def Apart (a b : TextEdit) : Prop :=
  a.start < b.start ∧ a.stop ≤ b.start

instance : DecidableRel Apart := fun a b =>
  inferInstanceAs (Decidable (a.start < b.start ∧ a.stop ≤ b.start))

end TextEdit

inductive FixError where
  | invalidRange (start stop : Nat)
  | overlap (first second : Nat)
  | conflict (first second : String)
  | outOfBounds (start stop length : Nat)
  deriving DecidableEq, Repr

def FixError.message : FixError → String
  | .invalidRange start stop => s!"invalid edit range {start}..{stop}"
  | .overlap first second => s!"edits at offsets {first} and {second} overlap"
  | .conflict first second => "fixes `" ++ first ++ "` and `" ++ second ++ "` have overlapping edits"
  | .outOfBounds start stop length =>
    s!"edit {start}..{stop} is out of bounds for a source of {length} bytes"

def firstOverlap : List TextEdit → Option (TextEdit × TextEdit)
  | a :: b :: rest => if a.overlaps b then some (a, b) else firstOverlap (b :: rest)
  | _ => none

/-- Edits in order whose neighbours do not overlap keep apart altogether. -/
theorem pairwise_apart_of_firstOverlap_eq_none :
    ∀ {edits : List TextEdit}, (∀ e ∈ edits, e.start ≤ e.stop) →
      edits.Pairwise (fun a b => a.precedes b = true) → firstOverlap edits = none →
      edits.Pairwise TextEdit.Apart
  | [], _, _, _ => .nil
  | [_], _, _, _ => by simp
  | a :: b :: rest, forward, ordered, none_overlaps => by
    obtain ⟨a_first, tail_ordered⟩ := List.pairwise_cons.mp ordered
    have clear : a.overlaps b = false ∧ firstOverlap (b :: rest) = none := by
      simp only [firstOverlap] at none_overlaps
      split at none_overlaps <;> simp_all
    have tail := pairwise_apart_of_firstOverlap_eq_none
      (fun e h => forward e (List.mem_cons_of_mem _ h)) tail_ordered clear.2
    have ab : a.Apart b := by
      have hab := a_first b (by simp)
      have hb := forward b (by simp)
      have hc := clear.1
      simp only [TextEdit.precedes, TextEdit.overlaps, TextEdit.Apart, Bool.or_eq_true,
        Bool.and_eq_true, Bool.or_eq_false_iff, Bool.and_eq_false_iff, decide_eq_true_eq,
        decide_eq_false_iff_not, beq_iff_eq, beq_eq_false_iff_ne] at hab hc ⊢
      omega
    refine List.pairwise_cons.mpr ⟨fun e he => ?_, tail⟩
    rcases List.mem_cons.mp he with rfl | he
    · exact ab
    · have hbe := (List.pairwise_cons.mp tail).1 e he
      have hb := forward b (by simp)
      simp only [TextEdit.Apart] at ab hbe ⊢
      omega

theorem TextEdit.precedes_trans (a b c : TextEdit) (hab : a.precedes b = true)
    (hbc : b.precedes c = true) : a.precedes c = true := by
  simp only [TextEdit.precedes, Bool.or_eq_true, Bool.and_eq_true, decide_eq_true_eq,
    beq_iff_eq] at *
  omega

theorem TextEdit.precedes_total (a b : TextEdit) : (a.precedes b || b.precedes a) = true := by
  simp only [TextEdit.precedes, Bool.or_eq_true, Bool.and_eq_true, decide_eq_true_eq,
    beq_iff_eq]
  omega

/-- A described list of edits that run forwards, are in order and keep apart. -/
structure Fix where
  description : String
  edits : List TextEdit
  forward : ∀ e ∈ edits, e.start ≤ e.stop
  apart : edits.Pairwise TextEdit.Apart

instance : DecidableEq Fix := fun a b =>
  if h : a.description = b.description ∧ a.edits = b.edits then
    .isTrue (by cases a; cases b; simp_all)
  else
    .isFalse (by rintro rfl; simp at h)

/-- Builds a fix from edits in any order. The first edit that runs backwards is
refused before any two that overlap. -/
def Fix.ofEdits (description : String) (edits : List TextEdit) : Except FixError Fix :=
  match backwards : edits.find? fun e => decide (e.stop < e.start) with
  | some e => .error (.invalidRange e.start e.stop)
  | none =>
    match touching : firstOverlap (TextEdit.ascending edits) with
    | some (a, b) => .error (.overlap a.start b.start)
    | none =>
      have forward : ∀ e ∈ TextEdit.ascending edits, e.start ≤ e.stop := by
        intro e he
        have := List.find?_eq_none.mp backwards e (List.mem_mergeSort.mp he)
        simpa using this
      .ok ⟨description, TextEdit.ascending edits, forward,
        pairwise_apart_of_firstOverlap_eq_none forward
          (List.pairwise_mergeSort TextEdit.precedes_trans TextEdit.precedes_total edits) touching⟩

end Lintel
