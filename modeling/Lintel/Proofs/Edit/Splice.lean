import Lintel.Edit.Apply
import Lintel.Proofs.Text.Slice
import Mathlib.Data.List.Sort

/-!
# Carrying out edits splices the source

The edits of a fix are carried out one after another on a text whose length changes,
from the highest offset down. The text then is, at each moment, a prefix of the source
followed by what the edits done so far make of the rest. Hence no edit is ever out of
bounds, and the outcome is the splice of the source and the replacements from left to
right. The same holds of all edits of several fixes of which no two conflict.
-/

namespace Lintel

open Text

def splice? (source : String) : Nat → List TextEdit → Option String
  | done, [] => from? source done
  | done, e :: rest => do
    return (← slice? source done e.start) ++ e.replacement ++ (← splice? source e.stop rest)

/-- How edits, listed in some order, turn a source into a result. -/
structure Splices (source : String) (listed : List TextEdit) (result : Except FixError String) :
    Prop where
  carried : (∀ e ∈ listed, e.fits source) →
    ∃ text, splice? source 0 (TextEdit.ascending listed) = some text ∧ result = .ok text
  inBounds : (∀ e ∈ listed, e.fits source) → ∀ later e earlier,
    TextEdit.descending listed = later ++ e :: earlier →
      ∃ text, later.foldlM TextEdit.apply source = .ok text ∧ e.fits text
  refused : ∀ e, listed.find? (fun e => !e.fits source) = some e →
    result = .error (e.outOfBounds source)

namespace TextEdit

theorem fits_iff {e : TextEdit} {text : String} :
    e.fits text = true ↔ isBoundary text e.start = true ∧ isBoundary text e.stop = true := by
  simp only [fits, Bool.and_eq_true, decide_eq_true_eq]
  constructor
  · rintro ⟨⟨-, hs⟩, he⟩
    exact ⟨hs, he⟩
  · rintro ⟨hs, he⟩
    exact ⟨⟨le_byteLength_of_isBoundary he, hs⟩, he⟩

/-- An edit of the middle of a text replaces just that. -/
theorem apply_middle {e : TextEdit} {a m c : String} (hs : byteLength a = e.start)
    (he : byteLength a + byteLength m = e.stop) :
    e.apply (a ++ m ++ c) = .ok (a ++ e.replacement ++ c) := by
  have hu : upTo? (a ++ m ++ c) e.start = some a :=
    upTo?_eq_some_iff.mpr ⟨m ++ c, by simp [String.append_assoc], hs⟩
  have hf : from? (a ++ m ++ c) e.stop = some c :=
    from?_eq_some_iff.mpr ⟨a ++ m, rfl, by simpa using he⟩
  simp only [apply, hu, hf]

/-- The highest edits first: what they have made so far is the source up to any offset
below them, followed by the splice from there. -/
theorem foldlM_reverse_apply {source : String} {edits : List TextEdit} :
    ∀ {done : Nat}, isBoundary source done = true → (∀ e ∈ edits, done ≤ e.start) →
      (∀ e ∈ edits, e.start ≤ e.stop ∧ e.fits source) → edits.Pairwise Apart →
      ∃ head tail, upTo? source done = some head ∧ splice? source done edits = some tail ∧
        edits.reverse.foldlM apply source = .ok (head ++ tail) := by
  induction edits with
  | nil =>
    intro done hd _ _ _
    obtain ⟨a, b, rfl, rfl⟩ := isBoundary_iff.mp hd
    exact ⟨a, b, upTo?_eq_some_iff.mpr ⟨b, rfl, rfl⟩, from?_eq_some_iff.mpr ⟨a, rfl, rfl⟩, rfl⟩
  | cons e rest ih =>
    intro done hd hle hfit hp
    obtain ⟨hfirst, hrest⟩ := List.pairwise_cons.mp hp
    obtain ⟨hforward, hf⟩ := hfit e List.mem_cons_self
    obtain ⟨hs, he⟩ := fits_iff.mp hf
    obtain ⟨done', tail, hhead, htail, hrun⟩ := ih he (fun b hb => (hfirst b hb).2)
      (fun b hb => hfit b (List.mem_cons_of_mem _ hb)) hrest
    -- the source falls into what is done, what is kept, what is replaced and the rest
    obtain ⟨mid, hmid⟩ := exists_slice? hforward hs he
    obtain ⟨a, c, rfl, ha, hm⟩ := slice?_eq_some_iff.mp hmid
    obtain ⟨head, q, hq, rfl⟩ := isBoundary_iff.mp hd
    obtain ⟨kept, rfl, rfl⟩ := append_eq_append_of_le
      (hq.symm.trans (String.append_assoc ..)) (by simpa [ha] using hle e List.mem_cons_self)
    obtain rfl : head ++ kept ++ mid = done' := Option.some.inj
      ((upTo?_eq_some_iff.mpr ⟨c, rfl, by simpa using hm⟩).symm.trans hhead)
    have hkept : slice? (head ++ kept ++ mid ++ c) (byteLength head) e.start = some kept :=
      slice?_eq_some_iff.mpr ⟨head, mid ++ c, by simp [String.append_assoc], rfl, by simpa using ha⟩
    refine ⟨head, kept ++ e.replacement ++ tail,
      upTo?_eq_some_iff.mpr ⟨kept ++ mid ++ c, by simp [String.append_assoc], rfl⟩, ?_, ?_⟩
    · simp [splice?, hkept, htail]
    · have hstep := apply_middle (c := tail) ha hm
      rw [List.reverse_cons, List.foldlM_append, hrun]
      simp only [List.foldlM_cons, List.foldlM_nil, bind, Except.bind, hstep]
      simp [pure, Except.pure, String.append_assoc]

/-- The lower of two edits still fits when the higher ones have been carried out. -/
theorem fits_of_foldlM_reverse {source : String} {e : TextEdit} {higher : List TextEdit}
    (hp : (e :: higher).Pairwise Apart)
    (hfit : ∀ b ∈ e :: higher, b.start ≤ b.stop ∧ b.fits source) :
    ∃ text, higher.reverse.foldlM apply source = .ok text ∧ e.fits text := by
  obtain ⟨hfirst, hrest⟩ := List.pairwise_cons.mp hp
  obtain ⟨hforward, hf⟩ := hfit e List.mem_cons_self
  obtain ⟨hs, he⟩ := fits_iff.mp hf
  obtain ⟨head, tail, hhead, -, hrun⟩ := foldlM_reverse_apply he (fun b hb => (hfirst b hb).2)
    (fun b hb => hfit b (List.mem_cons_of_mem _ hb)) hrest
  obtain ⟨mid, hmid⟩ := exists_slice? hforward hs he
  obtain ⟨a, c, rfl, ha, hm⟩ := slice?_eq_some_iff.mp hmid
  obtain rfl : a ++ mid = head := Option.some.inj
    ((upTo?_eq_some_iff.mpr ⟨c, rfl, by simpa using hm⟩).symm.trans hhead)
  refine ⟨a ++ mid ++ tail, hrun, fits_iff.mpr ⟨?_, ?_⟩⟩
  · exact isBoundary_iff.mpr ⟨a, mid ++ tail, by simp [String.append_assoc], ha⟩
  · exact isBoundary_iff.mpr ⟨a ++ mid, tail, rfl, by simpa using hm⟩

/-! ### Both orders -/

theorem Apart.precedes {a b : TextEdit} (h : a.Apart b) : a.precedes b = true := by
  simp [TextEdit.precedes, h.1]

theorem Apart.not_overlaps {a b : TextEdit} (h : a.Apart b) : a.overlaps b = false := by
  obtain ⟨hlt, hle⟩ := h
  simp only [overlaps, Bool.or_eq_false_iff, Bool.and_eq_false_iff, beq_eq_false_iff_ne,
    decide_eq_false_iff_not]
  omega

theorem overlaps_comm (a b : TextEdit) : a.overlaps b = b.overlaps a := by
  apply Bool.eq_iff_iff.mpr
  simp only [overlaps, Bool.or_eq_true, Bool.and_eq_true, beq_iff_eq, decide_eq_true_eq]
  omega

private theorem apart_of_not_overlaps {a b : TextEdit} (ha : a.start ≤ a.stop)
    (hb : b.start ≤ b.stop) (h : a.precedes b = true) (ho : a.overlaps b = false) : a.Apart b := by
  simp only [TextEdit.precedes, overlaps, Apart, Bool.or_eq_true, Bool.and_eq_true,
    Bool.or_eq_false_iff, Bool.and_eq_false_iff, decide_eq_true_eq, decide_eq_false_iff_not,
    beq_iff_eq, beq_eq_false_iff_ne] at h ho ⊢
  omega

private theorem pairwise_ascending (edits : List TextEdit) :
    (ascending edits).Pairwise fun a b => a.precedes b = true :=
  List.pairwise_mergeSort precedes_trans precedes_total edits

private theorem pairwise_descending (edits : List TextEdit) :
    (descending edits).Pairwise fun a b => b.precedes a = true :=
  List.pairwise_mergeSort (fun a b c hab hbc => precedes_trans c b a hbc hab)
    (fun a b => by simpa [Bool.or_comm] using precedes_total a b) edits

/-- Edits that keep apart are told apart by where they start. -/
theorem eq_of_start_eq {edits : List TextEdit} (h : edits.Pairwise Apart) {a b : TextEdit}
    (ha : a ∈ edits) (hb : b ∈ edits) (hs : a.start = b.start) : a = b := by
  have hp : edits.Pairwise fun a b => a.start = b.start → a = b :=
    h.imp fun hab hs => absurd hs (Nat.ne_of_lt hab.1)
  have hflip : edits.Pairwise (flip fun a b => a.start = b.start → a = b) :=
    h.imp fun hab hs => absurd hs (Nat.ne_of_gt hab.1)
  exact hp.forall_of_forall_of_flip (fun _ _ _ => rfl) hflip ha hb hs

private theorem eq_of_precedes {edits : List TextEdit} (h : edits.Pairwise Apart) {a b : TextEdit}
    (ha : a ∈ edits) (hb : b ∈ edits) (hab : a.precedes b = true) (hba : b.precedes a = true) :
    a = b := by
  refine eq_of_start_eq h ha hb ?_
  simp only [TextEdit.precedes, Bool.or_eq_true, Bool.and_eq_true, decide_eq_true_eq,
    beq_iff_eq] at hab hba
  omega

/-- Edits that keep apart have one descending order, the reverse of the ascending one. -/
theorem descending_eq_reverse {edits : List TextEdit} (h : (ascending edits).Pairwise Apart) :
    descending edits = (ascending edits).reverse := by
  have hperm : (descending edits).Perm (ascending edits).reverse :=
    (List.mergeSort_perm _ _).trans
      ((List.mergeSort_perm _ _).symm.trans (List.reverse_perm _).symm)
  have hrev : (ascending edits).reverse.Pairwise fun a b => b.Apart a :=
    List.pairwise_reverse.mpr h
  refine List.Perm.eq_of_pairwise ?_ (pairwise_descending edits) (hrev.imp Apart.precedes) hperm
  intro a b ha hb hba hab
  exact eq_of_precedes h (List.mem_reverse.mp (hperm.subset ha)) (List.mem_reverse.mp hb) hab hba

/-- Edits that keep apart have one ascending order, in whatever order they are listed. -/
theorem ascending_eq_of_perm {edits others : List TextEdit} (h : (ascending edits).Pairwise Apart)
    (hperm : edits.Perm others) : ascending edits = ascending others := by
  have hsorted : (ascending edits).Perm (ascending others) :=
    (List.mergeSort_perm _ _).trans (hperm.trans (List.mergeSort_perm _ _).symm)
  refine List.Perm.eq_of_pairwise ?_ (pairwise_ascending edits) (pairwise_ascending others) hsorted
  intro a b ha hb hab hba
  exact eq_of_precedes h ha (hsorted.symm.subset hb) hab hba

end TextEdit

open TextEdit

/-- Edits that run forwards and keep apart in ascending order splice a source. -/
theorem splices_applyEdits {source : String} {edits : List TextEdit}
    (hforward : ∀ e ∈ edits, e.start ≤ e.stop) (hp : (ascending edits).Pairwise Apart) :
    Splices source edits (applyEdits source edits) := by
  have hmem : ∀ e, e ∈ ascending edits ↔ e ∈ edits := fun e => List.mem_mergeSort
  refine ⟨fun hfit => ?_, fun hfit later e earlier hsplit => ?_, fun e he => ?_⟩
  · have hnone : edits.find? (fun e => !e.fits source) = none :=
      List.find?_eq_none.mpr fun e he => by simp [hfit e he]
    have hzero : isBoundary source 0 = true := isBoundary_iff.mpr ⟨"", source, by simp, rfl⟩
    obtain ⟨head, tail, hhead, htail, hrun⟩ := foldlM_reverse_apply hzero
      (fun e _ => Nat.zero_le e.start)
      (fun e he => ⟨hforward e ((hmem e).mp he), hfit e ((hmem e).mp he)⟩) hp
    obtain ⟨c, -, hlen⟩ := upTo?_eq_some_iff.mp hhead
    obtain rfl := String.utf8ByteSize_eq_zero_iff.mp hlen
    refine ⟨tail, htail, ?_⟩
    rw [applyEdits, hnone, descending_eq_reverse hp, hrun, String.empty_append]
  · rw [descending_eq_reverse hp] at hsplit
    have hasc : ascending edits = earlier.reverse ++ e :: later.reverse := by
      simpa using congrArg List.reverse hsplit
    rw [hasc] at hp hmem
    have hlow := fits_of_foldlM_reverse (List.pairwise_append.mp hp).2.1
      fun b hb => ⟨hforward b ((hmem b).mp (List.mem_append_right _ hb)),
        hfit b ((hmem b).mp (List.mem_append_right _ hb))⟩
    simpa using hlow
  · rw [applyEdits, he]

namespace Splices

variable {source : String} {listed : List TextEdit} {result : Except FixError String}

theorem exists_refused (h : Splices source listed result)
    (hout : ¬ ∀ e ∈ listed, e.fits source = true) :
    ∃ e ∈ listed, e.fits source = false ∧ result = .error (e.outOfBounds source) := by
  cases hfind : listed.find? fun e => !e.fits source with
  | none => exact absurd (fun e he => by simpa using List.find?_eq_none.mp hfind e he) hout
  | some e =>
    exact ⟨e, List.mem_of_find?_eq_some hfind, by simpa using List.find?_some hfind,
      h.refused e hfind⟩

/-- Either all edits are put in place or one of them is out of bounds. -/
theorem carried_or_refused (h : Splices source listed result) :
    (∃ text, splice? source 0 (ascending listed) = some text ∧ result = .ok text) ∨
      ∃ e ∈ listed, e.fits source = false ∧ result = .error (e.outOfBounds source) := by
  by_cases hfit : ∀ e ∈ listed, e.fits source = true
  · exact .inl (h.carried hfit)
  · exact .inr (h.exists_refused hfit)

end Splices

/-! ### Fixes -/

theorem Fix.exists_ofEdits (description : String) (edits : List TextEdit)
    (hforward : ∀ e ∈ edits, e.start ≤ e.stop) (h : firstOverlap (ascending edits) = none) :
    ∃ fix, Fix.ofEdits description edits = .ok fix := by
  unfold Fix.ofEdits
  split
  · rename_i e he
    have hlt := List.find?_some he
    have hle := hforward e (List.mem_of_find?_eq_some he)
    simp only [decide_eq_true_eq] at hlt
    omega
  · split
    · rename_i a b hab
      simp [h] at hab
    · exact ⟨_, rfl⟩

theorem Fix.edits_of_ofEdits {description : String} {edits : List TextEdit} {fix : Fix}
    (h : Fix.ofEdits description edits = .ok fix) : fix.edits = ascending edits := by
  unfold Fix.ofEdits at h
  split at h
  · cases h
  · split at h
    · cases h
    · cases h
      rfl

@[simp] theorem Fix.ascending_edits (fix : Fix) : ascending fix.edits = fix.edits :=
  List.mergeSort_of_pairwise (fix.apart.imp Apart.precedes)

theorem Fix.conflicts_eq_false_iff {a b : Fix} :
    a.conflicts b = false ↔ ∀ ea ∈ a.edits, ∀ eb ∈ b.edits, ea.overlaps eb = false := by
  simp [Fix.conflicts]

theorem firstConflict_eq_none_iff {fixes : List Fix} :
    firstConflict fixes = none ↔ fixes.Pairwise fun a b => a.conflicts b = false := by
  induction fixes with
  | nil => simp [firstConflict]
  | cons a rest ih =>
    rw [firstConflict, List.pairwise_cons]
    cases hf : rest.find? fun b => a.conflicts b with
    | none =>
      have hclear : ∀ b ∈ rest, a.conflicts b = false := by simpa using List.find?_eq_none.mp hf
      exact ih.trans (and_iff_right hclear).symm
    | some b =>
      have hb := List.find?_some hf
      have hm := List.mem_of_find?_eq_some hf
      simp only [reduceCtorEq, false_iff, not_and]
      exact fun h => absurd (h b hm) (by simp [hb])

theorem pairwise_apart_ascending {edits : List TextEdit}
    (hforward : ∀ e ∈ edits, e.start ≤ e.stop)
    (h : edits.Pairwise fun a b => a.overlaps b = false) : (ascending edits).Pairwise Apart := by
  have hmem : ∀ e ∈ ascending edits, e ∈ edits := fun e he => List.mem_mergeSort.mp he
  have hclear : (ascending edits).Pairwise fun a b => a.overlaps b = false :=
    h.perm (List.mergeSort_perm _ _).symm fun hab => (overlaps_comm _ _).trans hab
  refine ((pairwise_ascending edits).and hclear).imp_of_mem ?_
  rintro a b ha hb ⟨hab, ho⟩
  exact apart_of_not_overlaps (hforward a (hmem a ha)) (hforward b (hmem b hb)) hab ho

theorem forward_flatMap (fixes : List Fix) :
    ∀ e ∈ fixes.flatMap (·.edits), e.start ≤ e.stop := by
  intro e he
  obtain ⟨fix, -, he⟩ := List.mem_flatMap.mp he
  exact fix.forward e he

/-- The edits of fixes overlap only across two fixes that conflict. -/
theorem pairwise_flatMap_iff {fixes : List Fix} :
    ((fixes.flatMap (·.edits)).Pairwise fun a b => a.overlaps b = false) ↔
      fixes.Pairwise fun a b => a.conflicts b = false := by
  rw [List.pairwise_flatMap, and_iff_right fun fix _ => fix.apart.imp Apart.not_overlaps]
  simp only [Fix.conflicts_eq_false_iff]

theorem pairwise_apart_flatMap {fixes : List Fix}
    (h : fixes.Pairwise fun a b => a.conflicts b = false) :
    (ascending (fixes.flatMap (·.edits))).Pairwise Apart :=
  pairwise_apart_ascending (forward_flatMap fixes) (pairwise_flatMap_iff.mpr h)

theorem Fix.splices_applyFix (source : String) (fix : Fix) :
    Splices source fix.edits (applyFix source fix) :=
  splices_applyEdits fix.forward (fix.ascending_edits.symm ▸ fix.apart)

/-- A fix with one edit of the middle of a text replaces just that. -/
theorem applyFix_middle {fix : Fix} {e : TextEdit} {a m c : String} (hedits : fix.edits = [e])
    (hs : byteLength a = e.start) (he : byteLength a + byteLength m = e.stop) :
    applyFix (a ++ m ++ c) fix = .ok (a ++ e.replacement ++ c) := by
  have hfits : e.fits (a ++ m ++ c) = true := by
    obtain ⟨hstart, hstop⟩ := isBoundary_of_slice? (slice?_append a m c)
    rw [hs] at hstart
    rw [he] at hstop
    exact fits_iff.mpr ⟨hstart, hstop⟩
  have hnone : fix.edits.find? (fun e => !e.fits (a ++ m ++ c)) = none := by
    simp [hedits, hfits]
  rw [applyFix, applyEdits, hnone, hedits, descending, List.mergeSort_singleton]
  dsimp only
  rw [List.foldlM_cons, apply_middle hs he]
  rfl

theorem splices_applyFixes {source : String} {fixes : List Fix}
    (h : fixes.Pairwise fun a b => a.conflicts b = false) :
    Splices source (fixes.flatMap (·.edits)) (applyFixes source fixes) := by
  rw [applyFixes, firstConflict_eq_none_iff.mpr h]
  exact splices_applyEdits (forward_flatMap fixes) (pairwise_apart_flatMap h)

def greetingFix : Fix :=
  ⟨"spell it out", [⟨1, 3, "e"⟩, ⟨6, 6, "!"⟩], by decide, by decide⟩

def capitalFix : Fix :=
  ⟨"begin small", [⟨0, 1, "h"⟩], by decide, by decide⟩

/-- Applying a fix, or several that do not conflict, splices the source. -/
theorem fixes_splice (source : String) :
    (∀ description edits fix, Fix.ofEdits description edits = .ok fix →
      fix.edits = ascending edits ∧ Splices source fix.edits (applyFix source fix)) ∧
    ∀ fixes : List Fix, fixes.Pairwise (fun a b => a.conflicts b = false) →
      Splices source (fixes.flatMap (·.edits)) (applyFixes source fixes) := by
  constructor
  · intro description edits fix h
    refine ⟨Fix.edits_of_ofEdits h, splices_applyEdits fix.forward ?_⟩
    exact fix.ascending_edits.symm ▸ fix.apart
  · exact fun fixes h => splices_applyFixes h

theorem fixes_splice_greeting :
    (∃ fix, Fix.ofEdits "spell it out" [⟨6, 6, "!"⟩, ⟨1, 3, "e"⟩] = .ok fix ∧
      fix.edits = ascending [⟨6, 6, "!"⟩, ⟨1, 3, "e"⟩] ∧
      Splices "Héllo" fix.edits (applyFix "Héllo" fix)) ∧
    [greetingFix, capitalFix].Pairwise (fun a b => a.conflicts b = false) ∧
    (∀ e ∈ [greetingFix, capitalFix].flatMap (·.edits), e.fits "Héllo") ∧
    ∃ text, splice? "Héllo" 0 (ascending ([greetingFix, capitalFix].flatMap (·.edits))) = some text ∧
      applyFixes "Héllo" [greetingFix, capitalFix] = .ok text := by
  obtain ⟨fix, hfix⟩ := Fix.exists_ofEdits "spell it out" [⟨6, 6, "!"⟩, ⟨1, 3, "e"⟩]
    (by decide) (by simp [ascending, firstOverlap, List.mergeSort, TextEdit.precedes, overlaps])
  obtain ⟨hedits, hsplices⟩ := (fixes_splice "Héllo").1 _ _ fix hfix
  have hclear : [greetingFix, capitalFix].Pairwise fun a b => a.conflicts b = false := by decide
  have hfit : ∀ e ∈ [greetingFix, capitalFix].flatMap (·.edits), e.fits "Héllo" := by decide
  exact ⟨⟨fix, hfix, hedits, hsplices⟩, hclear, hfit,
    ((fixes_splice "Héllo").2 _ hclear).carried hfit⟩

end Lintel
