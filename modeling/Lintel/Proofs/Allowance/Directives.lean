import Lintel.Proofs.Text.Chars
import Lintel.Allowance

/-!
# Directives that silence rules

A directive is read by cutting and trimming. What is read is said here by the form of a comment:
the two slashes, the words of a directive, and a list of names before the first closing bracket.
-/

namespace Lintel

open Lintel.Text

namespace Directive

variable {line comment listed inner p : List Char} {rule name : String} {d : Directive}

/-- A comment that holds a directive with a list of names. Blanks may stand before the directive
and before its list. -/
structure Written (comment listed : List Char) : Prop where
  form : ∃ gap between rest, comment = "//".toList ++ (gap ++ ("goarch-lint:".toList ++
      (between ++ ("allow(".toList ++ (listed ++ ')' :: rest))))) ∧
    (∀ c ∈ gap, isBlank c = true) ∧ ∀ c ∈ between, isBlank c = true
  closed : ')' ∉ listed

/-- A comment that allows a rule: its directive lists, between commas and perhaps blanks, the
name of the rule or the name `all`. -/
def Allows (comment : List Char) (rule : String) : Prop :=
  ∃ listed, Written comment listed ∧ ∃ name ∈ (splitAt (· == ',') listed).map trim, name ≠ [] ∧
    (String.ofList name = rule ∨ String.ofList name = "all")

def Silences (line : List Char) (rule : String) : Prop :=
  ∃ d, ofLine? line = some d ∧ d.covers rule = true

private theorem mem_names : name ∈ names inner ↔
    ∃ piece ∈ (splitAt (· == ',') inner).map trim, piece ≠ [] ∧ String.ofList piece = name := by
  simp [names, List.mem_filterMap]

private theorem names_append_of_blank (hp : ∀ c ∈ p, isBlank c = true) (inner : List Char) :
    names (p ++ inner) = names inner := by
  have hno : ∀ c ∈ p, (c == ',') = false := fun c hc => by
    simpa using fun heq : c = ',' => absurd (heq ▸ hp c hc) (by decide)
  obtain ⟨piece, pieces, hinner, happend⟩ := splitAt_append_of_forall hno inner
  rw [names, names, happend, hinner, List.map_cons, List.map_cons, trim_append_of_blank hp]

theorem ofLine?_eq_some_iff : ofLine? line = some d ↔ ∃ before comment body args inner rest,
    cut? "//".toList line = some (before, comment) ∧
    after? "goarch-lint:".toList (trim comment) = some body ∧
    after? "allow(".toList (trim body) = some args ∧
    cut? [')'] (trim args) = some (inner, rest) ∧
    names inner ≠ [] ∧ d = ⟨names inner, reason? rest⟩ := by
  simp only [ofLine?, Option.bind_eq_bind, Option.bind_eq_some_iff, Prod.exists]
  constructor
  · rintro ⟨before, comment, hcomment, body, hbody, args, hargs, inner, rest, hinner, h⟩
    refine ⟨before, comment, body, args, inner, rest, hcomment, hbody, hargs, hinner, ?_⟩
    split at h
    · cases h
    · rename_i hne
      exact ⟨fun hnil => hne (by rw [hnil]; rfl), (Option.some.inj h).symm⟩
  · rintro ⟨before, comment, body, args, inner, rest, hcomment, hbody, hargs, hinner, hne, rfl⟩
    refine ⟨before, comment, hcomment, body, hbody, args, hargs, inner, rest, hinner, ?_⟩
    rw [if_neg (by simpa using hne)]

/-- What is read of a comment is what is written in it. -/
theorem written_of_read {body args rest : List Char}
    (hbody : after? "goarch-lint:".toList (trim comment) = some body)
    (hargs : after? "allow(".toList (trim body) = some args)
    (hinner : cut? [')'] (trim args) = some (inner, rest)) :
    ∃ front, (∀ c ∈ front, isBlank c = true) ∧ Written ("//".toList ++ comment) (front ++ inner) := by
  rw [after?_eq_some_iff] at hbody hargs
  rw [cut?_singleton_iff] at hinner
  obtain ⟨hinner, hclosed⟩ := hinner
  obtain ⟨gap, behind, hcomment, hgap, -⟩ := exists_trim comment
  obtain ⟨between, behind', hbetween, hblank, -⟩ := exists_trim body
  obtain ⟨front, behind'', hfront, hblank', -⟩ := exists_trim args
  refine ⟨front, hblank', ⟨gap, between, rest ++ (behind'' ++ (behind' ++ behind)), ?_, hgap, hblank⟩, ?_⟩
  · rw [hcomment, hbody, hbetween, hargs, hfront, hinner]
    simp only [List.append_assoc, List.cons_append]
  · intro hmem
    rcases List.mem_append.mp hmem with hmem | hmem
    · exact absurd (hblank' _ hmem) (by decide)
    · exact hclosed hmem

/-- Trimming stops at the first character that is no blank and goes no further back than the
last one. -/
theorem trim_between {c e : Char} (hp : ∀ c ∈ p, isBlank c = true) (hc : isBlank c = false)
    (he : isBlank e = false) (m rest : List Char) :
    trim (p ++ (c :: m ++ e :: rest)) = c :: m ++ e :: trimRight isBlank rest := by
  rw [trim_append_of_blank hp, trim_append_cons he, List.dropWhile_cons_of_neg (by simp [hc])]

/-- Of a comment in the form of a directive the list of names is read, and what stands behind it
without the blanks at the end. -/
theorem read_of_form {gap between rest : List Char} (hgap : ∀ c ∈ gap, isBlank c = true)
    (hbetween : ∀ c ∈ between, isBlank c = true) (hclosed : ')' ∉ listed)
    (hform : comment = gap ++ ("goarch-lint:".toList ++
      (between ++ ("allow(".toList ++ (listed ++ ')' :: rest))))) : ∃ body args,
    after? "goarch-lint:".toList (trim comment) = some body ∧
    after? "allow(".toList (trim body) = some args ∧
    cut? [')'] (trim args) = some (listed.dropWhile isBlank,
      trimRight isBlank (trimRight isBlank (trimRight isBlank rest))) := by
  have hclose : isBlank ')' = false := by decide
  let tail := trimRight isBlank rest
  let args := listed ++ ')' :: trimRight isBlank tail
  refine ⟨between ++ ("allow(".toList ++ (listed ++ ')' :: tail)), args, ?_, ?_, ?_⟩
  · have htrim := trim_between hgap (by decide : isBlank 'g' = false) hclose
      ("oarch-lint:".toList ++ (between ++ ("allow(".toList ++ listed))) rest
    rw [after?_eq_some_iff, hform]
    simpa [tail] using htrim
  · have htrim := trim_between hbetween (by decide : isBlank 'a' = false) hclose
      ("llow(".toList ++ listed) tail
    rw [after?_eq_some_iff]
    simpa [args] using htrim
  · rw [trim_append_cons hclose, cut?_singleton_iff]
    exact ⟨rfl, fun hmem => hclosed (List.dropWhile_sublist _ |>.subset hmem)⟩

/-- What is written in a comment is read. -/
theorem read_of_written (h : Written ("//".toList ++ comment) listed) : ∃ body args rest,
    after? "goarch-lint:".toList (trim comment) = some body ∧
    after? "allow(".toList (trim body) = some args ∧
    cut? [')'] (trim args) = some (listed.dropWhile isBlank, rest) := by
  obtain ⟨⟨gap, between, rest, hform, hgap, hbetween⟩, hclosed⟩ := h
  obtain ⟨body, args, hbody, hargs, hinner⟩ :=
    read_of_form hgap hbetween hclosed (List.append_cancel_left hform)
  exact ⟨body, args, _, hbody, hargs, hinner⟩

@[simp] theorem names_dropWhile (inner : List Char) :
    names (inner.dropWhile isBlank) = names inner := by
  have hsame := names_append_of_blank (fun c hc => List.mem_takeWhile_imp (l := inner) hc)
    (inner.dropWhile isBlank)
  rwa [List.takeWhile_append_dropWhile, eq_comm] at hsame

/-- A line silences a rule if what stands from its first two slashes on allows the rule. -/
theorem silences_iff : Silences line rule ↔ ∃ before comment,
    cut? "//".toList line = some (before, comment) ∧ Allows ("//".toList ++ comment) rule := by
  have hcovers : ∀ inner r, (⟨names inner, r⟩ : Directive).covers rule = true ↔
      ∃ name ∈ (splitAt (· == ',') inner).map trim, name ≠ [] ∧
        (String.ofList name = rule ∨ String.ofList name = "all") := by
    intro inner r
    simp only [covers, Bool.or_eq_true, List.contains_iff_mem, mem_names, ← exists_or, ← and_or_left]
  constructor
  · rintro ⟨d, hd, hcover⟩
    obtain ⟨before, comment, body, args, inner, rest, hcomment, hbody, hargs, hinner, -, rfl⟩ :=
      ofLine?_eq_some_iff.mp hd
    obtain ⟨front, hblank, hwritten⟩ := written_of_read hbody hargs hinner
    rw [← names_append_of_blank hblank inner] at hcover
    exact ⟨before, comment, hcomment, front ++ inner, hwritten, (hcovers _ _).mp hcover⟩
  · rintro ⟨before, comment, hcomment, listed, hwritten, hname⟩
    obtain ⟨body, args, rest, hbody, hargs, hinner⟩ := read_of_written hwritten
    refine ⟨_, ofLine?_eq_some_iff.mpr
      ⟨before, comment, body, args, _, rest, hcomment, hbody, hargs, hinner, ?_, rfl⟩, ?_⟩
    · obtain ⟨name, hmem, hne, -⟩ := hname
      rw [names_dropWhile]
      exact List.ne_nil_of_mem (mem_names.mpr ⟨name, hmem, hne, rfl⟩)
    · rw [names_dropWhile]
      exact (hcovers listed _).mpr hname

/-- A carriage return at the end of a line is no part of a directive. -/
@[simp] theorem ofLine?_append_return (line : List Char) :
    ofLine? (line ++ ['\r']) = ofLine? line := by
  unfold ofLine?
  rw [cut?_append_singleton (by decide) (by decide)]
  cases cut? "//".toList line with
  | none => rfl
  | some cut =>
    have htrim : trim (cut.2 ++ ['\r']) = trim cut.2 := trim_append_singleton (by decide)
    simp only [Option.map_some, Option.bind_eq_bind, Option.bind_some, htrim]

end Directive

end Lintel
