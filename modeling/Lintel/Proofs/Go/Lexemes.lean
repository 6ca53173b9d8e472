import Lintel.Go.Token
import Mathlib.Data.List.Pairwise
import Mathlib.Data.List.TakeWhile

/-!
# Places of lexemes

Lexemes stand in a text one behind another, and their ranges count the bytes before them. A line
comment begins with two slashes and takes the rest of its line.
-/

namespace Lintel.Go

open Lintel.Text

/-- Two slashes with all that follows them on their line, and the text from its end on. -/
structure RestOfLine (comment after : List Char) : Prop where
  slashes : ∃ body, comment = "//".toList ++ body
  clean : '\n' ∉ comment
  ends : after = [] ∨ ∃ back, after = '\n' :: back

/-- A lexeme at its place in a text. -/
structure Lexeme.StandsIn (l : Lexeme) (cs before after : List Char) : Prop where
  text : cs = before ++ l.text.toList ++ after
  start : l.span.start = byteLength (String.ofList before)
  stop : l.span.stop = byteLength (String.ofList (before ++ l.text.toList))
  comment : l.kind = .lineComment → RestOfLine l.text.toList after

/-- The line comments of a text; one that cannot be cut into lexemes has none. -/
def lineComments (text : String) : List Lexeme :=
  ((lex text).getD []).filter (·.kind == .lineComment)

/-! ### One lexeme -/

section Scan

variable {c : Char} {cs rest : List Char} {kind : LexemeKind} {n : Nat}

private theorem kind_of_scanNumber (h : scanNumber cs = some (kind, n)) :
    ∃ token, kind = .token token := by
  unfold scanNumber at h
  dsimp only at h
  split at h
  · exact ⟨.imaginary, (congrArg Prod.fst (Option.some.inj h)).symm⟩
  split at h
  · exact ⟨.float, (congrArg Prod.fst (Option.some.inj h)).symm⟩
  split at h
  · exact ⟨.int, (congrArg Prod.fst (Option.some.inj h)).symm⟩
  · cases h

private theorem kind_of_scanOperator (h : scanOperator cs = some (kind, n)) :
    ∃ token, kind = .token token := by
  obtain ⟨op, -, heq⟩ := Option.map_eq_some_iff.mp h
  exact ⟨.symbol, (congrArg Prod.fst heq).symm⟩

/-- Only two slashes begin a line comment. -/
theorem scanLexeme_lineComment (h : scanLexeme (c :: rest) = some (.lineComment, n)) :
    c = '/' ∧ rest.head? = some '/' ∧ n = 1 + (rest.takeWhile (· != '\n')).length := by
  have hmap : ∀ {o : Option Nat} {f : Nat → LexemeKind × Nat}, (∀ k, (f k).1 ≠ .lineComment) →
      o.map f ≠ some (.lineComment, n) := by
    intro o f hf heq
    obtain ⟨k, -, heq⟩ := Option.map_eq_some_iff.mp heq
    exact hf k (by rw [heq])
  have hnumber : ∀ cs, scanNumber cs ≠ some (.lineComment, n) := fun cs heq => by
    obtain ⟨_, hkind⟩ := kind_of_scanNumber heq
    cases hkind
  have hoperator : ∀ cs, scanOperator cs ≠ some (.lineComment, n) := fun cs heq => by
    obtain ⟨_, hkind⟩ := kind_of_scanOperator heq
    cases hkind
  rw [scanLexeme] at h
  obtain ⟨-, h⟩ := (ite_eq_iff.mp h).resolve_left fun h => absurd h.2 (by simp)
  obtain ⟨-, h⟩ := (ite_eq_iff.mp h).resolve_left fun h => absurd h.2 (by simp)
  obtain ⟨-, h⟩ := (ite_eq_iff.mp h).resolve_left fun h => absurd h.2 (by simp)
  obtain ⟨-, h⟩ := (ite_eq_iff.mp h).resolve_left fun h => hnumber _ h.2
  obtain ⟨-, h⟩ := (ite_eq_iff.mp h).resolve_left fun h => absurd h.2 (hmap (by simp))
  obtain ⟨-, h⟩ := (ite_eq_iff.mp h).resolve_left fun h => absurd h.2 (hmap (by simp))
  obtain ⟨-, h⟩ := (ite_eq_iff.mp h).resolve_left fun h => absurd h.2 (hmap (by simp))
  rcases ite_eq_iff.mp h with ⟨⟨hc, hhead⟩, h⟩ | ⟨-, h⟩
  · exact ⟨hc, hhead, (congrArg Prod.snd (Option.some.inj h)).symm⟩
  obtain ⟨-, h⟩ := (ite_eq_iff.mp h).resolve_left fun h => absurd h.2 (hmap (by simp))
  rcases ite_eq_iff.mp h with ⟨-, h⟩ | ⟨-, h⟩
  · rcases Option.or_eq_some_iff.mp h with h | ⟨-, h⟩
    · exact absurd h (hnumber _)
    · exact absurd h (hoperator _)
  · exact absurd h (hoperator _)

/-- A line comment is the rest of its line. -/
theorem restOfLine_of_scanLexeme (h : scanLexeme (c :: rest) = some (.lineComment, n + 1)) :
    RestOfLine (c :: rest.take n) (rest.drop n) := by
  obtain ⟨rfl, hhead, hlength⟩ := scanLexeme_lineComment h
  have hbody : ∀ d ∈ rest.takeWhile (· != '\n'), d ≠ '\n' := fun d hd => by
    simpa using List.mem_takeWhile_imp hd
  have hback := List.head?_dropWhile_not (· != '\n') rest
  have hrest : rest.takeWhile (· != '\n') ++ rest.dropWhile (· != '\n') = rest :=
    List.takeWhile_append_dropWhile
  generalize rest.takeWhile (· != '\n') = body at *
  generalize rest.dropWhile (· != '\n') = back at *
  subst hrest
  obtain rfl : n = body.length := by omega
  rw [List.take_left, List.drop_left]
  have hends : back = [] ∨ ∃ more, back = '\n' :: more := by
    cases back with
    | nil => exact .inl rfl
    | cons d more => exact .inr ⟨more, by simpa using hback⟩
  refine ⟨?_, ?_, hends⟩
  · cases body with
    | nil =>
      rcases hends with rfl | ⟨more, rfl⟩ <;> cases hhead
    | cons d body =>
      obtain rfl := Option.some.inj hhead
      exact ⟨body, rfl⟩
  · intro hmem
    rcases List.mem_cons.mp hmem with heq | hmem
    · exact absurd heq (by decide)
    · exact hbody _ hmem rfl

end Scan

/-! ### All lexemes -/

section Lex

variable {front cs : List Char} {ls : List Lexeme} {text : String}

private theorem byteCount_eq (cs : List Char) : byteCount cs = byteLength (String.ofList cs) := by
  have hadd : ∀ (cs : List Char) (count : Nat),
      cs.foldl (fun count c => count + c.utf8Size) count = count + byteLength (String.ofList cs) := by
    intro cs
    induction cs with
    | nil => simp
    | cons c cs ih =>
      intro count
      rw [List.foldl_cons, ih]
      simp [Nat.add_assoc]
  rw [byteCount, hadd, Nat.zero_add]

/-- Lexemes behind the front of a text stand in the text, in order and apart. -/
theorem lexFrom_spec (h : lexFrom (byteLength (String.ofList front)) cs = some ls) :
    (∀ l ∈ ls, ∃ before after, l.StandsIn (front ++ cs) before after ∧
      byteLength (String.ofList front) ≤ l.span.start) ∧
    ls.Pairwise (·.span.stop ≤ ·.span.start) := by
  generalize hoffset : byteLength (String.ofList front) = offset at h
  fun_induction lexFrom offset cs generalizing front ls with
  | case1 =>
    obtain rfl := Option.some.inj h
    exact ⟨fun l hl => absurd hl List.not_mem_nil, .nil⟩
  | case2 => cases h
  | case3 => cases h
  | case4 offset c rest kind n hscan word =>
    rename_i stop ih
    obtain ⟨later, hlater, rfl⟩ := Option.map_eq_some_iff.mp h
    have hstop : byteLength (String.ofList (front ++ word)) = stop := by
      rw [String.ofList_append, byteLength, String.utf8ByteSize_append]
      exact congrArg₂ _ hoffset (byteCount_eq word).symm
    have hrest : front ++ c :: rest = front ++ word ++ rest.drop n := by
      simp [word]
    obtain ⟨hplaced, hapart⟩ := ih hstop hlater
    have hle : offset ≤ stop := Nat.le_add_right _ _
    refine ⟨List.forall_mem_cons.mpr
      ⟨⟨front, rest.drop n, ⟨?_, hoffset.symm, ?_, ?_⟩, Nat.le_refl offset⟩, ?_⟩,
      List.pairwise_cons.mpr ⟨?_, hapart⟩⟩
    · simpa using hrest
    · simpa using hstop.symm
    · rintro rfl
      simpa using restOfLine_of_scanLexeme hscan
    · intro l hl
      obtain ⟨before, after, hstands, hbehind⟩ := hplaced l hl
      rw [hrest]
      exact ⟨before, after, hstands, by omega⟩
    · intro l hl
      obtain ⟨_, _, _, hbehind⟩ := hplaced l hl
      exact hstop ▸ hbehind

/-- Lexemes of a text stand in it, in order and apart. -/
theorem lex_spec (h : lex text = some ls) :
    (∀ l ∈ ls, ∃ before after, l.StandsIn text.toList before after) ∧
    ls.Pairwise (·.span.stop ≤ ·.span.start) := by
  have hfrom : ∀ front cs : List Char, lexFrom (byteLength (String.ofList front)) cs = some ls →
      front ++ cs = text.toList → (∀ l ∈ ls, ∃ before after, l.StandsIn text.toList before after) ∧
        ls.Pairwise (·.span.stop ≤ ·.span.start) := by
    intro front cs h heq
    obtain ⟨hplaced, hapart⟩ := lexFrom_spec h
    refine ⟨fun l hl => ?_, hapart⟩
    obtain ⟨before, after, hstands, -⟩ := hplaced l hl
    exact ⟨before, after, heq ▸ hstands⟩
  unfold lex at h
  split at h
  · rename_i c rest htext
    split at h
    · exact hfrom [c] rest (by simpa using h) htext.symm
    · exact hfrom [] (c :: rest) h htext.symm
  · rename_i htext
    exact hfrom [] [] (by simpa [lexFrom] using h) htext.symm

variable {c d : Lexeme}

/-- A line comment of a text is the rest of a line of it. -/
theorem stands_of_mem_lineComments (h : c ∈ lineComments text) :
    ∃ before after, c.StandsIn text.toList before after ∧ RestOfLine c.text.toList after := by
  obtain ⟨hmem, hkind⟩ := List.mem_filter.mp h
  cases hlex : lex text with
  | none =>
    rw [hlex] at hmem
    cases hmem
  | some ls =>
    rw [hlex] at hmem
    obtain ⟨before, after, hstands⟩ := (lex_spec hlex).1 c hmem
    exact ⟨before, after, hstands, hstands.comment (by simpa using hkind)⟩

theorem apart_of_mem_lineComments (hc : c ∈ lineComments text) (hd : d ∈ lineComments text) :
    c = d ∨ c.span.stop ≤ d.span.start ∨ d.span.stop ≤ c.span.start := by
  have hpairs : (lineComments text).Pairwise (·.span.stop ≤ ·.span.start) := by
    refine List.Pairwise.filter _ ?_
    cases hlex : lex text with
    | none => exact .nil
    | some ls => exact (lex_spec hlex).2
  exact List.Pairwise.forall_of_forall_of_flip
    (R := fun a b => a = b ∨ a.span.stop ≤ b.span.start ∨ b.span.stop ≤ a.span.start)
    (fun _ _ => .inl rfl) (hpairs.imp fun h => .inr (.inl h)) (hpairs.imp fun h => .inr (.inr h))
    hc hd

end Lex

end Lintel.Go
