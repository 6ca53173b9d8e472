import Lintel.Proofs.Allowance.Directives
import Lintel.Proofs.Text.Lines

/-!
# The lines that count

The directives of a line and of the line before it tell whether a rule is silenced there. Both
are lines between newlines, found by the number that an offset has in the line index.
-/

namespace Lintel

open Lintel.Text

@[simp] theorem Directive.ofLine?_withoutReturn (line : List Char) :
    ofLine? (withoutReturn line) = ofLine? line := by
  rcases eq_withoutReturn line with heq | heq
  · rw [← heq]
  · rw [heq, ofLine?_append_return, ← heq]

namespace Allowance

variable {content rule : String} {before line after prev : List Char} {offset n : Nat}

/-- The directive of the line behind a number of newlines. -/
def directiveAt? (content : String) (i : Nat) : Option Directive :=
  (splitAt (· == '\n') content.toList)[i]?.bind Directive.ofLine?

/-- The allowance that the first of some directives for a rule gives. -/
def give (rule : String) (directives : List Directive) : Allowance :=
  match directives.find? (·.covers rule) with
  | some d => .allowed d.reason
  | none => .denied

private theorem filterMap_physicalLine (content : String) (i : Nat) :
    (physicalLines content.toList)[i]?.toList.filterMap Directive.ofLine? =
      (directiveAt? content i).toList := by
  have hbind : (physicalLines content.toList)[i]?.bind Directive.ofLine? = directiveAt? content i :=
    bind_getElem?_physicalLines Directive.ofLine?_append_return rfl _ _
  rw [← hbind]
  cases (physicalLines content.toList)[i]? with
  | none => rfl
  | some line => cases hline : Directive.ofLine? line <;> simp [hline]

private theorem check_one (content rule : String) :
    check content 1 rule = give rule (directiveAt? content 0).toList := by
  have htake : (physicalLines content.toList).take 1 = (physicalLines content.toList)[0]?.toList :=
    List.take_add_one
  rw [← filterMap_physicalLine, ← htake]
  rfl

private theorem check_add_two (content rule : String) (i : Nat) : check content (i + 2) rule =
    give rule ((directiveAt? content i).toList ++ (directiveAt? content (i + 1)).toList) := by
  have htake : ((physicalLines content.toList).drop i).take 2 =
      (physicalLines content.toList)[i]?.toList ++ (physicalLines content.toList)[i + 1]?.toList := by
    rw [List.take_add_one, List.take_add_one]
    simp
  rw [← filterMap_physicalLine, ← filterMap_physicalLine, ← List.filterMap_append, ← htake]
  rfl

private theorem isAllowed_give_iff {directives : List Directive} :
    (give rule directives).isAllowed = true ↔ ∃ d ∈ directives, d.covers rule = true := by
  rw [← List.find?_isSome, give]
  cases directives.find? (·.covers rule) with
  | none => simp [isAllowed]
  | some d => simp [isAllowed]

private theorem give_cons_of_covers {d : Directive} (h : d.covers rule = true)
    (rest : List Directive) :
    give rule (d :: rest) = .allowed d.reason := by
  simp [give, h]

private theorem give_append_of_not_covers {first : List Directive}
    (h : ∀ d ∈ first, ¬ d.covers rule = true) (rest : List Directive) :
    give rule (first ++ rest) = give rule rest := by
  rw [give, List.find?_append, List.find?_eq_none.mpr h, Option.none_or, give]

/-- A rule is silenced on a line by that line or the one before it. -/
theorem isAllowed_check_iff : (check content n rule).isAllowed = true ↔
    ∃ i, (i + 1 = n ∨ i + 2 = n) ∧
      ∃ line, (splitAt (· == '\n') content.toList)[i]? = some line ∧
        Directive.Silences line rule := by
  have hline : ∀ i, (∃ line, (splitAt (· == '\n') content.toList)[i]? = some line ∧
      Directive.Silences line rule) ↔ ∃ d ∈ (directiveAt? content i).toList, d.covers rule = true := by
    intro i
    simp only [Directive.Silences, directiveAt?, Option.mem_toList, Option.bind_eq_some_iff]
    exact ⟨fun ⟨line, hi, d, hd, hcovers⟩ => ⟨d, ⟨line, hi, hd⟩, hcovers⟩,
      fun ⟨d, ⟨line, hi, hd⟩, hcovers⟩ => ⟨line, hi, d, hd, hcovers⟩⟩
  simp only [hline]
  rcases n with _ | _ | n
  · simp [check, linesFor, isAllowed]
  · simp [check_one, isAllowed_give_iff]
  · rw [check_add_two, isAllowed_give_iff]
    constructor
    · rintro ⟨d, hd, hcovers⟩
      rcases List.mem_append.mp hd with hd | hd
      · exact ⟨n, .inr rfl, d, hd, hcovers⟩
      · exact ⟨n + 1, .inl rfl, d, hd, hcovers⟩
    · rintro ⟨i, hi, d, hd, hcovers⟩
      refine ⟨d, List.mem_append.mpr ?_, hcovers⟩
      rcases hi with hi | hi
      · obtain rfl : i = n + 1 := by omega
        exact .inr hd
      · obtain rfl : i = n := by omega
        exact .inl hd

/-! ### The line of an offset -/

/-- The line that a newline at the end of a text ends. -/
def LastLine (cs line : List Char) : Prop :=
  ∃ front, IsLine cs front line ['\n']

/-- What a rule is told on a line with a text before it: it is silenced by a directive on that
line or on the line before, and the reason is that of the earlier one. -/
structure Settles (allowance : Allowance) (rule : String) (before line : List Char) : Prop where
  allowed_iff : allowance.isAllowed = true ↔
    (∃ prev, LastLine before prev ∧ Directive.Silences (withoutReturn prev) rule) ∨
      Directive.Silences (withoutReturn line) rule
  reason_before : ∀ prev d, LastLine before prev →
    Directive.ofLine? (withoutReturn prev) = some d → d.covers rule = true →
      allowance = .allowed d.reason
  reason_here : (∀ prev, LastLine before prev → ¬ Directive.Silences (withoutReturn prev) rule) →
    ∀ d, Directive.ofLine? (withoutReturn line) = some d → d.covers rule = true →
      allowance = .allowed d.reason

private theorem directiveAt?_of_isLine (h : IsLine content.toList before line after) :
    directiveAt? content (before.count '\n') = Directive.ofLine? line := by
  rw [directiveAt?, getElem?_splitAt_of_isLine h, Option.bind_some]

private theorem eq_nil_or_lastLine (h : before = [] ∨ ∃ front, before = front ++ ['\n']) :
    before = [] ∨ ∃ prev, LastLine before prev := by
  refine h.imp_right ?_
  rintro ⟨front, rfl⟩
  obtain ⟨start, prev, rfl, hstarts, hclean⟩ := exists_line_start front
  exact ⟨prev, start, rfl, hclean, hstarts, .inr ⟨[], rfl⟩⟩

/-- The line before a line of a text is a line of the text. -/
theorem directiveAt?_of_lastLine (h : IsLine content.toList before line after) {i : Nat}
    (hi : before.count '\n' = i + 1) (hprev : LastLine before prev) :
    directiveAt? content i = Directive.ofLine? prev := by
  obtain ⟨front, rfl, hclean, hstarts, -⟩ := hprev
  have hline : IsLine content.toList front prev ('\n' :: (line ++ after)) :=
    ⟨by rw [h.text]; simp, hclean, hstarts, .inr ⟨_, rfl⟩⟩
  obtain rfl : front.count '\n' = i := by
    simpa [List.count_append, List.count_eq_zero.mpr hclean] using hi
  exact directiveAt?_of_isLine hline

/-- The directive of the line before, if there is one, and that of the line settle the matter. -/
theorem settles_give {previous : Option Directive} (hprevious : ∀ d, previous = some d ↔
      ∃ prev, LastLine before prev ∧ Directive.ofLine? prev = some d) (rule : String) :
    Settles (give rule (previous.toList ++ (Directive.ofLine? line).toList)) rule before line := by
  have hbefore : (∃ prev, LastLine before prev ∧ Directive.Silences (withoutReturn prev) rule) ↔
      ∃ d ∈ previous.toList, d.covers rule = true := by
    simp only [Option.mem_toList, hprevious, Directive.Silences, Directive.ofLine?_withoutReturn]
    exact ⟨fun ⟨prev, hprev, d, hd, hcovers⟩ => ⟨d, ⟨prev, hprev, hd⟩, hcovers⟩,
      fun ⟨d, ⟨prev, hprev, hd⟩, hcovers⟩ => ⟨prev, hprev, d, hd, hcovers⟩⟩
  refine ⟨?_, fun prev d hprev hd hcovers => ?_, fun hquiet d hd hcovers => ?_⟩
  · rw [isAllowed_give_iff, hbefore]
    simp only [List.mem_append, or_and_right, exists_or, Directive.Silences,
      Directive.ofLine?_withoutReturn, Option.mem_toList]
  · rw [Directive.ofLine?_withoutReturn] at hd
    rw [(hprevious d).mpr ⟨prev, hprev, hd⟩, Option.toList_some, List.singleton_append,
      give_cons_of_covers hcovers]
  · rw [Directive.ofLine?_withoutReturn] at hd
    have hskip : ∀ d ∈ previous.toList, ¬ d.covers rule = true := fun d hd hcovers => by
      obtain ⟨prev, hprev, hsilences⟩ := hbefore.mpr ⟨d, hd, hcovers⟩
      exact hquiet prev hprev hsilences
    rw [give_append_of_not_covers hskip, hd, Option.toList_some, give_cons_of_covers hcovers]

private theorem settles_of_holdsOffset (h : HoldsOffset content offset before line after)
    (rule : String) :
    Settles (check content ((LineIndex.ofText content).lineCol offset).1 rule) rule before line := by
  have hhere := directiveAt?_of_isLine h.toIsLine
  rw [lineCol_of_holdsOffset h]
  rcases eq_nil_or_lastLine h.starts with rfl | ⟨prev, hprev⟩
  · have hnone : ∀ prev, ¬ LastLine [] prev := fun prev ⟨front, hline⟩ => by simpa using hline.text
    have hprevious : ∀ d, (none : Option Directive) = some d ↔
        ∃ prev, LastLine [] prev ∧ Directive.ofLine? prev = some d := by simp [hnone]
    rw [List.count_nil] at hhere ⊢
    rw [check_one, hhere]
    exact settles_give hprevious rule
  · obtain ⟨i, hi⟩ : ∃ i, before.count '\n' = i + 1 := by
      obtain ⟨front, rfl, -⟩ := hprev
      exact ⟨(front ++ prev).count '\n', by rw [List.count_append]; rfl⟩
    rw [hi] at hhere ⊢
    rw [check_add_two, hhere]
    refine settles_give (fun d => ⟨fun hd => ⟨prev, hprev, ?_⟩, fun ⟨other, hother, hd⟩ => ?_⟩) rule
    · rw [← directiveAt?_of_lastLine h.toIsLine hi hprev, hd]
    · rw [directiveAt?_of_lastLine h.toIsLine hi hother, hd]

/-- Whether a rule is silenced at an offset, and why, is told by the directives of the line that
holds the offset and of the line before it. Nothing is silenced on line zero. -/
theorem check_lineCol (content rule : String) : check content 0 rule = .denied ∧
    ∀ offset ≤ byteLength content, ∃ before line after,
      HoldsOffset content offset before line after ∧
      (∀ before' line' after', HoldsOffset content offset before' line' after' →
        before = before' ∧ line = line' ∧ after = after') ∧
      ((LineIndex.ofText content).lineCol offset).1 = before.count '\n' + 1 ∧
      Settles (check content ((LineIndex.ofText content).lineCol offset).1 rule) rule before line := by
  refine ⟨rfl, fun offset hle => ?_⟩
  obtain ⟨before, line, after, hholds⟩ := exists_holdsOffset hle
  exact ⟨before, line, after, hholds, fun _ _ _ hother => hholds.unique hother,
    lineCol_of_holdsOffset hholds, settles_of_holdsOffset hholds rule⟩

/-- Two directives for one rule, the first with a reason, on lines that end in two characters. -/
def returnedText : String :=
  "//goarch-lint:allow(a) reason=\"\u00e9\"\r\n//goarch-lint:allow(a)\r\n"

/-- Within the character of the reason, and on the next line, the reason is given. At the end of
the text, behind the last newline, the rule is silenced without one. -/
theorem check_lineCol_returnedText :
    (∃ before line after, HoldsOffset returnedText 32 before line after ∧
      Settles (.allowed (some "\u00e9")) "a" before line) ∧
    (∃ before line after, HoldsOffset returnedText 40 before line after ∧
      Settles (.allowed (some "\u00e9")) "a" before line) ∧
    ∃ before line after, HoldsOffset returnedText (byteLength returnedText) before line after ∧
      Settles (.allowed none) "a" before line := by
  have hchecks : byteLength returnedText = 60 ∧
      check returnedText ((LineIndex.ofText returnedText).lineCol 32).1 "a" =
        .allowed (some "\u00e9") ∧
      check returnedText ((LineIndex.ofText returnedText).lineCol 40).1 "a" =
        .allowed (some "\u00e9") ∧
      check returnedText ((LineIndex.ofText returnedText).lineCol 60).1 "a" = .allowed none := by
    decide +kernel
  obtain ⟨hlength, hwithin, hnext, hend⟩ := hchecks
  have hat : ∀ offset ≤ 60, ∀ allowance,
      check returnedText ((LineIndex.ofText returnedText).lineCol offset).1 "a" = allowance →
        ∃ before line after, HoldsOffset returnedText offset before line after ∧
          Settles allowance "a" before line := by
    rintro offset hle _ rfl
    obtain ⟨before, line, after, hholds, -, -, hsettles⟩ :=
      (check_lineCol returnedText "a").2 offset (hlength ▸ hle)
    exact ⟨before, line, after, hholds, hsettles⟩
  rw [hlength]
  exact ⟨hat 32 (by decide) _ hwithin, hat 40 (by decide) _ hnext, hat 60 (by decide) _ hend⟩

end Allowance

end Lintel
