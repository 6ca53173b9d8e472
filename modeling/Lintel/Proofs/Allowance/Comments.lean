import Lintel.Go.Lowering
import Lintel.Proofs.Allowance.Lines
import Lintel.Proofs.Except
import Lintel.Proofs.Go.Lexemes
import Lintel.Rules.Errors

/-!
# Line comments and allowances

The directive of a line is read from its first two slashes. As long as a line with the mark of a
directive has two slashes in line comments only, these begin the line comment of the line, and the
allowances of a line are those of its line comment.
-/

namespace Lintel

open Lintel.Text Lintel.Go

/-- Whether a marker stands on a line of a text. -/
def StandsOn (text marker : String) (line : Nat) : Prop :=
  ∃ offset, slice? text offset (offset + byteLength marker) = some marker ∧
    ((LineIndex.ofText text).lineCol offset).1 = line

/-- On a line of a text, two slashes stand in line comments only. -/
def SlashesInComments (text : String) (line : Nat) : Prop :=
  ∀ offset, slice? text offset (offset + 2) = some "//" →
    ((LineIndex.ofText text).lineCol offset).1 = line →
      ∃ c ∈ lineComments text, c.span.start ≤ offset ∧ offset + 2 ≤ c.span.stop

/-! ### The comment of a line -/

section Comments

variable {text rule : String} {before line after front back p tail : List Char} {c : Lexeme}
  {i : Nat}

private theorem start_lt_stop_of_stands (h : c.StandsIn text.toList front back)
    (htext : c.text.toList = "//".toList ++ tail) : c.span.start < c.span.stop := by
  have htwo : byteLength (String.ofList "//".toList) = 2 := rfl
  rw [h.start, h.stop, htext, byteLength_ofList_append, byteLength_ofList_append]
  omega

/-- A line comment that begins before a place of a line, with no newline in between, ends the
line. -/
theorem line_of_stands {m : List Char} (hline : IsLine text.toList before line after)
    (hstands : c.StandsIn text.toList front back) (hrest : RestOfLine c.text.toList back)
    (hfront : before ++ p = front ++ m) (hp : '\n' ∉ p) (hm : '\n' ∉ m) :
    ∃ q, front = before ++ q ∧ p = q ++ m ∧ line = q ++ c.text.toList ∧ after = back := by
  obtain ⟨q, rfl, hq⟩ := exists_of_append_eq hfront hline.starts hm
  have hqnone : '\n' ∉ q := fun hmem => hp (by rw [hq]; exact List.mem_append_left _ hmem)
  have hcancel : line ++ after = q ++ c.text.toList ++ back := by
    have hboth := hline.text.symm.trans hstands.text
    simp only [List.append_assoc] at hboth ⊢
    exact List.append_cancel_left hboth
  obtain rfl : line = q ++ c.text.toList := append_inj_of_line hcancel hline.clean
    (fun hmem => (List.mem_append.mp hmem).elim hqnone hrest.clean) hline.ends hrest.ends
  exact ⟨q, rfl, hq, rfl, List.append_cancel_left hcancel⟩

/-- The first two slashes of a line begin a line comment. -/
theorem exists_lineComment_of_cut? (hline : IsLine text.toList before line after)
    (hslashes : SlashesInComments text (before.count '\n' + 1))
    (hcut : cut? "//".toList line = some (p, tail)) :
    ∃ c ∈ lineComments text, c.StandsIn text.toList (before ++ p) after ∧
      c.text.toList = "//".toList ++ tail := by
  obtain ⟨hform, hfirst⟩ := cut?_eq_some_iff.mp hcut
  have hp : '\n' ∉ p := fun hmem => hline.clean (by rw [hform]; simp [hmem])
  have hplace : text.toList = (before ++ p) ++ ("//".toList ++ (tail ++ after)) := by
    rw [hline.text, hform]
    simp only [List.append_assoc]
  obtain ⟨c, hc, hstart, hstop⟩ :=
    hslashes _ (slice?_of_toList hplace) (lineCol_of_line hplace hp)
  obtain ⟨front, back, hstands, hrest⟩ := stands_of_mem_lineComments hc
  obtain ⟨body, hbody⟩ := hrest.slashes
  rw [hstands.start] at hstart
  rw [hstands.stop] at hstop
  have hsame := hstands.text.symm.trans hplace
  rw [List.append_assoc] at hsame
  obtain ⟨m, hfront, hbehind⟩ := toList_append_eq_append_of_le hsame hstart
  -- The comment reaches past the slashes, and no newline is in it.
  have hm : '\n' ∉ m := fun hmem => hrest.clean <| by
    obtain ⟨inner, hinner, -⟩ : ∃ inner, c.text.toList = (m ++ "//".toList) ++ inner ∧
        tail ++ after = inner ++ back := by
      refine toList_append_eq_append_of_le (by rw [hbehind, List.append_assoc]) ?_
      rw [hfront] at hstop
      simp only [byteLength_ofList_append] at hstop ⊢
      have htwo : byteLength (String.ofList "//".toList) = 2 := rfl
      omega
    rw [hinner]
    simp [hmem]
  obtain ⟨q, rfl, hq, rfl, rfl⟩ := line_of_stands hline hstands hrest hfront hp hm
  -- It begins with the slashes, since there are none before.
  have hle := hfirst q body (by rw [hbody, List.append_assoc])
  obtain rfl : m = [] := by
    rw [hq, List.length_append] at hle
    exact List.eq_nil_of_length_eq_zero (by omega)
  obtain rfl : p = q := by simpa using hq
  rw [List.append_assoc] at hform
  exact ⟨c, hc, hstands, List.append_cancel_left hform⟩

/-- The line of a line comment is cut at the comment. -/
theorem exists_cut?_of_mem_lineComments (hc : c ∈ lineComments text)
    (hslashes : SlashesInComments text ((LineIndex.ofText text).lineCol c.span.start).1) :
    ∃ before line after p tail, IsLine text.toList before line after ∧
      ((LineIndex.ofText text).lineCol c.span.start).1 = before.count '\n' + 1 ∧
      cut? "//".toList line = some (p, tail) ∧ c.text.toList = "//".toList ++ tail := by
  obtain ⟨front, after, hstands, ⟨body, hbody⟩, hnone, hends⟩ := stands_of_mem_lineComments hc
  obtain ⟨before, inner, rfl, hstarts, hclean⟩ := exists_line_start front
  have hline : IsLine text.toList before (inner ++ c.text.toList) after :=
    ⟨by rw [hstands.text]; simp only [List.append_assoc],
      fun hmem => (List.mem_append.mp hmem).elim hclean hnone, hstarts, hends⟩
  have hcount : ((LineIndex.ofText text).lineCol c.span.start).1 = before.count '\n' + 1 := by
    rw [hstands.start, lineCol_of_line (by rw [hstands.text, List.append_assoc]) hclean]
  have hslash : inner ++ c.text.toList = inner ++ "//".toList ++ body := by
    rw [hbody, List.append_assoc]
  obtain ⟨p, tail, hcut⟩ := exists_cut? hslash
  obtain ⟨d, hd, hdstands, hdtext⟩ := exists_lineComment_of_cut? hline (hcount ▸ hslashes) hcut
  -- Both comments reach the end of the line, so they are one.
  have hstop : c.span.stop = d.span.stop := by
    rw [hstands.stop, hdstands.stop, hdtext, List.append_assoc, List.append_assoc,
      (cut?_eq_some_iff.mp hcut).1, List.append_assoc]
  have hcwide := start_lt_stop_of_stands hstands hbody
  have hdwide := start_lt_stop_of_stands hdstands hdtext
  obtain rfl : c = d := by
    rcases apart_of_mem_lineComments hc hd with heq | hle | hle
    · exact heq
    · omega
    · omega
  exact ⟨before, _, after, p, tail, hline, hcount, hcut, hdtext⟩

/-- Where a comment allows a rule, the mark of a directive stands on its line. -/
theorem standsOn_of_allows {inner comment : List Char}
    (htext : text.toList = before ++ inner ++ comment ++ after) (hclean : '\n' ∉ inner ++ comment)
    (h : Directive.Allows comment rule) : StandsOn text "goarch-lint:" (before.count '\n' + 1) := by
  obtain ⟨listed, ⟨⟨gap, between, rest, rfl, -, -⟩, -⟩, -⟩ := h
  have hplace : text.toList = before ++ (inner ++ "//".toList ++ gap) ++ ("goarch-lint:".toList ++
      (between ++ ("allow(".toList ++ (listed ++ ')' :: rest)) ++ after)) := by
    rw [htext]
    simp only [List.append_assoc]
  refine ⟨_, slice?_of_toList hplace, lineCol_of_line hplace fun hmem => hclean ?_⟩
  simp only [List.mem_append] at hmem ⊢
  exact hmem.elim (·.imp_right .inl) fun hgap => .inr (.inr (.inl hgap))

/-- A line silences a rule if a line comment on it allows the rule. -/
theorem silences_line_iff
    (hslashes : StandsOn text "goarch-lint:" (i + 1) → SlashesInComments text (i + 1)) :
    (∃ line, (splitAt (· == '\n') text.toList)[i]? = some line ∧ Directive.Silences line rule) ↔
      ∃ c ∈ lineComments text, ((LineIndex.ofText text).lineCol c.span.start).1 = i + 1 ∧
        Directive.Allows c.text.toList rule := by
  constructor
  · rintro ⟨line, hget, hsilences⟩
    obtain ⟨before, after, hline, rfl⟩ := exists_isLine_of_getElem? hget
    obtain ⟨p, tail, hcut, hallows⟩ := Directive.silences_iff.mp hsilences
    have hform : line = p ++ ("//".toList ++ tail) := by
      rw [(cut?_eq_some_iff.mp hcut).1, List.append_assoc]
    have hmark := standsOn_of_allows (by rw [hline.text, hform, ← List.append_assoc before])
      (hform ▸ hline.clean) hallows
    obtain ⟨c, hc, hstands, htext⟩ := exists_lineComment_of_cut? hline (hslashes hmark) hcut
    have hp : '\n' ∉ p := fun hmem => hline.clean (by rw [hform]; exact List.mem_append_left _ hmem)
    refine ⟨c, hc, ?_, htext ▸ hallows⟩
    rw [hstands.start, lineCol_of_line (by rw [hstands.text, List.append_assoc]) hp]
  · rintro ⟨c, hc, hplace, hallows⟩
    have hmark : StandsOn text "goarch-lint:" (i + 1) := by
      obtain ⟨front, after, hstands, hrest⟩ := stands_of_mem_lineComments hc
      obtain ⟨before, inner, rfl, -, hclean⟩ := exists_line_start front
      rw [← hplace, hstands.start, lineCol_of_line (by rw [hstands.text, List.append_assoc]) hclean]
      exact standsOn_of_allows hstands.text
        (fun hmem => (List.mem_append.mp hmem).elim hclean hrest.clean) hallows
    obtain ⟨before, line, after, p, tail, hline, hcount, hcut, htext⟩ :=
      exists_cut?_of_mem_lineComments hc (hplace.symm ▸ hslashes hmark)
    obtain rfl : before.count '\n' = i := Nat.succ.inj (hcount.symm.trans hplace)
    exact ⟨line, getElem?_splitAt_of_isLine hline,
      Directive.silences_iff.mpr ⟨p, tail, hcut, htext ▸ hallows⟩⟩

end Comments

/-! ### Allowances -/

section Allowances

variable {ρ : Type}

/-- A line comment on the line of a diagnostic or on the line before allows the rule. -/
def Pass.HasAllowance (pass : Pass ρ) (d : Diagnostic) : Prop :=
  ∃ c ∈ lineComments pass.file.content,
    (((LineIndex.ofText pass.file.content).lineCol c.span.start).1 = d.location.line ∨
      ((LineIndex.ofText pass.file.content).lineCol c.span.start).1 + 1 = d.location.line) ∧
    Directive.Allows c.text.toList pass.rule.name

/-- Where lines with the mark of a directive have two slashes in line comments only, a diagnostic
is silenced just if a line comment on its line or on the line before allows its rule. -/
theorem Pass.silenced_iff (pass : Pass ρ) {ds : List Diagnostic} {d : Diagnostic} (hd : d ∈ ds)
    (hslashes : ∀ line, line = d.location.line ∨ line + 1 = d.location.line →
      StandsOn pass.file.content "goarch-lint:" line → SlashesInComments pass.file.content line) :
    d ∉ pass.heard ds ↔ pass.HasAllowance d := by
  have hsilent : d ∉ pass.heard ds ↔
      (Allowance.check pass.file.content d.location.line pass.rule.name).isAllowed = true := by
    simp [Pass.heard, Pass.isHeard, List.mem_filter, hd]
  rw [hsilent, Allowance.isAllowed_check_iff]
  constructor
  · rintro ⟨i, hi, hline⟩
    obtain ⟨c, hc, hplace, hallows⟩ :=
      (silences_line_iff (hslashes (i + 1) (by omega))).mp hline
    exact ⟨c, hc, by omega, hallows⟩
  · rintro ⟨c, hc, hplace, hallows⟩
    obtain ⟨i, hi⟩ : ∃ i, ((LineIndex.ofText pass.file.content).lineCol c.span.start).1 = i + 1 :=
      ⟨_, rfl⟩
    exact ⟨i, by omega,
      (silences_line_iff (hslashes (i + 1) (by omega))).mpr ⟨c, hc, hi, hallows⟩⟩

end Allowances

/-- A file that returns an error as it is, on the line after a call with a comment that allows
all rules. -/
def logged (message : String) : SourceFile :=
  .ofText "a.go" ("package a\n\nfunc f(err error) error \x7b\n\tlog(\"" ++ message ++
    "\") // goarch-lint:allow(all)\n\treturn err\n\x7d\n") ""

def wrappingPass (t : Tree) : Pass Published :=
  ⟨⟨t, .empty, none⟩, errorWrapping.info, [(treeIndex.name, .nodes (.ofTree t))]⟩

theorem Directive.allows_all (rule : String) :
    Directive.Allows "// goarch-lint:allow(all)".toList rule :=
  ⟨"all".toList, ⟨⟨[' '], [], [], by decide, by simp [isBlank], by simp⟩, by decide⟩,
    "all".toList, by decide, by decide, .inr rfl⟩

/-- Behind a message without slashes, the comment silences the finding on the next line. -/
theorem Pass.silenced_iff_logged : ∃ t outcome, Go.parse (logged "a") = .ok t ∧
    errorWrapping.run (wrappingPass t) = .ok outcome ∧ ∃ d ∈ outcome.reported,
      (∀ line, line = d.location.line ∨ line + 1 = d.location.line →
        StandsOn (wrappingPass t).file.content "goarch-lint:" line →
          SlashesInComments (wrappingPass t).file.content line) ∧
      d ∉ (wrappingPass t).heard outcome.reported := by
  have hrun : ((Go.parse (logged "a")).toOption.bind fun t =>
      (errorWrapping.run (wrappingPass t)).toOption.map fun outcome =>
        outcome.reported.any fun d => decide (t.file.content = (logged "a").content ∧
          ∃ c ∈ lineComments t.file.content, c.text = "// goarch-lint:allow(all)" ∧
            ((LineIndex.ofText t.file.content).lineCol c.span.start).1 + 1 = d.location.line)) =
      some true := by
    decide +kernel
  have hslashes : ∀ offset < byteLength (logged "a").content,
      slice? (logged "a").content offset (offset + 2) = some "//" →
        ∃ c ∈ lineComments (logged "a").content,
          c.span.start ≤ offset ∧ offset + 2 ≤ c.span.stop := by
    decide +kernel
  obtain ⟨t, ht, hmap⟩ := Option.bind_eq_some_iff.mp hrun
  obtain ⟨outcome, houtcome, hany⟩ := Option.map_eq_some_iff.mp hmap
  obtain ⟨d, hd, hdecide⟩ := List.any_eq_true.mp hany
  obtain ⟨hcontent, c, hc, htext, hplace⟩ := of_decide_eq_true hdecide
  have hcomments : ∀ line, SlashesInComments (wrappingPass t).file.content line := by
    intro line offset hslice _
    have hfile : (wrappingPass t).file.content = (logged "a").content := hcontent
    rw [hfile] at hslice ⊢
    have hle := le_byteLength_of_isBoundary (isBoundary_of_slice? hslice).2
    exact hslashes offset (by omega) hslice
  exact ⟨t, outcome, toOption_eq_some_iff.mp ht, toOption_eq_some_iff.mp houtcome, d, hd,
    fun line _ _ => hcomments line, (Pass.silenced_iff _ hd fun line _ _ => hcomments line).mpr
      ⟨c, hc, .inr hplace, htext ▸ Directive.allows_all _⟩⟩

/-- Slashes in a message hide the comment behind it. -/
theorem Pass.heard_logged : ¬ ∀ (rule : Rule Published) (pass : Pass Published) (outcome),
    (∃ file, Go.parse file = .ok pass.tree) → pass.rule = rule.info →
      rule.run pass = .ok outcome → ∀ d ∈ outcome.reported, d.isFinding = true →
        (d ∉ pass.heard outcome.reported ↔ pass.HasAllowance d) := by
  intro hclaim
  have hrun : ((Go.parse (logged "http://a")).toOption.bind fun t =>
      (errorWrapping.run (wrappingPass t)).toOption.map fun outcome =>
        outcome.reported.any fun d => decide (d.isFinding = true ∧
          (wrappingPass t).isHeard d = true ∧
          ∃ c ∈ lineComments t.file.content, c.text = "// goarch-lint:allow(all)" ∧
            ((LineIndex.ofText t.file.content).lineCol c.span.start).1 + 1 = d.location.line)) =
      some true := by
    decide +kernel
  obtain ⟨t, ht, hmap⟩ := Option.bind_eq_some_iff.mp hrun
  obtain ⟨outcome, houtcome, hany⟩ := Option.map_eq_some_iff.mp hmap
  obtain ⟨d, hd, hdecide⟩ := List.any_eq_true.mp hany
  obtain ⟨hfinding, hheard, c, hc, htext, hplace⟩ := of_decide_eq_true hdecide
  have hsilenced := (hclaim errorWrapping (wrappingPass t) outcome
    ⟨_, toOption_eq_some_iff.mp ht⟩ rfl (toOption_eq_some_iff.mp houtcome) d hd hfinding).mpr
      ⟨c, hc, .inr hplace, htext ▸ Directive.allows_all _⟩
  exact hsilenced (List.mem_filter.mpr ⟨hd, hheard⟩)

end Lintel
