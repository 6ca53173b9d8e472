import Lintel.Proofs.Allowance.Directives
import Mathlib.Data.List.Basic

/-!
# Directives as they are printed

A directive is printed behind the code of a line: two slashes, the names between commas in a
bracket, and perhaps a reason in quotes. Around a name there may be blanks. What is read of the
line are these names in their order and this reason.
-/

namespace Lintel

open Lintel.Text

namespace Directive

/-- A name of a rule in a list of names, with the blanks before and behind it. A name has neither
a comma nor a closing bracket in it and neither starts nor ends with a blank. -/
structure Entry where
  front : List Char
  name : String
  back : List Char
  front_blank : front.all isBlank = true
  back_blank : back.all isBlank = true
  named : name ≠ ""
  starts : name.toList.head?.any isBlank = false
  ends : name.toList.getLast?.any isBlank = false
  no_comma : ',' ∉ name.toList
  no_bracket : ')' ∉ name.toList

def Entry.print (e : Entry) : List Char :=
  e.front ++ (e.name.toList ++ e.back)

def printEntries (entries : List Entry) : List Char :=
  [','].intercalate (entries.map Entry.print)

def printReason : Option String → List Char
  | none => []
  | some reason => ' ' :: ("reason=".toList ++ '"' :: (reason.toList ++ ['"']))

/-- A comment that silences the rules named by some entries and gives a reason. -/
def print (entries : List Entry) (reason : Option String) : List Char :=
  "// goarch-lint:allow(".toList ++ (printEntries entries ++ ')' :: printReason reason)

private theorem isBlank_space : ∀ c ∈ [' '], isBlank c = true :=
  List.forall_mem_singleton.mpr (by decide)

section Printed

variable {code : List Char} {entries : List Entry} {reason : Option String}

/-! ### Names -/

@[simp] theorem Entry.trim_print (e : Entry) : trim e.print = e.name.toList :=
  trim_padded (List.all_eq_true.mp e.front_blank) (List.all_eq_true.mp e.back_blank)
    ((Option.any_eq_false _ _).mp e.starts) ((Option.any_eq_false _ _).mp e.ends)

/-- What is neither a blank nor in a name is not in its print. -/
theorem Entry.notMem_print (e : Entry) {c : Char} (hc : isBlank c = false)
    (hname : c ∉ e.name.toList) : c ∉ e.print := by
  intro hmem
  rcases List.mem_append.mp hmem with hfront | hmem
  · exact absurd (List.all_eq_true.mp e.front_blank c hfront) (by simp [hc])
  · rcases List.mem_append.mp hmem with hmem | hback
    · exact hname hmem
    · exact absurd (List.all_eq_true.mp e.back_blank c hback) (by simp [hc])

private theorem splitAt_printEntries (hne : entries ≠ []) :
    splitAt (· == ',') (printEntries entries) = entries.map Entry.print := by
  have hclean : ∀ piece ∈ entries.map Entry.print, ',' ∉ piece := by
    rw [List.forall_mem_map]
    exact fun e _ => e.notMem_print (by decide) e.no_comma
  rw [splitAt_eq_splitOnP]
  exact List.splitOn_intercalate ',' hclean (by simpa using hne)

private theorem names_printEntries (hne : entries ≠ []) :
    names (printEntries entries) = entries.map Entry.name := by
  have hname : ∀ e : Entry, (if (trim e.print).isEmpty then none
      else some (String.ofList (trim e.print))) = some e.name := by
    intro e
    have hsome : e.name.toList ≠ [] := fun hnil => e.named (String.toList_eq_nil_iff.mp hnil)
    rw [e.trim_print, if_neg (by simpa using hsome), String.ofList_toList]
  rw [names, splitAt_printEntries hne, List.map_map, List.filterMap_map]
  exact List.filterMap_eq_map_iff_forall_eq_some.mpr fun e _ => hname e

private theorem notMem_printEntries (entries : List Entry) : ')' ∉ printEntries entries := by
  induction entries with
  | nil => exact List.not_mem_nil
  | cons e entries ih =>
    have he : ')' ∉ e.print := e.notMem_print (by decide) e.no_bracket
    rcases eq_or_ne entries [] with rfl | hne
    · simpa [printEntries] using he
    · have hcons : printEntries (e :: entries) = e.print ++ [','] ++ printEntries entries :=
        List.intercalate_cons_of_ne_nil (by simpa using hne)
      rw [hcons]
      simp [he, ih]

/-! ### Reasons -/

@[simp] private theorem trimRight_printReason (reason : Option String) :
    trimRight isBlank (printReason reason) = printReason reason := by
  cases reason with
  | none => rfl
  | some text =>
    have hquote : printReason (some text) =
        ' ' :: ("reason=".toList ++ '"' :: text.toList) ++ '"' :: [] := by
      simp [printReason]
    rw [hquote]
    exact trimRight_append_cons (by decide)

private theorem reason?_printReason (hreason : ∀ text ∈ reason, '"' ∉ text.toList) :
    reason? (printReason reason) = reason := by
  cases reason with
  | none => rfl
  | some text =>
    have hquote : isBlank '"' = false := by decide
    have hprint : trim (printReason (some text)) =
        "reason=".toList ++ '"' :: (text.toList ++ ['"']) := by
      have htrim := trim_between isBlank_space
        (by decide : isBlank 'r' = false) hquote ("eason=".toList ++ '"' :: text.toList) []
      simpa [printReason, trimRight] using htrim
    have hquoted : trim ('"' :: (text.toList ++ ['"'])) = '"' :: (text.toList ++ ['"']) :=
      trim_between (List.forall_mem_nil _) hquote hquote text.toList []
    have hcut : cut? ['"'] (text.toList ++ ['"']) = some (text.toList, []) :=
      cut?_singleton_iff.mpr ⟨rfl, hreason text rfl⟩
    rw [reason?, hprint, after?_eq_some_iff.mpr rfl, Option.bind_some, hquoted, quoted?, hcut]
    simp

/-! ### The line -/

/-- The first two slashes of a line are those behind its code, if no two are in the code and no
slash ends it. -/
theorem cut?_code (hcode : ¬ "//".toList <:+: code) (hlast : code.getLast? ≠ some '/')
    (comment : List Char) :
    cut? "//".toList (code ++ ("//".toList ++ comment)) = some (code, comment) := by
  have hslashes : "//".toList = ['/', '/'] := rfl
  rw [hslashes] at hcode ⊢
  rw [cut?_eq_some_iff, List.append_assoc]
  refine ⟨rfl, fun earlier rest heq => ?_⟩
  rw [List.append_assoc] at heq
  rcases List.append_eq_append_iff.mp heq with ⟨gap, hearlier, -⟩ | ⟨gap, rfl, hgap⟩
  · rw [hearlier, List.length_append]
    exact Nat.le_add_right _ _
  · cases gap with
    | nil => simp
    | cons c gap =>
      obtain ⟨rfl, hrest⟩ := List.cons.inj hgap
      cases gap with
      | nil => exact absurd (by simp) hlast
      | cons c gap =>
        obtain ⟨rfl, -⟩ := List.cons.inj hrest
        exact absurd ⟨earlier, gap, by simp⟩ hcode

/-- A directive that is printed behind code without two slashes is read as it was printed: its
names are those of the entries, in their order, and its reason is the one that was given. -/
theorem ofLine?_print (hcode : ¬ "//".toList <:+: code) (hlast : code.getLast? ≠ some '/')
    (hentries : entries ≠ []) (hreason : ∀ text ∈ reason, '"' ∉ text.toList) :
    ofLine? (code ++ print entries reason) = some ⟨entries.map Entry.name, reason⟩ := by
  let comment := ' ' :: ("goarch-lint:allow(".toList ++
    (printEntries entries ++ ')' :: printReason reason))
  have hprint : print entries reason = "//".toList ++ comment := rfl
  have hform : comment = [' '] ++ ("goarch-lint:".toList ++
      ([] ++ ("allow(".toList ++ (printEntries entries ++ ')' :: printReason reason)))) := rfl
  obtain ⟨body, args, hbody, hargs, hinner⟩ := read_of_form
    isBlank_space (List.forall_mem_nil _)
    (notMem_printEntries entries) hform
  rw [trimRight_printReason, trimRight_printReason, trimRight_printReason] at hinner
  rw [ofLine?_eq_some_iff]
  refine ⟨code, comment, body, args, (printEntries entries).dropWhile isBlank, printReason reason,
    hprint ▸ cut?_code hcode hlast comment, hbody, hargs, hinner, ?_, ?_⟩
  · rw [names_dropWhile, names_printEntries hentries]
    simpa using hentries
  · rw [names_dropWhile, names_printEntries hentries, reason?_printReason hreason]

def twoEntries : List Entry :=
  [{ front := [], name := "style-limits", back := [' ']
     front_blank := rfl, back_blank := rfl, named := by decide, starts := rfl, ends := rfl
     no_comma := by decide +kernel, no_bracket := by decide +kernel },
   { front := ['\t', '\u2003'], name := "Größe 名", back := ['\n']
     front_blank := rfl, back_blank := rfl, named := by decide, starts := rfl, ends := rfl
     no_comma := by decide +kernel, no_bracket := by decide +kernel }]

theorem ofLine?_print_twoEntries :
    "x := a / b // goarch-lint:allow(style-limits ,\t\u2003Größe 名\n) reason=\"a) // b\"".toList =
      "x := a / b ".toList ++ print twoEntries (some "a) // b") ∧
    ¬ "//".toList <:+: "x := a / b ".toList ∧ "x := a / b ".toList.getLast? ≠ some '/' ∧
    ofLine? ("x := a / b ".toList ++ print twoEntries (some "a) // b")) =
      some ⟨["style-limits", "Größe 名"], some "a) // b"⟩ := by
  have hcode : ¬ "//".toList <:+: "x := a / b ".toList := by decide +kernel
  have hlast : "x := a / b ".toList.getLast? ≠ some '/' := by decide +kernel
  exact ⟨by decide +kernel, hcode, hlast,
    ofLine?_print hcode hlast (List.cons_ne_nil _ _) (by decide +kernel)⟩

end Printed

end Directive

end Lintel
