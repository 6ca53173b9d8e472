import Lintel.Proofs.Search
import Lintel.Proofs.Text.Chars
import Lintel.Proofs.Text.Slice
import Lintel.Text.Lines
import Mathlib.Data.List.Forall2

/-!
# Lines of a text

A line is a longest part of a text without a newline. The lines of a text are its pieces between
newlines, apart from carriage returns before newlines and from an empty piece at the very end. The
line of an offset is told by the newlines before it.
-/

namespace Lintel.Text

/-! ### Lines and pieces -/

/-- A part of a text that is a line, with what stands before it and behind it. -/
structure IsLine (cs before line after : List Char) : Prop where
  text : cs = before ++ line ++ after
  clean : '\n' ∉ line
  starts : before = [] ∨ ∃ front, before = front ++ ['\n']
  ends : after = [] ∨ ∃ back, after = '\n' :: back

section Pieces

variable {cs before line after front : List Char} {i : Nat}

/-- Where a newline ends the front of a text, at least one is in it. -/
theorem count_pos_of_starts (h : before = [] ∨ ∃ front, before = front ++ ['\n'])
    (hne : before ≠ []) : 0 < before.count '\n' := by
  obtain ⟨front, rfl⟩ := h.resolve_left hne
  simp

theorem getElem?_splitAt_of_isLine (h : IsLine cs before line after) :
    (splitAt (· == '\n') cs)[before.count '\n']? = some line := by
  obtain ⟨rfl, hclean, hstarts, hends⟩ := h
  induction before with
  | nil =>
    have hno : ∀ c ∈ line, (c == '\n') = false := fun c hc => by
      simpa using fun heq : c = '\n' => hclean (heq ▸ hc)
    obtain ⟨piece, pieces, hafter, hsplit⟩ := splitAt_append_of_forall hno after
    rw [List.nil_append, hsplit]
    rcases hends with rfl | ⟨back, rfl⟩
    · obtain ⟨rfl, -⟩ := List.cons.inj hafter
      simp
    · rw [splitAt, if_pos (by simp)] at hafter
      obtain ⟨rfl, -⟩ := List.cons.inj hafter
      simp
  | cons c before ih =>
    have hrest : before ≠ [] → ∃ front, before = front ++ ['\n'] := by
      intro hne
      obtain ⟨front, hfront⟩ := hstarts.resolve_left (List.cons_ne_nil _ _)
      cases front with
      | nil => exact absurd (List.cons.inj hfront).2 hne
      | cons f front => exact ⟨front, (List.cons.inj hfront).2⟩
    have hinner := ih (or_iff_not_imp_left.mpr hrest)
    rw [List.cons_append, List.cons_append, splitAt]
    by_cases hc : c = '\n'
    · subst hc
      rw [if_pos (by simp), List.count_cons_self, List.getElem?_cons_succ]
      exact hinner
    · rw [if_neg (by simpa using hc), List.count_cons_of_ne hc]
      have hne : before ≠ [] := by
        rintro rfl
        obtain ⟨front, hfront⟩ := hstarts.resolve_left (List.cons_ne_nil _ _)
        cases front with
        | nil => exact hc (List.cons.inj hfront).1
        | cons f front => simp at hfront
      obtain ⟨n, hn⟩ := Nat.exists_eq_succ_of_ne_zero
        (Nat.ne_of_gt (count_pos_of_starts (.inr (hrest hne)) hne))
      rw [hn] at hinner ⊢
      obtain ⟨piece, pieces, hpieces⟩ := List.exists_cons_of_ne_nil
        (splitAt_ne_nil (· == '\n') (before ++ line ++ after))
      rw [hpieces] at hinner ⊢
      exact hinner

theorem exists_isLine_of_getElem? (h : (splitAt (· == '\n') cs)[i]? = some line) :
    ∃ before after, IsLine cs before line after ∧ before.count '\n' = i := by
  induction cs generalizing i line with
  | nil =>
    obtain ⟨rfl, rfl⟩ : i = 0 ∧ line = [] := by
      cases i with
      | zero => exact ⟨rfl, (Option.some.inj h).symm⟩
      | succ i => cases h
    exact ⟨[], [], ⟨rfl, List.not_mem_nil, .inl rfl, .inl rfl⟩, rfl⟩
  | cons c cs ih =>
    rw [splitAt] at h
    by_cases hc : c = '\n'
    · subst hc
      rw [if_pos (by simp)] at h
      cases i with
      | zero =>
        obtain rfl := Option.some.inj h
        exact ⟨[], '\n' :: cs, ⟨rfl, List.not_mem_nil, .inl rfl, .inr ⟨cs, rfl⟩⟩, rfl⟩
      | succ i =>
        obtain ⟨before, after, hline, rfl⟩ := ih h
        refine ⟨'\n' :: before, after, ⟨?_, hline.clean, .inr ?_, hline.ends⟩, by simp⟩
        · rw [hline.text]
          simp
        · rcases hline.starts with rfl | ⟨front, rfl⟩
          · exact ⟨[], rfl⟩
          · exact ⟨'\n' :: front, rfl⟩
    · rw [if_neg (by simpa using hc)] at h
      obtain ⟨piece, pieces, hpieces⟩ := List.exists_cons_of_ne_nil (splitAt_ne_nil (· == '\n') cs)
      rw [hpieces] at h ih
      cases i with
      | zero =>
        obtain rfl := Option.some.inj h
        obtain ⟨before, after, hline, hcount⟩ := ih (i := 0) rfl
        obtain rfl : before = [] := by
          by_contra hne
          exact absurd hcount (Nat.ne_of_gt (count_pos_of_starts hline.starts hne))
        refine ⟨[], after, ⟨?_, ?_, .inl rfl, hline.ends⟩, rfl⟩
        · rw [hline.text]
          rfl
        · exact fun hmem => (List.mem_cons.mp hmem).elim (fun heq => hc heq.symm) hline.clean
      | succ i =>
        obtain ⟨before, after, hline, hcount⟩ := ih (i := i + 1) h
        refine ⟨c :: before, after, ⟨?_, hline.clean, .inr ?_, hline.ends⟩, ?_⟩
        · rw [hline.text]
          simp
        · rcases hline.starts with rfl | ⟨front, rfl⟩
          · simp at hcount
          · exact ⟨c :: front, rfl⟩
        · rw [List.count_cons_of_ne hc, hcount]

/-- Lines are pieces without the carriage return before a newline. Only an empty piece at the
end is no line. -/
theorem physicalLines_spec (cs : List Char) : ∃ pieces last,
    splitAt (· == '\n') cs = pieces ++ last ∧ (last = [] ∨ last = [[]]) ∧
      List.Forall₂ (fun line piece => piece = line ∨ piece = line ++ ['\r']) (physicalLines cs)
        pieces := by
  fun_induction physicalLines cs with
  | case1 => exact ⟨[], [[]], rfl, .inr rfl, .nil⟩
  | case2 rest ih =>
    obtain ⟨pieces, last, hsplit, hlast, hsame⟩ := ih
    exact ⟨[] :: pieces, last, by simp [splitAt, hsplit], hlast, .cons (.inl rfl) hsame⟩
  | case3 rest ih =>
    obtain ⟨pieces, last, hsplit, hlast, hsame⟩ := ih
    exact ⟨['\r'] :: pieces, last, by simp [splitAt, hsplit], hlast, .cons (.inr rfl) hsame⟩
  | case4 c rest hnewline hreturn hnil ih =>
    obtain ⟨pieces, last, hsplit, hlast, hsame⟩ := ih
    rw [hnil] at hsame
    cases hsame
    have hrest : splitAt (· == '\n') rest = [[]] := by
      rcases hlast with rfl | rfl
      · exact absurd hsplit (splitAt_ne_nil _ _)
      · exact hsplit
    refine ⟨[[c]], [], ?_, .inl rfl, .cons (.inl rfl) .nil⟩
    rw [splitAt, hrest, if_neg (by simpa using hnewline)]
    rfl
  | case5 c rest hnewline hreturn line lines hlines ih =>
    obtain ⟨pieces, last, hsplit, hlast, hsame⟩ := ih
    rw [hlines] at hsame
    cases hsame with
    | cons hpiece hrest =>
      rename_i piece pieces
      refine ⟨(c :: piece) :: pieces, last, ?_, hlast, .cons ?_ hrest⟩
      · rw [splitAt, hsplit, if_neg (by simpa using hnewline)]
        rfl
      · rcases hpiece with rfl | rfl
        · exact .inl rfl
        · exact .inr rfl

def withoutReturn (line : List Char) : List Char :=
  if line.getLast? = some '\r' then line.dropLast else line

theorem eq_withoutReturn (line : List Char) :
    line = withoutReturn line ∨ line = withoutReturn line ++ ['\r'] := by
  unfold withoutReturn
  split
  · rename_i hlast
    exact .inr (List.dropLast_append_getLast? '\r' hlast).symm
  · exact .inl rfl

/-- What does not tell carriage returns at the end of a line and finds nothing in an empty one
finds the same in the lines and in the pieces. -/
theorem bind_getElem?_physicalLines {α : Type} {f : List Char → Option α}
    (hreturn : ∀ line, f (line ++ ['\r']) = f line) (hempty : f [] = none) (cs : List Char)
    (i : Nat) : (physicalLines cs)[i]?.bind f = (splitAt (· == '\n') cs)[i]?.bind f := by
  obtain ⟨pieces, last, hsplit, hlast, hsame⟩ := physicalLines_spec cs
  have hlength := hsame.length_eq
  rw [hsplit]
  by_cases hi : i < pieces.length
  · have hline : i < (physicalLines cs).length := hlength ▸ hi
    have hpair : pieces[i] = (physicalLines cs)[i] ∨ pieces[i] = (physicalLines cs)[i] ++ ['\r'] :=
      (List.forall₂_iff_get.mp hsame).2 i hline hi
    rw [List.getElem?_append_left hi, List.getElem?_eq_getElem hi, List.getElem?_eq_getElem hline,
      Option.bind_some, Option.bind_some]
    rcases hpair with heq | heq
    · rw [heq]
    · rw [heq, hreturn]
  · rw [List.getElem?_eq_none (by omega), List.getElem?_append_right (by omega), Option.bind_none,
      eq_comm, Option.bind_eq_none_iff]
    intro piece hpiece
    have hmem := List.mem_of_getElem? hpiece
    rcases hlast with rfl | rfl
    · cases hmem
    · exact List.mem_singleton.mp hmem ▸ hempty

/-- A place in a text is in one of its lines. -/
theorem exists_line_start (front : List Char) : ∃ before inner, front = before ++ inner ∧
    (before = [] ∨ ∃ rest, before = rest ++ ['\n']) ∧ '\n' ∉ inner := by
  induction front with
  | nil => exact ⟨[], [], rfl, .inl rfl, List.not_mem_nil⟩
  | cons c front ih =>
    obtain ⟨before, inner, rfl, hstarts, hclean⟩ := ih
    rcases hstarts with rfl | ⟨rest, rfl⟩
    · by_cases hc : c = '\n'
      · exact ⟨['\n'], inner, by simp [hc], .inr ⟨[], rfl⟩, hclean⟩
      · refine ⟨[], c :: inner, rfl, .inl rfl, fun hmem => ?_⟩
        exact (List.mem_cons.mp hmem).elim (fun heq => hc heq.symm) hclean
    · exact ⟨c :: (rest ++ ['\n']), inner, rfl, .inr ⟨c :: rest, rfl⟩, hclean⟩

/-- A place in a text is in front of the end of its line. -/
theorem exists_line_stop (rest : List Char) : ∃ inner after, rest = inner ++ after ∧
    '\n' ∉ inner ∧ (after = [] ∨ ∃ back, after = '\n' :: back) := by
  induction rest with
  | nil => exact ⟨[], [], rfl, List.not_mem_nil, .inl rfl⟩
  | cons c rest ih =>
    by_cases hc : c = '\n'
    · exact ⟨[], c :: rest, rfl, List.not_mem_nil, .inr ⟨rest, by rw [hc]⟩⟩
    · obtain ⟨inner, after, rfl, hclean, hends⟩ := ih
      refine ⟨c :: inner, after, rfl, fun hmem => ?_, hends⟩
      exact (List.mem_cons.mp hmem).elim (fun heq => hc heq.symm) hclean

/-- A clean end of a text starts behind the start of its line. -/
theorem exists_of_append_eq {a b inner : List Char} (h : before ++ inner = a ++ b)
    (hstarts : before = [] ∨ ∃ front, before = front ++ ['\n']) (hb : '\n' ∉ b) :
    ∃ m, a = before ++ m ∧ inner = m ++ b := by
  rcases List.append_eq_append_iff.mp h with ⟨m, ha, hinner⟩ | ⟨m, hbefore, hrest⟩
  · exact ⟨m, ha, hinner⟩
  · obtain rfl : m = [] := by
      rcases List.eq_nil_or_concat m with hnil | ⟨front, last, rfl⟩
      · exact hnil
      · rw [List.concat_eq_append, ← List.append_assoc] at hbefore
        obtain ⟨start, hstart⟩ := hstarts.resolve_left (by simp [hbefore])
        obtain rfl : last = '\n' :=
          (List.cons.inj (List.append_inj' (hbefore.symm.trans hstart) rfl).2).1
        exact absurd (by simp [hrest]) hb
    exact ⟨[], by simpa using hbefore.symm, by simpa using hrest.symm⟩

/-- What is left of a line is told by the text behind it. -/
theorem append_inj_of_line {a b c d : List Char} (h : a ++ b = c ++ d) (ha : '\n' ∉ a)
    (hc : '\n' ∉ c) (hb : b = [] ∨ ∃ back, b = '\n' :: back)
    (hd : d = [] ∨ ∃ back, d = '\n' :: back) : a = c := by
  have htake : ∀ {x y : List Char}, '\n' ∉ x → (y = [] ∨ ∃ back, y = '\n' :: back) →
      (x ++ y).takeWhile (· != '\n') = x := by
    intro x y hx hy
    have hno : ∀ ch ∈ x, (ch != '\n') = true := fun ch hch => by
      simpa using fun heq : ch = '\n' => hx (heq ▸ hch)
    rw [List.takeWhile_append_of_pos hno]
    rcases hy with rfl | ⟨back, rfl⟩ <;> simp
  rw [← htake ha hb, h, htake hc hd]

end Pieces

/-! ### Lines of offsets -/

section Offsets

variable {offset : Nat} {cs front rest : List Char}

theorem lt_of_mem_newlineEnds {start : Nat} (h : start ∈ newlineEnds offset cs) : offset < start := by
  induction cs generalizing offset with
  | nil => cases h
  | cons c cs ih =>
    rw [newlineEnds] at h
    split at h
    · rcases List.mem_cons.mp h with rfl | h
      · exact Nat.lt_succ_self offset
      · exact Nat.lt_of_succ_lt (ih h)
    · exact Nat.lt_of_le_of_lt (Nat.le_add_right _ _) (ih h)

/-- Line starts are in ascending order. -/
theorem pairwise_newlineEnds (offset : Nat) (cs : List Char) :
    (newlineEnds offset cs).Pairwise (· < ·) := by
  induction cs generalizing offset with
  | nil => exact .nil
  | cons c cs ih =>
    rw [newlineEnds]
    split
    · exact List.pairwise_cons.mpr ⟨fun _ h => lt_of_mem_newlineEnds h, ih (offset + 1)⟩
    · exact ih _

/-- As many lines start up to the end of a front as there are newlines in it. -/
theorem countP_newlineEnds (offset : Nat) (front rest : List Char) :
    (newlineEnds offset (front ++ rest)).countP
      (· ≤ offset + byteLength (String.ofList front)) = front.count '\n' := by
  induction front generalizing offset with
  | nil =>
    rw [List.nil_append, List.count_nil, List.countP_eq_zero]
    intro start hstart
    have hlt := lt_of_mem_newlineEnds hstart
    simpa using hlt
  | cons c front ih =>
    have hsize : byteLength (String.ofList (c :: front)) =
        c.utf8Size + byteLength (String.ofList front) := by simp
    rw [List.cons_append, newlineEnds, hsize, ← Nat.add_assoc]
    split
    · rename_i hc
      subst hc
      have hone : ('\n' : Char).utf8Size = 1 := rfl
      rw [hone, List.countP_cons_of_pos (by simp), ih, List.count_cons_self]
    · rename_i hc
      rw [ih, List.count_cons_of_ne hc]

/-- In an ascending list, the place of an entry or the gap that belongs to it tells how many
entries come up to it. -/
theorem countP_of_search {starts : Array Nat} (h : starts.toList.Pairwise (· < ·)) (offset : Nat) :
    starts.toList.countP (· ≤ offset) = match search starts (compare · offset) with
      | .found i => i + 1
      | .gap i => i := by
  have hfits : Fits (compare · offset) starts.toList := h.imp fun {a b} hlt => by
    simp only [Nat.compare_eq_lt, Nat.compare_eq_gt]
    omega
  split
  · rename_i i hfound
    obtain ⟨start, hstart, heq⟩ := search_found hfound
    obtain rfl := Nat.compare_eq_eq.mp heq
    obtain ⟨hi, hget⟩ := List.getElem?_eq_some_iff.mp hstart
    have hsplit : starts.toList = starts.toList.take i ++ start :: starts.toList.drop (i + 1) := by
      rw [← hget, List.getElem_cons_drop, List.take_append_drop]
    have hpairs := h
    rw [hsplit, List.pairwise_append, List.pairwise_cons] at hpairs
    obtain ⟨-, ⟨hbehind, -⟩, hbefore⟩ := hpairs
    rw [hsplit, List.countP_append, List.countP_cons_of_pos (by simp),
      List.countP_eq_length.mpr fun a ha => by
        simpa using Nat.le_of_lt (hbefore a ha start List.mem_cons_self),
      List.countP_eq_zero.mpr fun a ha => by simpa using hbehind a ha, List.length_take,
      Nat.min_eq_left (Nat.le_of_lt hi)]
  · rename_i i hgap
    obtain ⟨hbefore, hbehind, hle⟩ := search_gap hfits hgap
    rw [← List.take_append_drop i starts.toList, List.countP_append,
      List.countP_eq_length.mpr fun a ha => ?_, List.countP_eq_zero.mpr fun a ha => ?_,
      List.length_take]
    · omega
    · simpa using Nat.compare_eq_gt.mp (hbehind a ha)
    · simpa using Nat.le_of_lt (Nat.compare_eq_lt.mp (hbefore a ha))

/-- The line of an offset is told by the lines that start up to it. -/
theorem lineCol_fst_eq_countP (text : String) (offset : Nat) :
    ((LineIndex.ofText text).lineCol offset).1 =
      (newlineEnds 0 text.toList).countP (· ≤ offset) + 1 := by
  have hordered : (LineIndex.ofText text).starts.toList.Pairwise (· < ·) :=
    List.pairwise_cons.mpr ⟨fun _ h => lt_of_mem_newlineEnds h, pairwise_newlineEnds _ _⟩
  have hsearch := countP_of_search hordered offset
  have hcons : (LineIndex.ofText text).starts.toList = 0 :: newlineEnds 0 text.toList := rfl
  rw [hcons, List.countP_cons_of_pos (by simp)] at hsearch
  unfold LineIndex.lineCol
  cases hplace : search (LineIndex.ofText text).starts (compare · offset) with
  | found i =>
    rw [hplace] at hsearch
    exact hsearch.symm
  | gap i =>
    rw [hplace] at hsearch
    dsimp only at hsearch ⊢
    rw [← hsearch, Nat.add_sub_cancel]

/-- The line of an offset is told by the newlines before it. -/
theorem lineCol_fst {text : String} (h : text.toList = front ++ rest) :
    ((LineIndex.ofText text).lineCol (byteLength (String.ofList front))).1 =
      front.count '\n' + 1 := by
  have hends := countP_newlineEnds 0 front rest
  rw [Nat.zero_add, ← h] at hends
  rw [lineCol_fst_eq_countP, hends]

/-- What stands on a line does not count for its number. -/
theorem lineCol_of_line {text : String} {before inner : List Char}
    (h : text.toList = before ++ inner ++ rest) (hclean : '\n' ∉ inner) :
    ((LineIndex.ofText text).lineCol (byteLength (String.ofList (before ++ inner)))).1 =
      before.count '\n' + 1 := by
  rw [lineCol_fst h, List.count_append, List.count_eq_zero.mpr hclean, Nat.add_zero]

/-- A line of a text holds an offset that lies between its start and its end. The newline at its
end belongs to it. -/
structure HoldsOffset (text : String) (offset : Nat) (before line after : List Char) : Prop
    extends IsLine text.toList before line after where
  start_le : byteLength (String.ofList before) ≤ offset
  le_stop : offset ≤ byteLength (String.ofList (before ++ line))

variable {text : String} {before line after : List Char}

/-- The line of an offset is told by the newlines before the line that holds it, also if the
offset lies within a character. -/
theorem lineCol_of_holdsOffset (h : HoldsOffset text offset before line after) :
    ((LineIndex.ofText text).lineCol offset).1 = before.count '\n' + 1 := by
  have hstart := countP_newlineEnds 0 before (line ++ after)
  have hstop := countP_newlineEnds 0 (before ++ line) after
  rw [List.count_append, List.count_eq_zero.mpr h.clean, Nat.add_zero] at hstop
  rw [← List.append_assoc, ← h.text, Nat.zero_add] at hstart
  rw [← h.text, Nat.zero_add] at hstop
  have hle := h.start_le
  have hge := h.le_stop
  have hmono : ∀ {a b : Nat}, a ≤ b → (newlineEnds 0 text.toList).countP (· ≤ a) ≤
      (newlineEnds 0 text.toList).countP (· ≤ b) := fun hab =>
    List.countP_mono_left fun start _ hstart => by
      simp only [decide_eq_true_eq] at hstart ⊢
      omega
  have hlow := hmono hle
  have hhigh := hmono hge
  rw [lineCol_fst_eq_countP]
  omega

/-- A text can be cut before the character that holds an offset. -/
theorem exists_append_of_le (h : offset ≤ byteLength (String.ofList cs)) : ∃ front rest,
    cs = front ++ rest ∧ byteLength (String.ofList front) ≤ offset ∧
      ∀ c ∈ rest.head?, offset < byteLength (String.ofList front) + c.utf8Size := by
  induction cs generalizing offset with
  | nil => exact ⟨[], [], rfl, by simp, by simp⟩
  | cons c cs ih =>
    have hsize : ∀ cs : List Char, byteLength (String.ofList (c :: cs)) =
        c.utf8Size + byteLength (String.ofList cs) := by simp
    rw [hsize] at h
    by_cases hc : offset < c.utf8Size
    · exact ⟨[], c :: cs, rfl, by simp, by simpa using hc⟩
    · have htail : offset - c.utf8Size ≤ byteLength (String.ofList cs) := by omega
      obtain ⟨front, rest, rfl, hle, hhead⟩ := ih htail
      refine ⟨c :: front, rest, rfl, by rw [hsize]; omega, fun d hd => ?_⟩
      have hlt := hhead d hd
      rw [hsize]
      omega

/-- Every offset up to the end of a text is held by a line. -/
theorem exists_holdsOffset (h : offset ≤ byteLength text) :
    ∃ before line after, HoldsOffset text offset before line after := by
  rw [← String.ofList_toList (s := text)] at h
  obtain ⟨front, rest, htext, hle, hhead⟩ := exists_append_of_le h
  obtain ⟨before, inner, rfl, hstarts, hclean⟩ := exists_line_start front
  obtain ⟨tail, after, rfl, htail, hends⟩ := exists_line_stop rest
  have hline : IsLine text.toList before (inner ++ tail) after :=
    ⟨by rw [htext]; simp only [List.append_assoc],
      fun hmem => (List.mem_append.mp hmem).elim hclean htail, hstarts, hends⟩
  refine ⟨before, inner ++ tail, after, hline, ?_, ?_⟩
  · rw [byteLength_ofList_append] at hle
    omega
  · rw [← List.append_assoc]
    cases tail with
    | nil =>
      rw [List.append_nil]
      rcases hends with rfl | ⟨back, rfl⟩
      · simpa [htext] using h
      · have hlt := hhead '\n' rfl
        have hone : ('\n' : Char).utf8Size = 1 := rfl
        omega
    | cons c tail =>
      have hlt := hhead c rfl
      have hsize : byteLength (String.ofList (c :: tail)) =
          c.utf8Size + byteLength (String.ofList tail) := by simp
      rw [byteLength_ofList_append, hsize]
      omega

theorem HoldsOffset.before_eq_of_le {before' line' after' : List Char}
    (h : HoldsOffset text offset before line after)
    (h' : HoldsOffset text offset before' line' after')
    (hle : byteLength (String.ofList before) ≤ byteLength (String.ofList before')) :
    before = before' := by
  have hsame := h.text.symm.trans h'.text
  rw [List.append_assoc, List.append_assoc] at hsame
  obtain ⟨m, rfl, hrest⟩ := toList_append_eq_append_of_le hsame hle
  -- The later line starts within the earlier one, so there is no newline in between.
  have hwithin : byteLength (String.ofList m) ≤ byteLength (String.ofList line) := by
    have hstart := h'.start_le
    have hstop := h.le_stop
    rw [byteLength_ofList_append] at hstart hstop
    omega
  obtain ⟨k, rfl, -⟩ := toList_append_eq_append_of_le hrest.symm hwithin
  have hclean : '\n' ∉ m := fun hmem => h.clean (List.mem_append_left _ hmem)
  obtain ⟨n, -, hnil⟩ := exists_of_append_eq (List.append_nil (before ++ m)) h'.starts hclean
  rw [(List.append_eq_nil_iff.mp hnil.symm).2, List.append_nil]

theorem HoldsOffset.unique {before' line' after' : List Char}
    (h : HoldsOffset text offset before line after)
    (h' : HoldsOffset text offset before' line' after') :
    before = before' ∧ line = line' ∧ after = after' := by
  obtain rfl : before = before' := by
    rcases Nat.le_total (byteLength (String.ofList before)) (byteLength (String.ofList before'))
      with hle | hle
    · exact h.before_eq_of_le h' hle
    · exact (h'.before_eq_of_le h hle).symm
  have hsame := h.text.symm.trans h'.text
  rw [List.append_assoc, List.append_assoc] at hsame
  have hrest := List.append_cancel_left hsame
  obtain rfl := append_inj_of_line hrest h.clean h'.clean h.ends h'.ends
  exact ⟨rfl, rfl, List.append_cancel_left hrest⟩

end Offsets

end Lintel.Text
