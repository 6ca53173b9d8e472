import Lintel.Text.Chars
import Mathlib.Data.List.TakeWhile

/-!
# Scanning lists of characters

What stands behind a marker, where a marker stands first, and what trimming leaves, said by how
a text is put together.
-/

namespace Lintel.Text

variable {marker cs before tail rest p : List Char} {c : Char} {sep : Char → Bool}

/-! ### Markers -/

theorem after?_eq_some_iff : after? marker cs = some rest ↔ cs = marker ++ rest := by
  induction marker generalizing cs with
  | nil => simp [after?]
  | cons m marker ih =>
    cases cs with
    | nil => simp [after?]
    | cons c cs =>
      rw [after?, List.cons_append, List.cons.injEq]
      split
      · rename_i heq
        rw [ih]
        exact ⟨fun h => ⟨heq.symm, h⟩, fun h => h.2⟩
      · rename_i hne
        exact ⟨fun h => absurd h (by simp), fun h => absurd h.1.symm hne⟩

theorem endsWith_iff {marker text : String} :
    endsWith marker text = true ↔ ∃ stem, text = stem ++ marker := by
  simp only [endsWith, beforeEnd?, Option.isSome_map, Option.isSome_iff_exists, after?_eq_some_iff]
  constructor
  · rintro ⟨rest, hrest⟩
    refine ⟨String.ofList rest.reverse, String.toList_inj.mp ?_⟩
    simpa using congrArg List.reverse hrest
  · rintro ⟨stem, rfl⟩
    exact ⟨stem.toList.reverse, by simp⟩

theorem startsWith_iff {marker text : String} :
    startsWith marker text = true ↔ ∃ rest, text = marker ++ rest := by
  simp only [startsWith, Option.isSome_iff_exists, after?_eq_some_iff]
  constructor
  · rintro ⟨rest, hrest⟩
    exact ⟨String.ofList rest, String.toList_inj.mp (by simpa using hrest)⟩
  · rintro ⟨rest, rfl⟩
    exact ⟨rest.toList, by simp⟩

/-- Of two markers with which one text starts, one starts with the other. -/
theorem startsWith_or_startsWith {marker other text : String} (h : startsWith marker text = true)
    (hother : startsWith other text = true) :
    startsWith marker other = true ∨ startsWith other marker = true := by
  obtain ⟨rest, rfl⟩ := startsWith_iff.mp h
  obtain ⟨tail, htail⟩ := startsWith_iff.mp hother
  simp only [startsWith, Option.isSome_iff_exists, after?_eq_some_iff]
  have hchars := congrArg String.toList htail
  simp only [String.toList_append, List.append_eq_append_iff] at hchars
  rcases hchars with ⟨gap, hgap, -⟩ | ⟨gap, hgap, -⟩
  · exact .inl ⟨gap, hgap⟩
  · exact .inr ⟨gap, hgap⟩

/-- A text is cut at the first place where the marker stands. -/
theorem cut?_eq_some_iff : cut? marker cs = some (before, tail) ↔ cs = before ++ marker ++ tail ∧
    ∀ earlier rest, cs = earlier ++ marker ++ rest → before.length ≤ earlier.length := by
  induction cs generalizing before with
  | nil =>
    rw [cut?]
    cases marker with
    | nil =>
      simp only [List.isEmpty_nil, if_true, Option.some.injEq, Prod.mk.injEq, List.append_nil,
        List.nil_eq, List.append_eq_nil_iff]
      exact ⟨fun ⟨hbefore, htail⟩ => ⟨⟨hbefore, htail⟩, by simp [hbefore]⟩, fun h => h.1⟩
    | cons m marker => simp
  | cons c cs ih =>
    rw [cut?]
    cases hafter : after? marker (c :: cs) with
    | some found =>
      rw [after?_eq_some_iff] at hafter
      simp only [Option.some.injEq, Prod.mk.injEq]
      constructor
      · rintro ⟨rfl, rfl⟩
        exact ⟨hafter, fun _ _ _ => Nat.zero_le _⟩
      · rintro ⟨hcs, hfirst⟩
        obtain rfl : before = [] :=
          List.eq_nil_of_length_eq_zero (Nat.le_zero.mp (hfirst [] found hafter))
        exact ⟨rfl, List.append_cancel_left (hafter.symm.trans hcs)⟩
    | none =>
      have hnot : ∀ rest, c :: cs ≠ marker ++ rest := fun rest heq => by
        rw [after?_eq_some_iff.mpr heq] at hafter
        cases hafter
      simp only [Option.map_eq_some_iff, Prod.exists, Prod.mk.injEq]
      constructor
      · rintro ⟨inner, tail', hcut, rfl, rfl⟩
        obtain ⟨hcs, hfirst⟩ := ih.mp hcut
        refine ⟨by rw [hcs]; simp, fun earlier rest heq => ?_⟩
        cases earlier with
        | nil => exact absurd heq (hnot rest)
        | cons e earlier =>
          simp only [List.cons_append, List.cons.injEq] at heq
          exact Nat.succ_le_succ (hfirst earlier rest heq.2)
      · rintro ⟨hcs, hfirst⟩
        cases before with
        | nil => exact absurd hcs (hnot tail)
        | cons b before =>
          simp only [List.cons_append, List.cons.injEq] at hcs
          obtain ⟨rfl, hcs⟩ := hcs
          refine ⟨before, tail, ih.mpr ⟨hcs, fun earlier rest heq => ?_⟩, rfl, rfl⟩
          exact Nat.le_of_succ_le_succ (hfirst (c :: earlier) rest (by rw [heq]; simp))

theorem exists_cut? (h : cs = before ++ marker ++ tail) :
    ∃ first rest, cut? marker cs = some (first, rest) := by
  induction cs generalizing before with
  | nil =>
    obtain rfl : marker = [] := by simp_all
    exact ⟨[], [], rfl⟩
  | cons c cs ih =>
    rw [cut?]
    cases hafter : after? marker (c :: cs) with
    | some found => exact ⟨[], found, rfl⟩
    | none =>
      cases before with
      | nil =>
        rw [List.nil_append] at h
        rw [after?_eq_some_iff.mpr h] at hafter
        cases hafter
      | cons b before =>
        obtain ⟨first, rest, hcut⟩ := ih (List.cons.inj h).2
        exact ⟨c :: first, rest, by rw [hcut]; rfl⟩

theorem mentions_iff {marker text : String} :
    mentions marker text = true ↔ marker.toList <:+: text.toList := by
  rw [mentions, occursIn, Option.isSome_iff_exists]
  constructor
  · rintro ⟨⟨before, tail⟩, hcut⟩
    exact ⟨before, tail, (cut?_eq_some_iff.mp hcut).1.symm⟩
  · rintro ⟨before, tail, htext⟩
    obtain ⟨first, rest, hcut⟩ := exists_cut? htext.symm
    exact ⟨_, hcut⟩

theorem cut?_singleton_iff : cut? [c] cs = some (before, tail) ↔ cs = before ++ c :: tail ∧ c ∉ before := by
  rw [cut?_eq_some_iff, List.append_assoc, List.singleton_append]
  refine and_congr_right fun hcs => ⟨fun hfirst hmem => ?_, fun hnot earlier rest heq => ?_⟩
  · obtain ⟨front, back, rfl⟩ := List.append_of_mem hmem
    have hle := hfirst front (back ++ c :: tail) (by rw [hcs]; simp)
    simp only [List.length_append, List.length_cons] at hle
    omega
  · rw [hcs, List.append_assoc, List.singleton_append, List.append_eq_append_iff] at heq
    rcases heq with ⟨gap, hearlier, -⟩ | ⟨gap, hbefore, hgap⟩
    · rw [hearlier, List.length_append]
      exact Nat.le_add_right _ _
    · cases gap with
      | nil => simp [hbefore]
      | cons g gap =>
        obtain ⟨rfl, -⟩ := List.cons.inj hgap
        exact absurd (by simp [hbefore]) hnot

private theorem after?_append_singleton (h : c ∉ marker) (cs : List Char) :
    after? marker (cs ++ [c]) = (after? marker cs).map (· ++ [c]) := by
  induction marker generalizing cs with
  | nil => rfl
  | cons m marker ih =>
    obtain ⟨hm, hmarker⟩ := List.ne_and_not_mem_of_not_mem_cons h
    cases cs with
    | nil => exact if_neg (Ne.symm hm)
    | cons d cs =>
      rw [List.cons_append, after?, after?]
      split
      · exact ih hmarker cs
      · rfl

/-- A character that is in no marker makes none where there was none. -/
theorem cut?_append_singleton (h : c ∉ marker) (hne : marker ≠ []) :
    cut? marker (cs ++ [c]) = (cut? marker cs).map fun (before, tail) => (before, tail ++ [c]) := by
  obtain ⟨m, marker, rfl⟩ := List.exists_cons_of_ne_nil hne
  induction cs with
  | nil =>
    have hnone : after? (m :: marker) ([] ++ [c]) = none := after?_append_singleton h []
    rw [List.nil_append] at hnone ⊢
    simp [cut?, hnone]
  | cons d cs ih =>
    have hafter : after? (m :: marker) (d :: (cs ++ [c])) =
        (after? (m :: marker) (d :: cs)).map (· ++ [c]) :=
      after?_append_singleton h (d :: cs)
    rw [List.cons_append, cut?, cut?, hafter, ih]
    cases after? (m :: marker) (d :: cs) with
    | some tail => rfl
    | none => simp [Option.map_map, Function.comp_def]

/-! ### Trimming -/

theorem trimLeft_append_cons {p : Char → Bool} (hc : p c = false) :
    trimLeft p (cs ++ c :: rest) = cs.dropWhile p ++ c :: rest := by
  rw [trimLeft, List.dropWhile_append]
  split
  · rename_i hempty
    simp [List.isEmpty_iff.mp hempty, hc]
  · rfl

theorem trimRight_append_cons (hc : isBlank c = false) :
    trimRight isBlank (p ++ c :: rest) = p ++ c :: trimRight isBlank rest := by
  simp only [trimRight, List.reverse_append, List.reverse_cons, List.append_assoc,
    List.singleton_append, List.dropWhile_append]
  split
  · rename_i hempty
    simp [List.isEmpty_iff.mp hempty, hc]
  · simp

/-- A character that is no blank stops trimming from both sides. -/
theorem trim_append_cons (hc : isBlank c = false) :
    trim (p ++ c :: rest) = p.dropWhile isBlank ++ c :: trimRight isBlank rest := by
  rw [trim, trimBoth, trimLeft_append_cons hc, trimRight_append_cons hc]

theorem exists_trim (cs : List Char) : ∃ front back, cs = front ++ trim cs ++ back ∧
    (∀ c ∈ front, isBlank c = true) ∧ ∀ c ∈ back, isBlank c = true := by
  have hleft : cs = cs.takeWhile isBlank ++ trimLeft isBlank cs :=
    List.takeWhile_append_dropWhile.symm
  have hright : ∀ ds : List Char, ds =
      trimRight isBlank ds ++ (ds.reverse.takeWhile isBlank).reverse := by
    intro ds
    rw [trimRight, ← List.reverse_append, List.takeWhile_append_dropWhile, List.reverse_reverse]
  refine ⟨cs.takeWhile isBlank, ((trimLeft isBlank cs).reverse.takeWhile isBlank).reverse, ?_,
    fun c hc => List.mem_takeWhile_imp hc, fun c hc => List.mem_takeWhile_imp (List.mem_reverse.mp hc)⟩
  rw [trim, trimBoth, List.append_assoc, ← hright]
  exact hleft

theorem trim_append_of_blank (hp : ∀ c ∈ p, isBlank c = true) : trim (p ++ cs) = trim cs := by
  rw [trim, trim, trimBoth, trimBoth, trimLeft, trimLeft, List.dropWhile_append_of_pos hp]

theorem trim_append_singleton (hc : isBlank c = true) : trim (cs ++ [c]) = trim cs := by
  have hright : ∀ ds : List Char, trimRight isBlank (ds ++ [c]) = trimRight isBlank ds := by
    intro ds
    rw [trimRight, List.reverse_append, List.reverse_singleton, List.singleton_append,
      List.dropWhile_cons_of_pos hc, trimRight]
  rw [trim, trim, trimBoth, trimBoth, trimLeft, trimLeft, List.dropWhile_append]
  split
  · rename_i hempty
    rw [List.isEmpty_iff.mp hempty, List.dropWhile_cons_of_pos hc, List.dropWhile_nil]
  · exact hright _

/-- A text that neither starts nor ends with a blank is what trimming leaves of it between
blanks. -/
theorem trim_padded {front back : List Char} (hfront : ∀ c ∈ front, isBlank c = true)
    (hback : ∀ c ∈ back, isBlank c = true) (hhead : ∀ c ∈ cs.head?, isBlank c = false)
    (hlast : ∀ c ∈ cs.getLast?, isBlank c = false) : trim (front ++ (cs ++ back)) = cs := by
  rw [trim_append_of_blank hfront]
  rcases List.eq_nil_or_concat cs with rfl | ⟨inner, last, rfl⟩
  · have hnone : back.dropWhile isBlank = [] := List.dropWhile_eq_nil_iff.mpr hback
    rw [List.nil_append, trim, trimBoth, trimLeft, hnone]
    rfl
  · rw [List.concat_eq_append] at hhead hlast ⊢
    have hleft : trimLeft isBlank ((inner ++ [last]) ++ back) = (inner ++ [last]) ++ back := by
      cases inner with
      | nil => exact List.dropWhile_cons_of_neg (by simpa using hhead last rfl)
      | cons c inner => exact List.dropWhile_cons_of_neg (by simpa using hhead c rfl)
    have hnone : trimRight isBlank back = [] := by
      rw [trimRight, List.dropWhile_eq_nil_iff.mpr fun c hc => hback c (List.mem_reverse.mp hc)]
      rfl
    rw [trim, trimBoth, hleft, List.append_assoc, List.singleton_append,
      trimRight_append_cons (hlast last (by simp)), hnone]

/-! ### Separators -/

theorem splitAt_ne_nil (sep : Char → Bool) (cs : List Char) : splitAt sep cs ≠ [] := by
  cases cs with
  | nil => simp [splitAt]
  | cons c cs =>
    rw [splitAt]
    split
    · simp
    · split <;> simp

theorem splitAt_eq_splitOnP (sep : Char → Bool) (cs : List Char) :
    splitAt sep cs = cs.splitOnP sep := by
  induction cs with
  | nil => rfl
  | cons c cs ih =>
    obtain ⟨piece, pieces, hpieces⟩ := List.exists_cons_of_ne_nil (splitAt_ne_nil sep cs)
    rw [splitAt, List.splitOnP_cons_eq_if_modifyHead, ← ih, hpieces]
    rfl

/-- What stands before the first separator belongs to the first piece. -/
theorem splitAt_append_of_forall (hp : ∀ c ∈ p, sep c = false) (cs : List Char) :
    ∃ piece pieces, splitAt sep cs = piece :: pieces ∧
      splitAt sep (p ++ cs) = (p ++ piece) :: pieces := by
  induction p with
  | nil =>
    obtain ⟨piece, pieces, heq⟩ := List.exists_cons_of_ne_nil (splitAt_ne_nil sep cs)
    exact ⟨piece, pieces, heq, heq⟩
  | cons c p ih =>
    obtain ⟨piece, pieces, heq, hsplit⟩ := ih fun d hd => hp d (List.mem_cons_of_mem c hd)
    refine ⟨piece, pieces, heq, ?_⟩
    rw [List.cons_append, splitAt, hsplit, if_neg (by simp [hp c List.mem_cons_self])]
    rfl

/-- The last piece holds no separator, and it is the whole text or stands behind one. -/
theorem lastPiece_eq_iff : lastPiece sep cs = p ↔ (∀ c ∈ p, sep c = false) ∧
    (cs = p ∨ ∃ before c, sep c = true ∧ cs = before ++ c :: p) := by
  constructor
  · rintro rfl
    have hpieces : cs = (cs.reverse.dropWhile fun c => !sep c).reverse ++ lastPiece sep cs := by
      rw [lastPiece, ← List.reverse_append, List.takeWhile_append_dropWhile, List.reverse_reverse]
    refine ⟨fun c hc => ?_, ?_⟩
    · simpa using List.mem_takeWhile_imp (List.mem_reverse.mp hc)
    · cases hdrop : cs.reverse.dropWhile fun c => !sep c with
      | nil =>
        rw [hdrop] at hpieces
        exact .inl hpieces
      | cons c rest =>
        have hsep := List.dropWhile_get_zero_not (fun c => !sep c) cs.reverse (by simp [hdrop])
        refine .inr ⟨rest.reverse, c, by simpa [hdrop] using hsep, ?_⟩
        rw [hdrop, List.reverse_cons, List.append_assoc] at hpieces
        exact hpieces
  · rintro ⟨hp, rfl | ⟨before, c, hc, rfl⟩⟩
    · rw [lastPiece, List.takeWhile_eq_self_iff.mpr (by simpa using hp), List.reverse_reverse]
    · rw [lastPiece, List.reverse_append, List.reverse_cons, List.append_assoc,
        List.takeWhile_append_of_pos (by simpa using hp), List.singleton_append,
        List.takeWhile_cons_of_neg (by simp [hc]), List.append_nil, List.reverse_reverse]

end Lintel.Text
