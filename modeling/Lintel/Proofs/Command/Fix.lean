import Lintel.Command.Fix
import Lintel.Proofs.Path
import Lintel.Proofs.Project.Store
import Mathlib.Algebra.GroupWithZero.Nat
import Mathlib.Data.List.Nodup

/-!
# What writing fixes leaves behind

The files of a result are fixed one after another, so that at any time some of them, first
in the order of their paths, are fixed as a whole, and nothing else has changed. A file
that cannot be read, changed or written ends the work in such a state.
-/

namespace Lintel

namespace Command

open LawfulFileSystem

section Run

variable {σ : Type} [FileSystem σ] [LawfulFileSystem σ] {before files after : σ}
  {root path file : String} {plan : FixPlan} {plans others : String → FixPlan} {handled : List String}

/-- The file at a path was fixed by a plan: it held a text, and holds what the selected fixes
make of it. -/
def FixedBetween (before after : σ) (path : String) (plan : FixPlan) : Prop :=
  ∃ old new : String, bytes? before (place before path) = some old.toUTF8 ∧
    applyFixes old plan.selected = .ok new ∧ bytes? after (place before path) = some new.toUTF8

/-- Some files below a root were fixed, each by its plan, and nothing else was changed. -/
structure FixedExactly (root : String) (plans : String → FixPlan) (handled : List String)
    (before after : σ) : Prop where
  each : ∀ file ∈ handled, FixedBetween before after (Path.join root file) (plans file)
  elsewhere : ∀ p : Place σ, (∀ file ∈ handled, place before (Path.join root file) ≠ p) →
    bytes? after p = bytes? before p
  places : ∀ path, place after path = place before path

namespace FixedExactly

theorem nil : FixedExactly root plans [] before before :=
  ⟨by simp, fun _ _ => rfl, fun _ => rfl⟩

theorem concat (h : FixedExactly root plans handled before files)
    (hplaces : ∀ path, place after path = place files path)
    (hfile : FixedBetween files after (Path.join root file) (plans file))
    (helse : ∀ p : Place σ, place files (Path.join root file) ≠ p →
      bytes? after p = bytes? files p)
    (hnew : ∀ other ∈ handled,
      place before (Path.join root other) ≠ place before (Path.join root file)) :
    FixedExactly root plans (handled ++ [file]) before after where
  each other hother := by
    rcases List.mem_append.mp hother with hother | hother
    · obtain ⟨old, new, hold, happly, hnow⟩ := h.each other hother
      have hother : bytes? after (place before (Path.join root other)) =
          bytes? files (place before (Path.join root other)) := by
        apply helse
        rw [h.places]
        exact (hnew other hother).symm
      exact ⟨old, new, hold, happly, hother.trans hnow⟩
    · rw [List.mem_singleton.mp hother]
      obtain ⟨old, new, hold, happly, hnow⟩ := hfile
      rw [h.places] at hold hnow
      exact ⟨old, new, (h.elsewhere _ hnew).symm.trans hold, happly, hnow⟩
  elsewhere p hp := by
    have hlast : place files (Path.join root file) ≠ p := by
      rw [h.places]
      exact hp file (by simp)
    rw [helse p hlast]
    apply h.elsewhere
    exact fun other hother => hp other (List.mem_append_left _ hother)
  places path := by rw [hplaces, h.places]

theorem still (h : FixedExactly root plans handled before files)
    (hplaces : ∀ path, place after path = place files path)
    (hsame : ∀ p : Place σ, bytes? after p = bytes? files p) :
    FixedExactly root plans handled before after where
  each file hfile := by
    obtain ⟨old, new, hold, happly, hnow⟩ := h.each file hfile
    exact ⟨old, new, hold, happly, by rw [hsame, hnow]⟩
  elsewhere p hp := by rw [hsame, h.elsewhere p hp]
  places path := by rw [hplaces, h.places]

theorem congr (h : FixedExactly root plans handled before after)
    (hplans : ∀ file ∈ handled, plans file = others file) :
    FixedExactly root others handled before after :=
  ⟨fun file hfile => hplans file hfile ▸ h.each file hfile, h.elsewhere, h.places⟩

end FixedExactly

/-! ### One file -/

/-- A file cannot be fixed by a plan as it cannot be read, its text does not take the fixes, or
it cannot be written; the texts tell which and why. -/
inductive FailsToFix (files : σ) (path : String) (plan : FixPlan) : List String → Prop
  | read {e : String} : FileSystem.read files path = .error e →
      FailsToFix files path plan ["Failed to read " ++ path, e]
  | change {old : String} {e : FixError} : FileSystem.read files path = .ok old →
      applyFixes old plan.selected = .error e →
        FailsToFix files path plan ["Failed to fix " ++ path, e.message]
  | write {old new e : String} {after : σ} : FileSystem.read files path = .ok old →
      applyFixes old plan.selected = .ok new →
        FileSystem.write files path new = (after, some e) →
          FailsToFix files path plan ["Failed to write " ++ path, e]

private theorem fixFile_ok (h : fixFile files path plan = (after, none)) :
    FixedBetween files after path plan ∧
      (∀ p : Place σ, place files path ≠ p → bytes? after p = bytes? files p) ∧
      ∀ other, place after other = place files other := by
  unfold fixFile at h
  split at h
  · cases h
  next text hread =>
    split at h
    · cases h
    next fixed happly =>
      split at h
      · cases h
      next written hwrite =>
        cases h
        exact ⟨⟨text, fixed, bytes?_of_read hread, happly, bytes?_of_written hwrite⟩,
          fun p hp => bytes?_elsewhere hwrite hp, fun other => place_of_write other hwrite⟩

private theorem fixFile_failed {texts : List String}
    (h : fixFile files path plan = (after, some texts)) :
    FailsToFix files path plan texts ∧ (∀ p : Place σ, bytes? after p = bytes? files p) ∧
      ∀ other, place after other = place files other := by
  unfold fixFile at h
  split at h
  next e hread =>
    cases h
    exact ⟨.read hread, fun p => rfl, fun other => rfl⟩
  next old hread =>
    split at h
    next e happly =>
      cases h
      exact ⟨.change hread happly, fun p => rfl, fun other => rfl⟩
    next new happly =>
      split at h
      next e hwrite =>
        cases h
        exact ⟨.write hread happly hwrite, fun p => bytes?_of_failed p hwrite,
          fun other => place_of_write other hwrite⟩
      · cases h

/-! ### One file after another -/

variable {r : LintResult} {progress : FixProgress σ}

/-- What was to be done is done up to the first file that could not be fixed, if there is
one. -/
theorem fixFiles_spec {todo : List String}
    (h : FixedExactly root (planFor r) handled before progress.files)
    (hdistinct : ((handled ++ todo).map fun file => place before (Path.join root file)).Nodup) :
    ∃ more rest, todo = more ++ rest ∧
      FixedExactly root (planFor r) (handled ++ more) before
        (fixFiles root r todo progress).progress.files ∧
      (fixFiles root r todo progress).progress.applied =
        progress.applied + (more.map fun file => (planFor r file).selected.length).sum ∧
      ((fixFiles root r todo progress).error = none ∧ rest = [] ∨
        ∃ texts file later tried, (fixFiles root r todo progress).error = some texts ∧
          rest = file :: later ∧ FixedExactly root (planFor r) (handled ++ more) before tried ∧
          FailsToFix tried (Path.join root file) (planFor r file) texts) := by
  induction todo generalizing handled progress with
  | nil => exact ⟨[], [], rfl, by rwa [List.append_nil], rfl, .inl ⟨rfl, rfl⟩⟩
  | cons file todo ih =>
    cases hfix : fixFile progress.files (Path.join root file) (planFor r file) with
    | mk after failure =>
      cases failure with
      | some texts =>
        obtain ⟨hfails, hsame, hplaces⟩ := fixFile_failed hfix
        simp only [fixFiles, hfix]
        exact ⟨[], file :: todo, rfl, by simpa using h.still hplaces hsame, rfl,
          .inr ⟨texts, file, todo, progress.files, rfl, rfl, by simpa using h, hfails⟩⟩
      | none =>
        obtain ⟨hfile, helse, hplaces⟩ := fixFile_ok hfix
        have hnew : ∀ other ∈ handled,
            place before (Path.join root other) ≠ place before (Path.join root file) := by
          rw [List.map_append, List.nodup_append] at hdistinct
          exact fun other hother => hdistinct.2.2 _ (List.mem_map_of_mem hother) _ (by simp)
        have hmore := h.concat hplaces hfile helse hnew
        simp only [fixFiles, hfix]
        let next : FixProgress σ := ⟨after, progress.applied + (planFor r file).selected.length,
          progress.log ++ skipWarning file (planFor r file)⟩
        obtain ⟨more, rest, hsplit, hfixed, hcount, hend⟩ :=
          @ih (handled ++ [file]) next hmore (by simpa using hdistinct)
        refine ⟨file :: more, rest, by rw [hsplit, List.cons_append], by simpa using hfixed, ?_,
          by simpa using hend⟩
        rw [hcount, List.map_cons, List.sum_cons, Nat.add_assoc]

end Run

/-! ### The files of a result -/

section Files

variable {r : LintResult} {d e : Diagnostic} {file other : String}

def planOf (r : LintResult) (file : String) : FixPlan :=
  .ofDiagnostics (r.diagnostics.filter fun d => Path.same d.location.file file)

private theorem mem_fixable_iff : d ∈ fixable r ↔ d ∈ r.diagnostics ∧ d.fixes ≠ [] := by
  simp [fixable]

private theorem exists_first_spelling (h : d ∈ fixable r) :
    ∃ first, ((fixable r).map (·.location.file)).find? (Path.same d.location.file) = some first := by
  rw [← Option.isSome_iff_exists, List.find?_isSome]
  exact ⟨_, List.mem_map_of_mem h, Path.same_iff.mpr rfl⟩

/-- The spelling of a file with fixes is that of some place where it has fixes. -/
theorem spellingOf_spec (h : d ∈ fixable r) :
    Path.same d.location.file (spellingOf r d.location.file) = true ∧
      ∃ e ∈ fixable r, e.location.file = spellingOf r d.location.file := by
  obtain ⟨first, hfirst⟩ := exists_first_spelling h
  rw [spellingOf, hfirst, Option.getD_some]
  exact ⟨List.find?_some hfirst, List.mem_map.mp (List.mem_of_find?_eq_some hfirst)⟩

private theorem spellingOf_congr (hd : d ∈ fixable r)
    (h : Path.same d.location.file e.location.file = true) :
    spellingOf r d.location.file = spellingOf r e.location.file := by
  have hsame : Path.same d.location.file = Path.same e.location.file := by
    funext path
    rw [Path.same, Path.same, Path.same_iff.mp h]
  obtain ⟨first, hfirst⟩ := exists_first_spelling hd
  rw [spellingOf, spellingOf, ← hsame, hfirst, Option.getD_some, Option.getD_some]

private theorem fixable_spelledAlike (r : LintResult) :
    fixable (spelledAlike r) = (fixable r).map (respelled r) := by
  rw [fixable, spelledAlike, List.filter_map, fixable]
  rfl

theorem mem_filesToFix_iff :
    file ∈ filesToFix (spelledAlike r) ↔ ∃ d ∈ fixable r, spellingOf r d.location.file = file := by
  rw [filesToFix, List.mem_mergeSort, List.mem_eraseDups, fixable_spelledAlike, List.map_map,
    List.mem_map]
  rfl

private theorem nodup_eraseDups {α : Type} [DecidableEq α] : ∀ as : List α, as.eraseDups.Nodup
  | [] => by simp
  | a :: as => by
    rw [List.eraseDups_cons, List.nodup_cons]
    exact ⟨by simp [List.mem_eraseDups], nodup_eraseDups (as.filter fun b => !b == a)⟩
termination_by as => as.length
decreasing_by exact Nat.lt_succ_of_le (List.length_filter_le _ as)

private theorem nodup_filesToFix (r : LintResult) : (filesToFix r).Nodup :=
  (List.mergeSort_perm _ _).nodup_iff.mpr (nodup_eraseDups _)

theorem eq_of_same (hfile : file ∈ filesToFix (spelledAlike r))
    (hother : other ∈ filesToFix (spelledAlike r)) (h : Path.same file other = true) :
    file = other := by
  obtain ⟨d, hd, rfl⟩ := mem_filesToFix_iff.mp hfile
  obtain ⟨e, he, rfl⟩ := mem_filesToFix_iff.mp hother
  have hds := Path.same_iff.mp (spellingOf_spec hd).1
  have hes := Path.same_iff.mp (spellingOf_spec he).1
  apply spellingOf_congr hd
  rw [Path.same_iff, hds, hes, Path.same_iff.mp h]

/-- The plan for a file chooses among all diagnostics of that file, however they spell it. -/
theorem planFor_spelledAlike (h : file ∈ filesToFix (spelledAlike r)) :
    planFor (spelledAlike r) file = planOf r file := by
  have hiff : ∀ d ∈ fixable r, (spellingOf r d.location.file == file) =
      Path.same d.location.file file := by
    intro d hd
    rw [Bool.eq_iff_iff, beq_iff_eq]
    constructor
    · rintro rfl
      exact (spellingOf_spec hd).1
    · intro hsame
      apply eq_of_same (mem_filesToFix_iff.mpr ⟨d, hd, rfl⟩) h
      rw [Path.same_iff, ← Path.same_iff.mp (spellingOf_spec hd).1, Path.same_iff.mp hsame]
  have hgroup : (fixable r).filter ((fun d => d.location.file == file) ∘ respelled r) =
      (r.diagnostics.filter fun d => Path.same d.location.file file).filter
        fun d => !d.fixes.isEmpty := by
    rw [← List.filter_comm]
    exact List.filter_congr hiff
  have hrespelled : (fun d : Diagnostic => d.fixes.head?) ∘ respelled r =
      fun d => d.fixes.head? := rfl
  rw [planFor, planOf, fixable_spelledAlike, List.filter_map, hgroup, FixPlan.ofDiagnostics,
    FixPlan.ofDiagnostics, List.filterMap_map, hrespelled, List.filterMap_filter]
  -- a diagnostic without fixes gives no candidate
  congr 2
  funext d
  cases d.fixes <;> rfl

/-- A list of the files with fixes: each is there once, as it is spelled somewhere, and they
are in strict order of their paths. -/
structure ListsFiles (r : LintResult) (order : List String) : Prop where
  complete : ∀ d ∈ r.diagnostics, d.fixes ≠ [] → ∃ file ∈ order, Path.same d.location.file file = true
  sound : ∀ file ∈ order, ∃ d ∈ r.diagnostics, d.fixes ≠ [] ∧ d.location.file = file
  ordered : order.Pairwise fun a b => Path.precedes a b = true ∧ Path.same a b = false

private theorem listsFiles_filesToFix (r : LintResult) :
    ListsFiles r (filesToFix (spelledAlike r)) where
  complete d hd hfixes := by
    have hd := mem_fixable_iff.mpr ⟨hd, hfixes⟩
    exact ⟨_, mem_filesToFix_iff.mpr ⟨d, hd, rfl⟩, (spellingOf_spec hd).1⟩
  sound file hfile := by
    obtain ⟨d, hd, rfl⟩ := mem_filesToFix_iff.mp hfile
    obtain ⟨e, he, hspelled⟩ := (spellingOf_spec hd).2
    obtain ⟨he, hfixes⟩ := mem_fixable_iff.mp he
    exact ⟨e, he, hfixes, hspelled⟩
  ordered := by
    have hordered : (filesToFix (spelledAlike r)).Pairwise fun a b => Path.precedes a b = true :=
      List.pairwise_mergeSort Path.precedes_trans Path.precedes_total _
    refine (hordered.and (nodup_filesToFix _)).imp_of_mem fun ha hb h => ⟨h.1, ?_⟩
    rw [Bool.eq_false_iff]
    exact fun hsame => h.2 (eq_of_same ha hb hsame)

end Files

section Outcome

variable {σ : Type} [FileSystem σ] [LawfulFileSystem σ]

/-- The files of a result denote different places. -/
def PlacedApart (files : σ) (root : String) (r : LintResult) : Prop :=
  ∀ d ∈ r.diagnostics, ∀ e ∈ r.diagnostics, d.fixes ≠ [] → e.fixes ≠ [] →
    place files (Path.join root d.location.file) = place files (Path.join root e.location.file) →
      Path.same d.location.file e.location.file = true

variable {before : σ} {root : String} {r : LintResult}

theorem PlacedApart.nodup (h : PlacedApart before root r) :
    ((filesToFix (spelledAlike r)).map fun file => place before (Path.join root file)).Nodup := by
  refine (List.nodup_map_iff_inj_on (nodup_filesToFix _)).mpr fun file hfile other hother hplace => ?_
  obtain ⟨d, hd, hdfixes, rfl⟩ := (listsFiles_filesToFix r).sound file hfile
  obtain ⟨e, he, hefixes, rfl⟩ := (listsFiles_filesToFix r).sound other hother
  exact eq_of_same hfile hother (h d hd e he hdfixes hefixes hplace)

/-- The files with fixes are fixed one after another in the order of their paths: all of
them, or those before one that cannot be fixed, and then that one and the later ones are as
they were. A file cannot be fixed only where, with those before it fixed, it cannot be read,
its text does not take the fixes, or it cannot be written. -/
theorem writeFixes_file_by_file (h : PlacedApart before root r) :
    ∃ order, ListsFiles r order ∧
      ((writeFixes before root r).error = none ∧
          FixedExactly root (planOf r) order before (writeFixes before root r).progress.files ∧
          (writeFixes before root r).progress.applied =
            (order.map fun file => (planOf r file).selected.length).sum ∨
        ∃ earlier file later texts tried, order = earlier ++ file :: later ∧
          (writeFixes before root r).error = some texts ∧
          FixedExactly root (planOf r) earlier before tried ∧
          FailsToFix tried (Path.join root file) (planOf r file) texts ∧
          FixedExactly root (planOf r) earlier before (writeFixes before root r).progress.files ∧
          ∀ other ∈ file :: later,
            bytes? (writeFixes before root r).progress.files (place before (Path.join root other)) =
              bytes? before (place before (Path.join root other))) := by
  obtain ⟨earlier, rest, hsplit, hfixed, hcount, hend⟩ :=
    @fixFiles_spec _ _ _ before root [] (spelledAlike r) ⟨before, 0, []⟩
      (filesToFix (spelledAlike r)) .nil h.nodup
  simp only [List.nil_append] at hfixed hend
  have hplans : ∀ file ∈ earlier, planFor (spelledAlike r) file = planOf r file :=
    fun file hfile => planFor_spelledAlike (by rw [hsplit]; exact List.mem_append_left _ hfile)
  have hfixed := hfixed.congr hplans
  refine ⟨_, listsFiles_filesToFix r, ?_⟩
  obtain ⟨hnone, rfl⟩ | ⟨texts, file, later, tried, herror, rfl, htried, hfails⟩ := hend
  · left
    rw [List.append_nil] at hsplit
    refine ⟨hnone, by rw [hsplit]; exact hfixed, hcount.trans ?_⟩
    rw [Nat.zero_add, hsplit]
    congr 1
    apply List.map_congr_left
    exact fun file hfile => by rw [hplans file hfile]
  · right
    have hplan : planFor (spelledAlike r) file = planOf r file :=
      planFor_spelledAlike (by rw [hsplit]; exact List.mem_append_right _ List.mem_cons_self)
    refine ⟨earlier, file, later, texts, tried, hsplit, herror, htried.congr hplans, hplan ▸ hfails,
      hfixed, fun other hother => ?_⟩
    apply hfixed.elsewhere
    intro done hdone
    have hnodup := h.nodup
    rw [hsplit, List.map_append, List.nodup_append] at hnodup
    exact hnodup.2.2 _ (List.mem_map_of_mem hdone) _ (List.mem_map_of_mem hother)

end Outcome

def capitalFix : Fix :=
  ⟨"start with a capital", [⟨0, 1, "T"⟩], by decide, by decide⟩

def capitalDiagnostic (file : String) : Diagnostic :=
  ⟨"X001", "capital", .info, .finding, ⟨file, 1, 1, 0, 1⟩, "small", none, [capitalFix]⟩

/-- Three files that are to start with a capital; the second is empty by now. -/
def staleStore : Store :=
  ⟨[("p/three.go", ⟨"three".toUTF8, true⟩), ("p/ten.go", ⟨"ten".toUTF8, true⟩),
    ("p/the.go", ⟨"".toUTF8, true⟩)]⟩

def staleResult : LintResult :=
  ⟨[capitalDiagnostic "ten.go", capitalDiagnostic "the.go", capitalDiagnostic "three.go"], 3, 0, false⟩

theorem writeFixes_file_by_file_staleStore :
    PlacedApart staleStore "p" staleResult ∧
      ∃ order, ListsFiles staleResult order ∧
        ∃ earlier file later texts tried, order = earlier ++ file :: later ∧ "ten.go" ∈ earlier ∧
          (writeFixes staleStore "p" staleResult).error = some texts ∧
          FixedExactly "p" (planOf staleResult) earlier staleStore tried ∧
          FailsToFix tried (Path.join "p" file) (planOf staleResult file) texts ∧
          FixedExactly "p" (planOf staleResult) earlier staleStore
            (writeFixes staleStore "p" staleResult).progress.files ∧
          ∀ other ∈ file :: later,
            bytes? (writeFixes staleStore "p" staleResult).progress.files (Path.join "p" other) =
              bytes? staleStore (Path.join "p" other) := by
  have hapart : PlacedApart staleStore "p" staleResult := by
    have hfiles : ∀ d ∈ staleResult.diagnostics, ∀ e ∈ staleResult.diagnostics,
        Path.join "p" d.location.file = Path.join "p" e.location.file →
          Path.same d.location.file e.location.file = true := by decide +kernel
    exact fun d hd e he _ _ h => hfiles d hd e he h
  have hfiles : filesToFix (spelledAlike staleResult) = ["ten.go", "the.go", "three.go"] := by
    rw [filesToFix, List.mergeSort_of_pairwise (by decide +kernel)]
    decide +kernel
  have herror : (writeFixes staleStore "p" staleResult).error =
      some ["Failed to fix p/the.go", "edit 0..1 is out of bounds for a source of 0 bytes"] := by
    rw [writeFixes, hfiles]
    decide +kernel
  have hchanged : bytes? (writeFixes staleStore "p" staleResult).progress.files "p/ten.go" ≠
      bytes? staleStore "p/ten.go" := by
    rw [writeFixes, hfiles]
    decide +kernel
  obtain ⟨order, horder, ⟨hnone, -⟩ | hfailed⟩ := writeFixes_file_by_file hapart
  · rw [herror] at hnone
    cases hnone
  · obtain ⟨earlier, file, later, texts, tried, hsplit, htexts, htried, hfails, hfixed, hsame⟩ :=
      hfailed
    have hten : "ten.go" ∈ order := by
      obtain ⟨first, hfirst, hspelled⟩ := horder.complete (capitalDiagnostic "ten.go")
        List.mem_cons_self (List.cons_ne_nil _ _)
      obtain ⟨d, hd, -, rfl⟩ := horder.sound first hfirst
      have honly : ∀ d ∈ staleResult.diagnostics,
          Path.same "ten.go" d.location.file = true → d.location.file = "ten.go" := by
        decide +kernel
      exact honly d hd hspelled ▸ hfirst
    have hearlier : "ten.go" ∈ earlier := by
      rw [hsplit, List.mem_append] at hten
      exact hten.resolve_right fun hlater => hchanged (hsame "ten.go" hlater)
    exact ⟨hapart, order, horder, earlier, file, later, texts, tried, hsplit, hearlier, htexts,
      htried, hfails, hfixed, hsame⟩

end Command

end Lintel
