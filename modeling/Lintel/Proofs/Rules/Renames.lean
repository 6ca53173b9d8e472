import Lintel.Go.Frontend
import Lintel.Proofs.Go.Linked
import Lintel.Proofs.Rules.Kinds
import Lintel.Proofs.Rules.Success

/-!
# Old names of the fields of tasks

Every identifier that names a field of a task in a literal or behind a dot, and that is an old
name, is reported once, in pre-order of the literals and selectors, with a fix that puts the new
name in its place and changes nothing else.
-/

namespace Lintel

open Lintel.Text

/-! ### Names of fields -/

/-- A node names a field of the type of another one, the owner: in a literal, which is its own
owner, as the key of an element, and in a selector as what is selected of the operand. -/
inductive NamesField (t : Tree) : (holder owner name : Nat) → Prop
  | key {literal element name value : Nat} {type : Option Nat} {elements : List Nat} :
      t.kind literal = .compositeLit type elements → element ∈ elements →
      t.kind element = .keyValue name value → NamesField t literal literal name
  | selected {selector operand field : Nat} :
      t.kind selector = .selectorExpr operand field → NamesField t selector operand field

def agreedNames : List (String × String) :=
  [("Content", "Title"), ("Done", "Completed")]

/-- A token that is to be renamed: an old name of a field of a task. -/
def IsOldName (t : Tree) (facts : FactTable) (token : Nat) : Prop :=
  ∃ holder owner old, NamesField t holder owner token ∧ IsTaskTyped facts owner ∧
    t.ident? token = some old ∧ old ∈ agreedNames.map (·.1)

/-- A token comes no later than another one: their holders are one node, or follow one another in
pre-order. -/
def HeldBefore (t : Tree) (token other : Nat) : Prop :=
  ∀ holder holder' owner owner', NamesField t holder owner token → NamesField t holder' owner' other →
    holder = holder' ∨ [holder, holder'].Sublist (t.preorder t.root)

def Tree.key? (t : Tree) (element : Nat) : Option Nat :=
  match t.kind element with
  | .keyValue key _ => some key
  | _ => none

/-- The names of fields that a literal or a selector holds, each with its owner. -/
def fieldNames (t : Tree) (holder : Nat) : List (Nat × Nat) :=
  match t.kind holder with
  | .compositeLit _ elements => (elements.filterMap t.key?).map fun key => (holder, key)
  | .selectorExpr operand field => [(operand, field)]
  | _ => []

def Tree.hasOldName (t : Tree) (token : Nat) : Bool :=
  (t.ident? token).any fun name => (taskRename? name).isSome

/-- The tokens that are to be renamed, in pre-order of the literals and selectors. -/
def oldNames (t : Tree) (facts : FactTable) : List Nat :=
  (((t.preorder t.root).flatMap (fieldNames t)).filter fun p =>
    facts.isTask p.1 && t.hasOldName p.2).map (·.2)

section Names

variable {t : Tree} {facts : FactTable} {holder other owner token : Nat}

private theorem key?_eq_some_iff {element key : Nat} :
    t.key? element = some key ↔ ∃ value, t.kind element = .keyValue key value := by
  unfold Tree.key?
  split
  · rename_i hkind
    simp [hkind]
  · rename_i hkind
    simp only [reduceCtorEq, false_iff, not_exists]
    exact fun value heq => hkind key value heq

theorem mem_fieldNames_iff : (owner, token) ∈ fieldNames t holder ↔ NamesField t holder owner token := by
  constructor
  · intro h
    unfold fieldNames at h
    split at h
    · rename_i hkind
      obtain ⟨key, hkey, heq⟩ := List.mem_map.mp h
      obtain ⟨rfl, rfl⟩ := Prod.mk.inj heq
      obtain ⟨element, helement, hkey⟩ := List.mem_filterMap.mp hkey
      obtain ⟨value, hpair⟩ := key?_eq_some_iff.mp hkey
      exact .key hkind helement hpair
    · rename_i hkind
      obtain ⟨rfl, rfl⟩ := Prod.mk.inj (List.mem_singleton.mp h)
      exact .selected hkind
    · cases h
  · rintro (⟨hkind, helement, hpair⟩ | hkind)
    · simp only [fieldNames, hkind, List.mem_map, List.mem_filterMap]
      exact ⟨token, ⟨_, helement, key?_eq_some_iff.mpr ⟨_, hpair⟩⟩, rfl⟩
    · simp [fieldNames, hkind]

private theorem taskRename?_eq_some_iff {old new : String} :
    taskRename? old = some new ↔ (old, new) ∈ agreedNames := by
  simp only [agreedNames, List.mem_cons, Prod.mk.injEq, List.not_mem_nil, or_false]
  unfold taskRename?
  split <;> grind

private theorem hasOldName_iff :
    t.hasOldName token = true ↔ ∃ old, t.ident? token = some old ∧ old ∈ agreedNames.map (·.1) := by
  simp only [Tree.hasOldName, Option.any_eq_true, Option.isSome_iff_exists, taskRename?_eq_some_iff,
    List.mem_map, Prod.exists, exists_and_right, exists_eq_right]

/-- The tokens that are to be renamed are the old names of fields of tasks. -/
theorem mem_oldNames_iff : token ∈ oldNames t facts ↔ IsOldName t facts token := by
  have hfile : ∀ id, t.kind id = .file → fieldNames t id = [] := fun id hkind => by
    rw [fieldNames, hkind]
  simp only [oldNames, IsOldName, List.mem_map, List.mem_filter, Bool.and_eq_true,
    Tree.mem_flatMap_preorder_iff hfile, hasOldName_iff, isTask_iff, Prod.exists, exists_eq_right,
    mem_fieldNames_iff]
  constructor
  · rintro ⟨owner, ⟨holder, hnames⟩, htask, old, hold⟩
    exact ⟨holder, owner, old, hnames, htask, hold⟩
  · rintro ⟨holder, owner, old, hnames, htask, hold⟩
    exact ⟨owner, ⟨holder, hnames⟩, htask, old, hold⟩

end Names

/-! ### Tokens of parsed files -/

section Parsed

variable {read : String → Option Go.Concrete} {file : SourceFile} {t : Tree}
  (hread : Go.parseWith read file = .ok t) {holder other owner owner' token : Nat}

include hread

/-- A name is a child of an element of its holder, or of its holder. -/
theorem NamesField.exists_parent (h : NamesField t holder owner token) :
    ∃ parent, token ∈ t.children parent ∧
      (parent ∈ t.children holder ∧ t.tag parent = .keyValue ∨
        parent = holder ∧ t.tag parent = .selectorExpr) := by
  have hrefs := Go.refs_subset_children_of_parseWith hread
  cases h with
  | @key element _ _ _ _ hkind helement hpair =>
    have hname : token ∈ (t.kind element).refs := by
      rw [hpair]
      exact List.mem_cons_self
    have hheld : element ∈ (t.kind holder).refs := by
      rw [hkind]
      exact List.mem_append_right _ helement
    exact ⟨element, hrefs _ hname, .inl ⟨hrefs _ hheld, by rw [Tree.tag, hpair]; rfl⟩⟩
  | selected hkind =>
    have hname : token ∈ (t.kind holder).refs := by
      rw [hkind]
      exact List.mem_cons_of_mem _ List.mem_cons_self
    exact ⟨holder, hrefs _ hname, .inr ⟨rfl, by rw [Tree.tag, hkind]; rfl⟩⟩

/-- A name has one holder. -/
theorem NamesField.holder_unique (h : NamesField t holder owner token)
    (hother : NamesField t other owner' token) : holder = other := by
  obtain ⟨parent, hchild, hheld⟩ := h.exists_parent hread
  obtain ⟨parent', hchild', hheld'⟩ := hother.exists_parent hread
  obtain rfl := Tree.parent_unique hchild hchild'
  rcases hheld with ⟨hheld, htag⟩ | ⟨rfl, htag⟩
  · rcases hheld' with ⟨hheld', -⟩ | ⟨-, htag'⟩
    · exact Tree.parent_unique hheld hheld'
    · rw [htag] at htag'
      cases htag'
  · rcases hheld' with ⟨-, htag'⟩ | ⟨hheld', -⟩
    · rw [htag] at htag'
      cases htag'
    · exact hheld'

private theorem nodup_fieldNames (holder : Nat) : ((fieldNames t holder).map (·.2)).Nodup := by
  unfold fieldNames
  split
  · rename_i type elements hkind
    have hsublist : elements.Sublist (t.children holder) :=
      (Go.formed_of_parseWith hread holder).elements_sublist hkind
    simp only [List.map_map, Function.comp_def, List.map_id']
    refine ((t.nodup_children holder).sublist hsublist).filterMap fun element element' key hkey hkey' => ?_
    obtain ⟨value, hpair⟩ := key?_eq_some_iff.mp hkey
    obtain ⟨value', hpair'⟩ := key?_eq_some_iff.mp hkey'
    have hrefs := Go.refs_subset_children_of_parseWith hread
    exact Tree.parent_unique (hrefs element (by rw [hpair]; exact List.mem_cons_self))
      (hrefs element' (by rw [hpair']; exact List.mem_cons_self))
  · exact List.nodup_singleton _
  · exact List.nodup_nil

private theorem nodup_oldNames (facts : FactTable) : (oldNames t facts).Nodup := by
  have hnames : ((t.preorder t.root).flatMap fun holder => (fieldNames t holder).map (·.2)).Nodup := by
    refine List.nodup_flatMap.mpr ⟨fun holder _ => nodup_fieldNames hread holder, ?_⟩
    refine t.nodup_preorder_root.imp fun hne token hmem hmem' => hne ?_
    obtain ⟨p, hp, rfl⟩ := List.mem_map.mp hmem
    obtain ⟨q, hq, hsame⟩ := List.mem_map.mp hmem'
    have hother := mem_fieldNames_iff.mp hq
    rw [hsame] at hother
    exact (mem_fieldNames_iff.mp hp).holder_unique hread hother
  rw [← List.map_flatMap] at hnames
  exact hnames.sublist (List.filter_sublist.map _)

private theorem pairwise_oldNames (facts : FactTable) :
    (oldNames t facts).Pairwise (HeldBefore t) := by
  have hnames : ((t.preorder t.root).flatMap (fieldNames t)).Pairwise fun p q =>
      HeldBefore t p.2 q.2 := by
    -- The holders of two names are the nodes that the names come from.
    have hplaces : ∀ {first second : Nat} {p q : Nat × Nat}, p ∈ fieldNames t first →
        q ∈ fieldNames t second → (first = second ∨ [first, second].Sublist (t.preorder t.root)) →
          HeldBefore t p.2 q.2 := by
      intro first second p q hp hq hplace holder holder' owner owner' hheld hheld'
      obtain rfl := (mem_fieldNames_iff.mp hp).holder_unique hread hheld
      obtain rfl := (mem_fieldNames_iff.mp hq).holder_unique hread hheld'
      exact hplace
    refine List.pairwise_flatMap.mpr ⟨fun holder _ => ?_, ?_⟩
    · exact List.pairwise_of_forall_mem_list fun p hp q hq => hplaces hp hq (.inl rfl)
    · exact List.pairwise_iff_forall_sublist.mpr fun hsublist p hp q hq =>
        hplaces hp hq (.inr hsublist)
  exact List.pairwise_map.mpr (hnames.sublist List.filter_sublist)

end Parsed

/-! ### Questions about names -/

def TaskQuestion.isRename (t : Tree) : TaskQuestion → Bool
  | .name field => t.hasOldName field
  | .time _ _ => false

section Questions

variable {t : Tree} {facts : FactTable}

private theorem filter_elementQuestions (elements : List Nat) :
    (elements.flatMap (elementQuestions t)).filter (TaskQuestion.isRename t) =
      ((elements.filterMap t.key?).filter t.hasOldName).map .name := by
  induction elements with
  | nil => rfl
  | cons element elements ih =>
    rw [List.flatMap_cons, List.filter_append, ih, List.filterMap_cons]
    unfold elementQuestions Tree.key?
    cases hkind : t.kind element with
    | keyValue key value =>
      cases hold : t.hasOldName key <;> simp [TaskQuestion.isRename, hold]
    | _ => rfl

private theorem isRename_of_mem_targetQuestions {target value : Nat} {q : TaskQuestion}
    (hq : q ∈ targetQuestions t facts target value) : q.isRename t = false := by
  unfold targetQuestions at hq
  split at hq
  · split at hq
    · rw [List.mem_singleton.mp hq]
      rfl
    · cases hq
  · cases hq

private theorem filter_questionsAt (holder : Nat) :
    (questionsAt t facts holder).filter (TaskQuestion.isRename t) =
      ((fieldNames t holder).filter fun p => facts.isTask p.1 && t.hasOldName p.2).map
        fun p => .name p.2 := by
  unfold questionsAt fieldNames
  cases hkind : t.kind holder with
  | compositeLit type elements =>
    cases htask : facts.isTask holder with
    | true =>
      simp only [if_true, filter_elementQuestions, List.filter_map, List.map_map]
      simp [Function.comp_def, htask]
    | false => simp [List.filter_map, Function.comp_def, htask]
  | selectorExpr operand field =>
    cases htask : facts.isTask operand <;> cases hold : t.hasOldName field <;>
      simp [TaskQuestion.isRename, htask, hold]
  | assignStmt targets values define =>
    refine List.filter_eq_nil_iff.mpr fun q hq => ?_
    dsimp only at hq
    split at hq
    · obtain ⟨p, -, hq⟩ := List.mem_flatMap.mp hq
      simp [isRename_of_mem_targetQuestions hq]
    · cases hq
  | _ => rfl

/-- The questions about old names are those about the tokens that are to be renamed. -/
theorem filter_taskQuestions :
    (taskQuestions t facts).filter (TaskQuestion.isRename t) = (oldNames t facts).map .name := by
  rw [taskQuestions, oldNames, List.filter_flatMap, List.filter_flatMap, List.map_map,
    List.map_flatMap]
  exact List.flatMap_congr fun holder _ => filter_questionsAt holder

end Questions

/-! ### Answers -/

/-- A diagnostic asks for the new name of a token, and the one fix that it offers puts this name in
place of the token and changes nothing else. -/
structure Renames (pass : Pass Published) (token : Nat) (old new : String) (d : Diagnostic) : Prop where
  name : pass.tree.ident? token = some old
  agreed : (old, new) ∈ agreedNames
  finding : ∃ fix, d = pass.finding (pass.tree.span token)
      s!"task field `{old}` should be named `{new}`" none [fix] ∧
    fix.edits = [⟨(pass.tree.span token).start, (pass.tree.span token).stop, new⟩] ∧
    ∃ before after, pass.file.content = before ++ old ++ after ∧
      byteLength before = (pass.tree.span token).start ∧
      byteLength before + byteLength old = (pass.tree.span token).stop ∧
      applyFix pass.file.content fix = .ok (before ++ new ++ after)

section Answers

variable {pass : Pass Published} {token : Nat}

private theorem checkRename_of_not_hasOldName (h : pass.tree.hasOldName token = false) :
    checkRename pass token = .ok [] := by
  unfold checkRename
  unfold Tree.hasOldName at h
  split
  · rfl
  · rename_i name hname
    rw [hname, Option.any_some, Option.isSome_eq_false_iff, Option.isNone_iff_eq_none] at h
    rw [h]
    rfl

/-- An old name is reported, and what is offered replaces it. -/
theorem exists_renames {read : String → Option Go.Concrete} {file : SourceFile}
    (hread : Go.parseWith read file = .ok pass.tree) (h : pass.tree.hasOldName token = true) :
    ∃ d old new, checkRename pass token = .ok [d] ∧ Renames pass token old new d := by
  obtain ⟨_, hname, hold⟩ := hasOldName_iff.mp h
  obtain ⟨⟨old, new⟩, hagreed, rfl⟩ := List.mem_map.mp hold
  -- The token is not empty, so that its text is a slice of the file and its range is forward.
  obtain ⟨before, after, hcontent, hstart, hstop⟩ : ∃ before after,
      pass.file.content = before ++ old ++ after ∧ byteLength before = (pass.tree.span token).start ∧
        byteLength before + byteLength old = (pass.tree.span token).stop := by
    have htext := (Go.formed_of_parseWith hread token).name_eq_text (Tree.ident?_eq_some_iff.mp hname)
    have hlong : old ≠ "" := by
      rintro rfl
      simp [agreedNames] at hagreed
    unfold SourceFile.text at htext
    cases hslice : slice? pass.tree.file.content (pass.tree.span token).start
        (pass.tree.span token).stop with
    | none =>
      exact absurd (htext.trans (congrArg (·.getD "") hslice)) hlong
    | some text =>
      obtain rfl := htext.trans (congrArg (·.getD "") hslice)
      exact slice?_eq_some_iff.mp hslice
  have hforward : (TextEdit.replace (pass.tree.span token) new).start ≤
      (TextEdit.replace (pass.tree.span token) new).stop := by
    simp only [TextEdit.replace]
    omega
  obtain ⟨fix, hfix⟩ := exists_check s!"Rename `{old}` to `{new}`" hforward
  have hedits := edits_of_check hfix
  refine ⟨_, old, new, ?_, hname, hagreed, fix, rfl, hedits, before, after, hcontent, hstart, hstop, ?_⟩
  · unfold checkRename
    simp only [hname, taskRename?_eq_some_iff.mpr hagreed, hfix]
    rfl
  · rw [hcontent]
    exact applyFix_middle hedits hstart hstop

theorem Renames.isHeard {old new : String} {d : Diagnostic} (h : Renames pass token old new d) :
    pass.isHeard d = pass.hears token := by
  obtain ⟨fix, rfl, -⟩ := h.finding
  rfl

/-- The rule comes to an end, and what it reports are blocks, one for every question that the file
asks. -/
theorem exists_taskBlocks {read : String → Option Go.Concrete} {file : SourceFile}
    (hread : Go.parseWith read file = .ok pass.tree) (severity : Severity) :
    ∃ blocks, (taskFields severity).run pass = .ok (.report blocks.flatten) ∧
      List.Forall₂ (fun q block => q ∈ taskQuestions pass.tree pass.facts ∧
        q.answer pass = .ok block) (taskQuestions pass.tree pass.facts) blocks := by
  have hgrounded := Go.grounded_of_parseWith hread
  have hanswer : ∀ q ∈ taskQuestions pass.tree pass.facts, ∃ ds, q.answer pass = .ok ds := by
    intro q _
    cases q with
    | name field =>
      cases hold : pass.tree.hasOldName field with
      | true =>
        obtain ⟨d, -, -, hd, -⟩ := exists_renames hread hold
        exact ⟨[d], hd⟩
      | false => exact ⟨[], checkRename_of_not_hasOldName hold⟩
    | time field value => exact exists_checkTime hgrounded field value
  obtain ⟨ds, hds⟩ := exists_gather hanswer
  obtain ⟨blocks, hblocks, rfl⟩ := gather_eq_ok_iff.mp hds
  refine ⟨blocks, by rw [run_taskFields hgrounded, hds]; rfl, ?_⟩
  rw [List.forall₂_iff_zip] at hblocks ⊢
  exact ⟨hblocks.1, fun hzip => ⟨(List.of_mem_zip hzip).1, hblocks.2 hzip⟩⟩

/-- What is reported apart from times are the new names of the tokens that are to be renamed. -/
theorem exists_forall₂_renames {read : String → Option Go.Concrete} {file : SourceFile}
    (hread : Go.parseWith read file = .ok pass.tree) (severity : Severity) :
    ∃ ds, (taskFields severity).run pass = .ok (.report ds) ∧
      List.Forall₂ (fun token d => ∃ old new, Renames pass token old new d)
        (oldNames pass.tree pass.facts) (ds.filter fun d => !d.isTimeFinding) := by
  obtain ⟨blocks, hrun, hblocks⟩ := exists_taskBlocks hread severity
  refine ⟨blocks.flatten, hrun, ?_⟩
  have hrenames : List.Forall₂ (fun q d => ∃ token old new, q = .name token ∧
      Renames pass token old new d) ((taskQuestions pass.tree pass.facts).filter
        (TaskQuestion.isRename pass.tree)) (blocks.flatten.filter fun d => !d.isTimeFinding) := by
    refine forall₂_filter_flatten hblocks (fun q block ⟨_, hblock⟩ hq => ?_)
      fun q block ⟨_, hblock⟩ hq => ?_
    · cases q with
      | name token =>
        obtain ⟨d, old, new, hd, hrenames⟩ := exists_renames hread hq
        obtain rfl := Except.ok.inj (hblock.symm.trans hd)
        have hother := checkRename_isTimeFinding token _ hd d List.mem_cons_self
        exact ⟨d, by simp [hother], token, old, new, rfl, hrenames⟩
      | time field value => cases hq
    · cases q with
      | name token =>
        obtain rfl := Except.ok.inj (hblock.symm.trans (checkRename_of_not_hasOldName hq))
        rfl
      | time field value =>
        refine List.filter_eq_nil_iff.mpr fun d hd => ?_
        simp [checkTime_isTimeFinding field value _ hblock d hd]
  rw [filter_taskQuestions, List.forall₂_map_left_iff] at hrenames
  refine hrenames.imp fun token d h => ?_
  obtain ⟨_, old, new, heq, h⟩ := h
  obtain rfl := TaskQuestion.name.inj heq
  exact ⟨old, new, h⟩

end Answers

/-- Exactly the old names of fields of tasks are to be renamed, each of them once, in pre-order of
the literals and selectors, and what is reported apart from times are, in this order, the new names
for those of them that no comment silences. -/
theorem taskFields_renames {pass : Pass Published} {read : String → Option Go.Concrete}
    {file : SourceFile} (hread : Go.parseWith read file = .ok pass.tree) (severity : Severity) :
    (oldNames pass.tree pass.facts).Nodup ∧
    (∀ token, token ∈ oldNames pass.tree pass.facts ↔ IsOldName pass.tree pass.facts token) ∧
    (oldNames pass.tree pass.facts).Pairwise (HeldBefore pass.tree) ∧
    ∃ ds, (taskFields severity).run pass = .ok (.report ds) ∧
      List.Forall₂ (fun token d => ∃ old new, Renames pass token old new d)
        ((oldNames pass.tree pass.facts).filter pass.hears)
        ((pass.heard ds).filter fun d => !d.isTimeFinding) := by
  refine ⟨nodup_oldNames hread pass.facts, fun token => mem_oldNames_iff,
    pairwise_oldNames hread pass.facts, ?_⟩
  obtain ⟨ds, hrun, hrenames⟩ := exists_forall₂_renames hread severity
  refine ⟨ds, hrun, ?_⟩
  rw [Pass.heard, List.filter_comm]
  refine List.rel_filter (fun token d h => ?_) hrenames
  obtain ⟨old, new, h⟩ := h
  exact Bool.eq_iff_iff.mp h.isHeard.symm

/-- A task in a task, an old name that a comment allows, and one that is selected. -/
def nestedTasks : SourceFile :=
  .ofText "a.go" ("package a\n\ntype Task struct \x7b\x7d\n\nvar t = Task\x7b\n" ++
    "\tContent: \"é\", // goarch-lint:allow(all)\n\n\tNext: &Task\x7bDone: true\x7d,\n\x7d\n\n" ++
    "var done = t.Done\n") ""

def taskPass (t : Tree) : Pass Published :=
  ⟨⟨t, Go.resolve t (some "a") [], none⟩, (taskFields .warning).info, []⟩

theorem taskFields_renames_nestedTasks : ∃ t ds, Go.parse nestedTasks = .ok t ∧
    (taskFields .warning).run (taskPass t) = .ok (.report ds) ∧
    (oldNames t (taskPass t).facts).map t.text = ["Content", "Done", "Done"] ∧
    List.Forall₂ (fun token d => ∃ old new, Renames (taskPass t) token old new d) [14, 25]
      (((taskPass t).heard ds).filter fun d => !d.isTimeFinding) := by
  have hread : (Go.parse nestedTasks).toOption.map (fun t => decide (
      ((oldNames t (taskPass t).facts).map fun token => (token, t.text token, (taskPass t).hears token)) =
        [(9, "Content", false), (14, "Done", true), (25, "Done", true)])) = some true := by
    decide +kernel
  obtain ⟨t, hok, hdecide⟩ := Option.map_eq_some_iff.mp hread
  have htokens := of_decide_eq_true hdecide
  have htexts : (oldNames t (taskPass t).facts).map t.text = ["Content", "Done", "Done"] := by
    simpa [Function.comp_def] using congrArg (List.map fun p => p.2.1) htokens
  have hheard : (oldNames t (taskPass t).facts).filter (taskPass t).hears = [14, 25] := by
    have h := congrArg (fun ps => (ps.filter fun p => p.2.2).map fun p => p.1) htokens
    simpa [List.filter_map, Function.comp_def] using h
  have hparse : Go.parse nestedTasks = .ok t := toOption_eq_some_iff.mp hok
  have hpass : Go.parse nestedTasks = .ok (taskPass t).tree := hparse
  obtain ⟨-, -, -, ds, hrun, hrenames⟩ := taskFields_renames hpass .warning
  rw [show (taskPass t).tree = t from rfl, hheard] at hrenames
  exact ⟨t, ds, hparse, hrun, htexts, hrenames⟩

end Lintel
