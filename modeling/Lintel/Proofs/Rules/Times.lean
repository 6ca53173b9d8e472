import Lintel.Proofs.Go.Constants
import Lintel.Proofs.Rules.Renames

/-!
# Values of the times of tasks

What a field with a time gets is reported unless it is a literal number behind signs or of no known
type but that of times. A number in parentheses, or behind the complement, is one whose type is
known, so that it is reported.
-/

namespace Lintel

/-! ### Values of fields -/

/-- A value is assigned to a field of the type of a node, the owner: in a literal, which is its own
owner, by an element, and else by an assignment of as many values as targets to what is selected of
an operand. -/
inductive AssignsField (t : Tree) : (owner field value : Nat) → Prop
  | element {literal element field value : Nat} {type : Option Nat} {elements : List Nat} :
      t.kind literal = .compositeLit type elements → element ∈ elements →
      t.kind element = .keyValue field value → AssignsField t literal field value
  | target {assignment target operand field value : Nat} {targets values : List Nat} {define : Bool} :
      t.kind assignment = .assignStmt targets values define → targets.length = values.length →
      (target, value) ∈ targets.zip values → t.kind target = .selectorExpr operand field →
      AssignsField t operand field value

/-- A field of a task that holds a time gets a value. -/
def IsTimeValue (t : Tree) (facts : FactTable) (field value : Nat) : Prop :=
  ∃ owner name, AssignsField t owner field value ∧ IsTaskTyped facts owner ∧
    t.ident? field = some name ∧ name ∈ ["CreatedAt", "UpdatedAt"]

/-- The field and the value that a question is about, if it is about a time. -/
def TaskQuestion.time? (t : Tree) : TaskQuestion → Option (Nat × Nat)
  | .name _ => none
  | .time field value => if (t.ident? field).any isTimeField then some (field, value) else none

/-- The values of times of tasks, in the order in which a walk comes to them. -/
def timeValues (t : Tree) (facts : FactTable) : List (Nat × Nat) :=
  (taskQuestions t facts).filterMap (TaskQuestion.time? t)

section Values

variable {t : Tree} {facts : FactTable} {owner field value : Nat}

private theorem time_mem_elementQuestions_iff {element : Nat} :
    .time field value ∈ elementQuestions t element ↔ t.kind element = .keyValue field value := by
  unfold elementQuestions
  split
  · rename_i hkind
    simp [hkind, eq_comm]
  · rename_i hkind
    simp only [List.not_mem_nil, false_iff]
    exact hkind field value

private theorem time_mem_targetQuestions_iff {target other : Nat} :
    .time field value ∈ targetQuestions t facts target other ↔ value = other ∧
      ∃ operand, t.kind target = .selectorExpr operand field ∧ facts.isTask operand = true := by
  unfold targetQuestions
  split
  · rename_i operand selected hkind
    split <;> simp_all
    grind
  · rename_i hkind
    simp only [List.not_mem_nil, false_iff]
    rintro ⟨-, operand, heq, -⟩
    exact hkind operand field heq

private theorem time_mem_taskQuestions_iff : .time field value ∈ taskQuestions t facts ↔
    ∃ owner, AssignsField t owner field value ∧ facts.isTask owner = true := by
  have hfile : ∀ id, t.kind id = .file → questionsAt t facts id = [] := fun id hkind => by
    rw [questionsAt, hkind]
  rw [taskQuestions, Tree.mem_flatMap_preorder_iff hfile]
  constructor
  · rintro ⟨id, hid⟩
    unfold questionsAt at hid
    split at hid
    · rename_i hkind
      split at hid
      · rename_i htask
        obtain ⟨element, helement, hpair⟩ := List.mem_flatMap.mp hid
        exact ⟨id, .element hkind helement (time_mem_elementQuestions_iff.mp hpair), htask⟩
      · cases hid
    · split at hid
      · cases List.mem_singleton.mp hid
      · cases hid
    · rename_i hkind
      split at hid
      · rename_i hlength
        obtain ⟨⟨target, other⟩, hzip, hpair⟩ := List.mem_flatMap.mp hid
        obtain ⟨rfl, operand, hselector, htask⟩ := time_mem_targetQuestions_iff.mp hpair
        exact ⟨operand, .target hkind (eq_of_beq hlength) hzip hselector, htask⟩
      · cases hid
    · cases hid
  · rintro ⟨owner, ⟨hkind, helement, hpair⟩ | ⟨hkind, hlength, hzip, hselector⟩, htask⟩
    · refine ⟨owner, ?_⟩
      simp only [questionsAt, hkind, htask, if_true, List.mem_flatMap]
      exact ⟨_, helement, time_mem_elementQuestions_iff.mpr hpair⟩
    · rename_i assignment target targets values define
      refine ⟨assignment, ?_⟩
      simp only [questionsAt, hkind, hlength, beq_self_eq_true, if_true, List.mem_flatMap]
      exact ⟨_, hzip, time_mem_targetQuestions_iff.mpr ⟨rfl, owner, hselector, htask⟩⟩

/-- The values of times are what fields of tasks that hold times get. -/
theorem mem_timeValues_iff : (field, value) ∈ timeValues t facts ↔ IsTimeValue t facts field value := by
  have htime : ∀ q : TaskQuestion, q.time? t = some (field, value) ↔ q = .time field value ∧
      ∃ name, t.ident? field = some name ∧ name ∈ ["CreatedAt", "UpdatedAt"] := by
    intro q
    cases q with
    | name other => simp [TaskQuestion.time?]
    | time other given =>
      simp only [TaskQuestion.time?, Option.ite_none_right_eq_some, Option.some.injEq, Prod.mk.injEq,
        TaskQuestion.time.injEq, Option.any_eq_true, isTimeField, Bool.or_eq_true, beq_iff_eq,
        List.mem_cons, List.not_mem_nil, or_false]
      grind
  simp only [timeValues, List.mem_filterMap, htime, IsTimeValue]
  constructor
  · rintro ⟨_, hmem, rfl, name, hname, htime⟩
    obtain ⟨owner, hassigns, htask⟩ := time_mem_taskQuestions_iff.mp hmem
    exact ⟨owner, name, hassigns, isTask_iff.mp htask, hname, htime⟩
  · rintro ⟨owner, name, hassigns, htask, hname, htime⟩
    exact ⟨_, time_mem_taskQuestions_iff.mpr ⟨owner, hassigns, isTask_iff.mpr htask⟩, rfl, name, hname,
      htime⟩

end Values

/-! ### Types that are known -/

section Known

variable {read : String → Option Go.Concrete} {file : SourceFile} {t : Tree} {package : Option String}
  {s : Go.Scope} {m : Go.Memory} {owner field value : Nat}
  (hrefs : ∀ id, (t.kind id).refs ⊆ t.children id)

include hrefs

/-- Where the type of the owner is known, a walk has come to the value. -/
theorem AssignsField.covered (h : AssignsField t owner field value)
    (hresolved : Go.Resolved t package s m) (hreached : Go.Reached t m)
    (htype : (m.facts.typeOf? owner).isSome) : Go.Covered t m value := by
  have hknown : ¬ Go.IsTarget t owner → Go.Covered t m owner := by
    intro htarget
    rw [hresolved.typeOf?_eq htarget] at htype
    refine hreached owner ?_
    cases hanswer : m.known[owner]? with
    | none => simp [hanswer] at htype
    | some answer => rfl
  have hchild : ∀ {id ref}, ref ∈ (t.kind id).refs → t.Below id ref := fun href =>
    .tail .refl (hrefs _ href)
  cases h with
  | element hkind helement hpair =>
    rename_i element type elements
    have hliteral : ¬ Go.IsTarget t owner :=
      Go.not_isTarget_of_ident? (by rw [Tree.ident?, hkind]; rfl)
    have hheld : element ∈ (t.kind owner).refs := by
      rw [hkind]
      exact List.mem_append_right _ helement
    have hvalue : value ∈ (t.kind element).refs := by
      rw [hpair]
      exact List.mem_cons_of_mem _ List.mem_cons_self
    exact ((hknown hliteral).below (hchild hheld)).below (hchild hvalue)
  | target hkind hlength hzip hselector =>
    rename_i assignment target targets values define
    have hpart : owner ∈ Go.partsOf t target := by
      rw [Go.partsOf, hselector]
      exact List.mem_cons_self
    have htarget : target ∈ (t.kind assignment).refs := by
      rw [hkind]
      exact List.mem_append_left _ (List.of_mem_zip hzip).1
    have hvalue : value ∈ (t.kind assignment).refs := by
      rw [hkind]
      exact List.mem_append_right _ (List.of_mem_zip hzip).2
    have hoperand : owner ∈ (t.kind target).refs := by
      rw [hselector]
      exact List.mem_cons_self
    have hselected : Go.Covered t m target :=
      (hknown (Go.not_isTarget_of_mem_partsOf hrefs hpart)).parent (hrefs _ hoperand)
        (by simp [Tree.tag, hselector, NodeKind.tag])
    have hassignment : Go.Covered t m assignment :=
      hselected.parent (hrefs _ htarget) (by simp [Tree.tag, hkind, NodeKind.tag])
    exact hassignment.below (hchild hvalue)

end Known

/-- The type that is recorded of a number that a time of a task gets is that of its literal. -/
theorem IsTimeValue.exists_litType {read : String → Option Go.Concrete} {file : SourceFile} {t : Tree}
    (hread : Go.parseWith read file = .ok t) {package : Option String}
    {siblings : List (String × Method)} {field value : Nat}
    (h : IsTimeValue t (Go.resolve t package siblings) field value) (hnumber : Go.IsNumber t value) :
    ∃ kind ∈ [LitKind.int, .float, .rune],
      (Go.resolve t package siblings).typeOf? value = some (Go.litType kind) := by
  obtain ⟨owner, name, hassigns, ⟨type, -, -, htype, -⟩, -⟩ := h
  obtain ⟨s, m, hresolved, hreached, hfacts⟩ := Go.exists_resolved_reached hread package siblings
  rw [hfacts] at htype ⊢
  have hcovered := hassigns.covered (Go.refs_subset_children_of_parseWith hread) hresolved hreached
    (by rw [htype]; rfl)
  obtain ⟨answer, hknown⟩ := Option.isSome_iff_exists.mp (hcovered.known hnumber.isAsked)
  obtain ⟨kind, hkind, rfl⟩ := hnumber.litType hresolved.sound hknown
  refine ⟨kind, hkind, ?_⟩
  rw [hresolved.typeOf?_eq (Go.not_isTarget_of_ident? hnumber.ident?_eq_none), hknown]
  rfl

/-! ### Verdicts -/

private theorem isInt64_iff {type : GoType} : type.isInt64 = true ↔ type = .basic "int64" := by
  unfold GoType.isInt64
  split
  · simp
  · rename_i hbasic
    simp only [Bool.false_eq_true, false_iff]
    exact hbasic "int64"

theorem LooksForNumber.eq_true_iff {t : Tree} {value : Nat} {b : Bool} (h : LooksForNumber t value b) :
    b = true ↔ Go.IsSigned t value := by
  induction h with
  | literal hkind =>
    constructor
    · intro hnumber
      exact .literal hkind (by simpa [or_assoc] using hnumber)
    · intro hsigned
      cases hsigned with
      | literal hkind' hnumber =>
        obtain ⟨rfl, -⟩ := NodeKind.basicLit.inj (hkind.symm.trans hkind')
        simpa [or_assoc] using hnumber
      | unary hkind' => cases hkind.symm.trans hkind'
      | parenthesized hparens => cases hparens
  | signed hkind hop _ _ ih =>
    refine ih.trans ⟨fun hsigned => .unary hkind (by simpa using hop) hsigned, fun hsigned => ?_⟩
    cases hsigned with
    | literal hkind' => cases hkind.symm.trans hkind'
    | unary hkind' _ hoperand =>
      obtain ⟨-, rfl⟩ := NodeKind.unaryExpr.inj (hkind.symm.trans hkind')
      exact hoperand
    | parenthesized hparens => cases hparens
  | unsigned hkind hop =>
    refine iff_of_false Bool.false_ne_true fun hsigned => ?_
    cases hsigned with
    | literal hkind' => cases hkind.symm.trans hkind'
    | unary hkind' hop' =>
      obtain ⟨rfl, -⟩ := NodeKind.unaryExpr.inj (hkind.symm.trans hkind')
      simp_all
    | parenthesized hparens => cases hparens
  | other hliteral hunary =>
    refine iff_of_false Bool.false_ne_true fun hsigned => ?_
    cases hsigned with
    | literal hkind' => exact hliteral _ _ hkind'
    | unary hkind' => exact hunary _ _ hkind'
    | parenthesized hparens => cases hparens

private theorem isSigned_iff {t : Tree} {value : Nat} (h : t.Grounded) :
    Go.IsSigned t value ↔ isNumericConstant t value = .ok true := by
  obtain ⟨b, hb, hlooks⟩ := exists_isNumericConstant h value
  rw [hb, ← hlooks.eq_true_iff, Except.ok.injEq]

/-- What is reported of the value of a time: nothing, or one finding at the value. Nothing is
reported of a literal number behind signs, and of what is not known to have another type than times
have; of all other numbers something is. -/
structure TimeVerdict (pass : Pass Published) (value : Nat) (block : List Diagnostic) : Prop where
  finding : block = [] ∨ ∃ help fixes, block = [pass.finding (pass.tree.span value)
    "time fields must be int64 (Unix timestamp)" help fixes]
  silent : block = [] ↔ Go.IsSigned pass.tree value ∨
    ∀ type, pass.facts.typeOf? value = some type → type = .basic "int64"
  number : Go.IsNumber pass.tree value → (block = [] ↔ Go.IsSigned pass.tree value)

section Verdicts

variable {pass : Pass Published} {field value : Nat}

private theorem checkTime_of_not_isTimeField
    (h : ¬ (pass.tree.ident? field).any isTimeField = true) :
    checkTime pass field value = .ok [] := by
  simp only [checkTime, h]
  rfl

/-- What is asked of the value of a time, in turn: whether it is a number, and what its type is. -/
theorem checkTime_eq {numeric : Bool} (hfield : (pass.tree.ident? field).any isTimeField = true)
    (hnumeric : isNumericConstant pass.tree value = .ok numeric) :
    checkTime pass field value = if numeric then .ok [] else
      match pass.facts.typeOf? value with
      | none => .ok []
      | some type => if type.isInt64 then .ok [] else do
          let fixes ← timeFix pass value
          return [pass.finding (pass.tree.span value) "time fields must be int64 (Unix timestamp)"
            (some s!"`{pass.tree.text field}` is assigned a value of type `{type.display}`") fixes] := by
  simp only [checkTime, hfield, hnumeric]
  rfl

/-- Nothing is said of a literal number behind signs, nor of what is not known to have another type
than times have, and such a number has another. -/
theorem TimeVerdict.nil
    (hvalue : Go.IsSigned pass.tree value ∨
      ∀ type, pass.facts.typeOf? value = some type → type = .basic "int64")
    (hnumber : Go.IsNumber pass.tree value → ∃ kind, pass.facts.typeOf? value = some (Go.litType kind)) :
    TimeVerdict pass value [] where
  finding := .inl rfl
  silent := iff_of_true rfl hvalue
  number := fun h => by
    refine iff_of_true rfl (hvalue.resolve_right fun htime => ?_)
    obtain ⟨kind, htype⟩ := hnumber h
    exact Go.litType_ne_int64 kind (htime _ htype)

theorem TimeVerdict.singleton {type : GoType} (hunsigned : ¬ Go.IsSigned pass.tree value)
    (htype : pass.facts.typeOf? value = some type) (hother : type ≠ .basic "int64")
    (help : Option String) (fixes : List Fix) :
    TimeVerdict pass value [pass.finding (pass.tree.span value)
      "time fields must be int64 (Unix timestamp)" help fixes] where
  finding := .inr ⟨help, fixes, rfl⟩
  silent := by
    refine iff_of_false (List.cons_ne_nil _ _) ?_
    rintro (hsigned | htime)
    · exact hunsigned hsigned
    · exact hother (htime type htype)
  number := fun _ => iff_of_false (List.cons_ne_nil _ _) hunsigned

/-- The value of a time gets a verdict, if the type of a number is known. -/
theorem exists_timeVerdict (h : pass.tree.Grounded)
    (hfield : (pass.tree.ident? field).any isTimeField = true)
    (hnumber : Go.IsNumber pass.tree value → ∃ kind, pass.facts.typeOf? value = some (Go.litType kind)) :
    ∃ block, checkTime pass field value = .ok block ∧ TimeVerdict pass value block := by
  obtain ⟨numeric, hnumeric, hlooks⟩ := exists_isNumericConstant h value
  have hsigned := hlooks.eq_true_iff
  rw [checkTime_eq hfield hnumeric]
  cases numeric with
  | true => exact ⟨[], rfl, .nil (.inl (hsigned.mp rfl)) hnumber⟩
  | false =>
    rw [if_neg Bool.false_ne_true]
    cases htype : pass.facts.typeOf? value with
    | none => exact ⟨[], rfl, .nil (.inr (by simp [htype])) hnumber⟩
    | some type =>
      dsimp only
      cases hint : type.isInt64 with
      | true =>
        refine ⟨[], rfl, .nil (.inr fun other hother => ?_) hnumber⟩
        obtain rfl := Option.some.inj (htype.symm.trans hother)
        exact isInt64_iff.mp hint
      | false =>
        obtain ⟨fixes, hfixes⟩ := exists_timeFix h value
        rw [if_neg Bool.false_ne_true, hfixes]
        have hunsigned : ¬ Go.IsSigned pass.tree value := fun hvalue => by
          cases hsigned.mpr hvalue
        have hother : type ≠ .basic "int64" := fun htime => by
          rw [isInt64_iff.mpr htime] at hint
          cases hint
        exact ⟨_, rfl, .singleton hunsigned htype hother _ fixes⟩

end Verdicts

/-- Values of times are reported, in the order of a walk, just as the verdicts say. -/
theorem taskFields_times {pass : Pass Published} {read : String → Option Go.Concrete}
    {file : SourceFile} (hread : Go.parseWith read file = .ok pass.tree) (package : Option String)
    (siblings : List (String × Method))
    (hfacts : pass.facts = Go.resolve pass.tree package siblings) (severity : Severity) :
    (∀ field value, (field, value) ∈ timeValues pass.tree pass.facts ↔
      IsTimeValue pass.tree pass.facts field value) ∧
    ∃ ds blocks, (taskFields severity).run pass = .ok (.report ds) ∧
      ds.filter (·.isTimeFinding) = blocks.flatten ∧
      List.Forall₂ (fun p block => TimeVerdict pass p.2 block) (timeValues pass.tree pass.facts)
        blocks := by
  have hgrounded := Go.grounded_of_parseWith hread
  obtain ⟨blocks, hrun, hblocks⟩ := exists_taskBlocks hread severity
  have hverdicts : ∃ kept, List.Forall₂ (fun p block => TimeVerdict pass p.2 block)
      (timeValues pass.tree pass.facts) kept ∧
        blocks.flatten.filter (·.isTimeFinding) = kept.flatten := by
    refine exists_blocks_filterMap hblocks (fun q block p ⟨hq, hblock⟩ htime => ?_)
      fun q block ⟨_, hblock⟩ htime => ?_
    · cases q with
      | name field => cases htime
      | time field value =>
        have hvalue : p ∈ timeValues pass.tree pass.facts := List.mem_filterMap.mpr ⟨_, hq, htime⟩
        obtain ⟨hfield, hpair⟩ := Option.ite_none_right_eq_some.mp htime
        obtain rfl := Option.some.inj hpair
        rw [mem_timeValues_iff, hfacts] at hvalue
        have hknown : Go.IsNumber pass.tree value →
            ∃ kind, pass.facts.typeOf? value = some (Go.litType kind) := fun hnumber => by
          obtain ⟨kind, -, htype⟩ := hvalue.exists_litType hread hnumber
          exact ⟨kind, hfacts ▸ htype⟩
        obtain ⟨verdict, hverdict, hspec⟩ := exists_timeVerdict hgrounded hfield hknown
        obtain rfl := Except.ok.inj (hblock.symm.trans hverdict)
        rw [List.filter_eq_self.mpr (checkTime_isTimeFinding field value _ hverdict)]
        exact hspec
    · cases q with
      | name field =>
        refine List.filter_eq_nil_iff.mpr fun d hd => ?_
        simp [checkRename_isTimeFinding field _ hblock d hd]
      | time field value =>
        have hfield : ¬ (pass.tree.ident? field).any isTimeField = true := fun hfield => by
          simp [TaskQuestion.time?, hfield] at htime
        obtain rfl := Except.ok.inj (hblock.symm.trans (checkTime_of_not_isTimeField hfield))
        rfl
  obtain ⟨kept, hkept, hfilter⟩ := hverdicts
  exact ⟨fun field value => mem_timeValues_iff, blocks.flatten, kept, hrun, hfilter, hkept⟩

/-- A task whose times are numbers, one behind a sign and one in parentheses. -/
def stampedTask : SourceFile :=
  .ofText "a.go" ("package a\n\ntype Task struct \x7b\n\tCreatedAt int64\n\tUpdatedAt int64\n\x7d\n\n" ++
    "var t = Task\x7bCreatedAt: -1, UpdatedAt: (0)\x7d\n") ""

/-- The number behind a sign is passed over, the one in parentheses is reported. -/
theorem taskFields_times_stampedTask : ∃ t ds, Go.parse stampedTask = .ok t ∧
    timeValues t (taskPass t).facts = [(15, 17), (19, 21)] ∧
    Go.IsSigned t 17 ∧ Go.IsNumber t 21 ∧ (taskFields .warning).run (taskPass t) = .ok (.report ds) ∧
    ∃ help fixes, ds.filter (·.isTimeFinding) = [(taskPass t).finding (t.span 21)
      "time fields must be int64 (Unix timestamp)" help fixes] := by
  have hread : (Go.parse stampedTask).toOption.map (fun t => decide (
      timeValues t (taskPass t).facts = [(15, 17), (19, 21)] ∧
        (isNumericConstant t 17).toOption = some true ∧
        (isNumericConstant t 21).toOption = some false ∧
        Go.isLiteralUpTo t ["-", "+", "^"] true 2 21 = true)) = some true := by
    decide +kernel
  obtain ⟨t, hok, hdecide⟩ := Option.map_eq_some_iff.mp hread
  obtain ⟨hvalues, hsigned, hunsigned, hnumber⟩ := of_decide_eq_true hdecide
  have hparse : Go.parse stampedTask = .ok t := toOption_eq_some_iff.mp hok
  have hgrounded : t.Grounded := Go.grounded_of_parseWith hparse
  have hsigned : Go.IsSigned t 17 := (isSigned_iff hgrounded).mpr (toOption_eq_some_iff.mp hsigned)
  have hunsigned : ¬ Go.IsSigned t 21 := fun h => by
    rw [(isSigned_iff hgrounded).mp h] at hunsigned
    cases hunsigned
  have hnumber : Go.IsNumber t 21 := Go.literalNumber_iff_exists_upTo.mpr ⟨2, hnumber⟩
  have hpass : Go.parse stampedTask = .ok (taskPass t).tree := hparse
  obtain ⟨-, ds, blocks, hrun, hfilter, hverdicts⟩ :=
    taskFields_times hpass (some "a") [] rfl .warning
  refine ⟨t, ds, hparse, hvalues, hsigned, hnumber, hrun, ?_⟩
  rw [show (taskPass t).tree = t from rfl, hvalues] at hverdicts
  rcases hverdicts with _ | ⟨hfirst, _ | ⟨hsecond, _ | _⟩⟩
  obtain rfl := hfirst.silent.mpr (.inl hsigned)
  rcases hsecond.finding with rfl | ⟨help, fixes, rfl⟩
  · exact absurd ((hsecond.number hnumber).mp rfl) hunsigned
  · exact ⟨help, fixes, hfilter⟩

/-- A number in parentheses is an untyped constant, and is reported. -/
theorem taskFields_reports_parenthesized : ¬ ∀ (pass : Pass Published) (file : SourceFile)
    (package : Option String) (ds : List Diagnostic), Go.parse file = .ok pass.tree →
      pass.facts = Go.resolve pass.tree package [] →
      (taskFields .warning).run pass = .ok (.report ds) →
      ∀ field value, IsTimeValue pass.tree pass.facts field value → Go.IsUntypedNumber pass.tree value →
        ∀ d ∈ ds, d.isTimeFinding = true → d.location ≠ Location.ofSpan pass.file (pass.tree.span value) := by
  intro hclaim
  have hread : ((Go.parse stampedTask).toOption.bind fun t =>
      ((taskFields .warning).run (taskPass t)).toOption.map fun outcome => decide (
        outcome.published.isNone = true ∧ (19, 21) ∈ timeValues t (taskPass t).facts ∧
          Go.isLiteralUpTo t ["-", "+", "^"] true 2 21 = true ∧
          ∃ d ∈ outcome.reported, d.isTimeFinding = true ∧
            d.location = Location.ofSpan t.file (t.span 21))) = some true := by
    decide +kernel
  obtain ⟨t, hok, hmap⟩ := Option.bind_eq_some_iff.mp hread
  obtain ⟨⟨ds, published⟩, hrun, hdecide⟩ := Option.map_eq_some_iff.mp hmap
  obtain ⟨hnone, hvalue, hnumber, d, hd, htime, hlocation⟩ := of_decide_eq_true hdecide
  obtain rfl := Option.isNone_iff_eq_none.mp hnone
  have hparse : Go.parse stampedTask = .ok t := toOption_eq_some_iff.mp hok
  refine hclaim (taskPass t) stampedTask (some "a") ds hparse rfl (toOption_eq_some_iff.mp hrun) 19 21
    (mem_timeValues_iff.mp hvalue) (.inl (Go.literalNumber_iff_exists_upTo.mpr ⟨2, hnumber⟩)) d hd htime hlocation

end Lintel
