import Lintel.Go.Grammar.File
import Lintel.Proofs.Go.Grammar.Statements

/-!
# Files as the grammar has them

Every rule keeps the productions of the grammar if the goals that it reaches do, and so they
are kept at every depth. What is read from a text has them throughout.
-/

namespace Lintel.Go.Grammar

open Lintel.Go.Parser Concrete

/-! ### Imports and packages -/

theorem gives_packageClause : Gives packageClause Grammatical :=
  .bind (gives_symbol _) fun _ hword => .bind (gives_name _) fun _ ⟨_, hname⟩ =>
    .pure (grammatical_joining rfl (by simp [hword.grammatical, hname]))

theorem gives_importSpec : Gives importSpec Grammatical := by
  refine .after fun next => ?_
  cases next with
  | none => exact gives_failure
  | some t =>
    refine .ite (.after fun _ => .bind gives_stringLiteral fun path hpath => ?_)
      (.ite (.after fun _ => .bind gives_stringLiteral fun path hpath => ?_)
        (.bind gives_stringLiteral fun path hpath => ?_))
    · exact .pure (grammatical_joining rfl (by simp [hpath.1]))
    · exact .pure (grammatical_joining rfl (by simp [hpath.1]))
    · exact .pure (grammatical_joining rfl (by simp [hpath.1]))

theorem gives_importDeclaration : Gives importDeclaration Grammatical := by
  refine .bind (gives_symbol _) fun word hword => .after fun _ => .ite ?_
    (.bind gives_importSpec fun spec hspec =>
      .pure (grammatical_joining rfl (by simp [hword.grammatical, hspec])))
  refine .bind (gives_between (gives_separatedItems gives_importSpec _) _ _) fun specs hspecs =>
    .pure (grammatical_joining rfl ?_)
  have hlist : (joining "import_spec_list" specs).Grammatical :=
    grammatical_joining rfl hspecs.grammatical
  simp [hword.grammatical, hlist]

section Rules

variable {g : Grammar} (hg : g.Sound)

include hg

/-! ### Functions -/

theorem gives_signature : Gives (signature g) fun cs => ∀ c ∈ cs, c.Fills functionParts := by
  refine .bind (hg .parameters) fun params hparams => .bind (gives_result hg)
    fun outcome houtcome => .after fun _ => ?_
  extract_lets finish
  have hfinish : ∀ body : List Concrete, (∀ c ∈ body, c.Fills functionParts) →
      Gives (finish body) fun cs => ∀ c ∈ cs, c.Fills functionParts := fun body hbody =>
    .pure (List.forall_mem_append.mpr
      ⟨List.forall_mem_cons.mpr ⟨fills_parameters hparams, houtcome⟩, hbody⟩)
  exact .ite (.bind (hg .block) fun c hc => hfinish _
      (List.forall_mem_singleton.mpr (hc.1.fills (List.mem_singleton.mpr hc.2))))
    (hfinish [] (by simp))

theorem gives_functionDeclaration : Gives (functionDeclaration g) Grammatical := by
  refine .bind (gives_symbol _) fun word hword => .bind (gives_name _) ?_
  rintro _ ⟨t, rfl⟩
  refine .after fun _ => ?_
  extract_lets rest
  have hname : ((namedLeaf "identifier" t).labelled "name").Fills functionParts :=
    grammatical_namedLeaf.fills (by simp [functionParts])
  have hrest : ∀ types : List Concrete, (∀ c ∈ types, c.Fills functionParts) →
      Gives (rest types) Grammatical := by
    refine fun types htypes => .bind (gives_signature hg) fun parts hparts =>
      .pure (grammatical_joining_parts rfl (by decide) ?_)
    refine List.forall_mem_append.mpr ⟨List.forall_mem_append.mpr ⟨?_, htypes⟩, hparts⟩
    simp [hword.fills, hname]
  exact .ite (.bind (gives_typeParameters hg) fun c hc => hrest _
      (List.forall_mem_singleton.mpr (hc.1.fills (List.mem_singleton.mpr hc.2))))
    (hrest [] (by simp))

theorem gives_methodDeclaration : Gives (methodDeclaration g) Grammatical := by
  refine .bind (gives_symbol _) fun word hword => .bind (hg .parameters)
    fun receiver hreceiver => .bind (gives_name _) ?_
  rintro _ ⟨t, rfl⟩
  have hname : ((namedLeaf "field_identifier" t).labelled "name").Fills functionParts :=
    grammatical_namedLeaf.fills (by simp [functionParts])
  have hlist : (receiver.labelled "receiver").Fills functionParts :=
    hreceiver.1.fills (List.mem_singleton.mpr hreceiver.2)
  refine .bind (gives_signature hg) fun parts hparts =>
    .pure (grammatical_joining_parts rfl (by decide) (List.forall_mem_append.mpr ⟨?_, hparts⟩))
  simp [hword.fills, hlist, hname]

/-! ### Files -/

theorem gives_topLevel : Gives (topLevel g) Grammatical := by
  refine .after fun next => ?_
  cases next with
  | none => exact gives_failure
  | some t =>
    exact .ite gives_packageClause (.ite gives_importDeclaration (.ite
      (.orElse (gives_functionDeclaration hg) (.orElse (gives_methodDeclaration hg)
        (hg.grammatical _))) (hg.grammatical _)))

theorem gives_fileItems : Gives (fileItems g) AllGrammatical := by
  refine (Gives.iterate items_nil fun items hitems => ?_).mono fun _ hitems => hitems.grammatical
  refine .after fun _ => .ite gives_none (.bind (gives_topLevel hg) fun item hitem =>
    .bind gives_terminator fun ending hending => ?_)
  exact .pure_some (hitems.append (by simp [Items, hitem, hending]))

/-- The rules are sound if what they reach is. -/
theorem sound_rule : Grammar.Sound (rule g) := by
  intro goal
  cases goal with
  | type stops => exact gives_typeRule hg
  | unary place => exact gives_unaryRule hg
  | expression place => exact gives_expressionRule hg
  | parameters => exact gives_parametersRule hg
  | literalValue => exact gives_literalValueRule hg
  | block => exact gives_blockRule hg
  | statement => exact gives_statementRule hg
  | ifStatement => exact gives_ifStatementRule hg

end Rules

/-- The grammar is sound at every depth. -/
theorem sound_upTo : ∀ depth, Grammar.Sound (upTo depth)
  | 0 => fun _ => gives_failure
  | depth + 1 => sound_rule (sound_upTo depth)

end Grammar

namespace Concrete

theorem Grammatical.endingAt {c : Concrete} (h : c.Grammatical) (stop : Nat) :
    (c.endingAt stop).Grammatical := by
  unfold Concrete.endingAt
  split
  · exact grammatical_of_children_eq_nil rfl
  · exact h

/-- What is read from a text has the productions of the grammar. -/
theorem grammatical_of_ofText? {text : String} {root : Concrete} (h : ofText? text = some root) :
    root.Grammatical := by
  unfold ofText? at h
  simp only [Option.bind_eq_bind, Option.bind_eq_some_iff] at h
  obtain ⟨lexemes, -, ⟨items, rest⟩, hitems, h⟩ := h
  split at h
  · obtain rfl := Option.some.inj h
    have hall := Grammar.gives_fileItems (Grammar.sound_upTo _) _ items rest hitems
    refine grammatical_joining rfl fun c hc => ?_
    obtain ⟨item, hitem, rfl⟩ := List.mem_map.mp hc
    exact (hall item hitem).endingAt _
  · cases h

end Concrete

end Lintel.Go
