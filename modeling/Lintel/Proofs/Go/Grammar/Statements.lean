import Lintel.Go.Grammar.Statements
import Lintel.Proofs.Go.Grammar.Expressions

/-!
# Statements as the grammar has them

The rules for declarations and statements only put together nodes that have the productions
of the grammar already. The children of an expression list are taken apart again in headers.
-/

namespace Lintel.Go.Grammar

open Lintel.Go.Parser Concrete

variable {g : Grammar} (hg : g.Sound) {first : Concrete}

private theorem grammatical_head (h : first.Grammatical) :
    (first.children.head?.getD first).Grammatical := by
  cases hchildren : first.children with
  | nil => exact h
  | cons c rest => exact h.below c (hchildren ▸ List.mem_cons_self)

theorem gives_labelledName (kind label : String) :
    Gives (do return (← name kind).labelled label) Grammatical :=
  .bind (gives_name _) fun _ ⟨t, ht⟩ => .pure (by simp [ht])

/-- A keyword and a label, or the keyword alone. -/
theorem gives_jump {word kind : String} (hkind : partsOf? kind = none) :
    Gives (jump word kind) Grammatical :=
  .bind (gives_symbol _) fun _ hkeyword => .after fun _ => .ite
    (.bind (gives_name _) fun _ ⟨_, hlabel⟩ =>
      .pure (grammatical_joining hkind (by simp [hkeyword.grammatical, hlabel])))
    (.pure (grammatical_joining hkind (by simp [hkeyword.grammatical])))

theorem gives_emptyLabel : Gives emptyLabel Grammatical :=
  .bind (gives_name _) fun _ ⟨_, hlabel⟩ => .bind (gives_symbol _) fun _ hcolon =>
    .after fun _ => .ite
      (.pure (grammatical_joining rfl (by simp [hlabel, hcolon.grammatical]))) gives_failure

section Rules

include hg

/-! ### Declarations -/

theorem gives_assignedValues : Gives (assignedValues g) AllGrammatical :=
  .bind (gives_symbol _) fun _ hequals => .bind (hg.expressionList _) fun _ hvalues =>
    .pure (by simp [hequals.grammatical, hvalues])

theorem gives_constSpec : Gives (constSpec g) Grammatical := by
  refine .bind (gives_commaSeparated_items (gives_labelledName _ _)) fun names hnames => ?_
  have hall := hnames.grammatical
  refine .after fun _ => .after fun _ => .ite (.pure (grammatical_joining rfl hall))
    (.after fun _ => .ite ?_ ?_)
  · exact .bind (gives_assignedValues hg) fun values hvalues =>
      .pure (grammatical_joining rfl (by simp [hall, hvalues]))
  · exact .bind (hg.grammatical _) fun type htype => .bind (gives_assignedValues hg)
      fun values hvalues => .pure (grammatical_joining rfl (by simp [hall, htype, hvalues]))

theorem gives_varSpec : Gives (varSpec g) Grammatical := by
  refine .bind (gives_commaSeparated_items (gives_labelledName _ _)) fun names hnames =>
    .after fun _ => .ite ?_ (.bind (hg.grammatical _) fun type htype => .after fun _ => ?_)
  · exact .bind (gives_assignedValues hg) fun values hvalues =>
      .pure (grammatical_joining rfl (by simp [hnames.grammatical, hvalues]))
  · extract_lets finish
    have hfinish : ∀ values, AllGrammatical values → Gives (finish values) Grammatical :=
      fun values hvalues =>
        .pure (grammatical_joining rfl (by simp [hnames.grammatical, htype, hvalues]))
    exact .ite (.bind (gives_assignedValues hg) hfinish) (hfinish [] (by simp))

theorem gives_typeSpec : Gives (typeSpec g) Grammatical := by
  refine .bind (gives_name _) fun called ⟨t, hcalled⟩ => ?_
  extract_lets word plain generic
  have hword : word.Grammatical := by simp [word, hcalled]
  have hplain : Gives plain Grammatical := .after fun _ => .ite
    (.bind (gives_symbol _) fun equals hequals => .bind (hg.grammatical _) fun type htype =>
      .pure (grammatical_joining rfl (by simp [hword, hequals.grammatical, htype])))
    (.bind (hg.grammatical _) fun type htype =>
      .pure (grammatical_joining rfl (by simp [hword, htype])))
  have hgeneric : Gives generic Grammatical := by
    refine .bind (gives_typeParameters hg) fun params hparams => .after fun _ => .ite ?_ ?_
    · exact .bind (gives_symbol _) fun equals hequals => .bind (hg.grammatical _) fun type htype =>
        .pure (grammatical_joining rfl (by simp [hword, hparams.1, hequals.grammatical, htype]))
    · exact .bind (hg.grammatical _) fun type htype =>
        .pure (grammatical_joining rfl (by simp [hword, hparams.1, htype]))
  exact .after fun _ => .ite (.orElse hplain hgeneric) hplain

theorem gives_constDeclaration : Gives (constDeclaration g) Grammatical :=
  .bind (gives_symbol _) fun _ hword => .after fun _ => .ite
    (.bind (gives_between (gives_terminatedItems (gives_constSpec hg) _) _ _) fun _ hspecs =>
      .pure (grammatical_joining rfl (by simp [hword.grammatical, hspecs.grammatical])))
    (.bind (gives_constSpec hg) fun _ hspec =>
      .pure (grammatical_joining rfl (by simp [hword.grammatical, hspec])))

theorem gives_varDeclaration : Gives (varDeclaration g) Grammatical := by
  refine .bind (gives_symbol _) fun word hword => .after fun _ => .ite ?_
    (.bind (gives_varSpec hg) fun spec hspec =>
      .pure (grammatical_joining rfl (by simp [hword.grammatical, hspec])))
  refine .bind (gives_between (gives_terminatedItems (gives_varSpec hg) _) _ _)
    fun specs hspecs => .pure (grammatical_joining rfl ?_)
  have hlist : (joining "var_spec_list" specs).Grammatical :=
    grammatical_joining rfl hspecs.grammatical
  simp [hword.grammatical, hlist]

theorem gives_typeDeclaration : Gives (typeDeclaration g) Grammatical :=
  .bind (gives_symbol _) fun _ hword => .after fun _ => .ite
    (.bind (gives_between (gives_separatedItems (gives_typeSpec hg) _) _ _) fun _ hspecs =>
      .pure (grammatical_joining rfl (by simp [hword.grammatical, hspecs.grammatical])))
    (.bind (gives_typeSpec hg) fun _ hspec =>
      .pure (grammatical_joining rfl (by simp [hword.grammatical, hspec])))

/-! ### Simple statements -/

theorem gives_simpleRest {rest : Place} (hfirst : first.Grammatical) :
    Gives (simpleRest g rest first) Grammatical := by
  have honly := grammatical_head hfirst
  refine .after fun _ => .ite ?_ (.after fun _ => .ite ?_ (.ite gives_failure ?_))
  · exact .bind (gives_symbol _) fun op hop => .bind (hg.expressionList _) fun right hright =>
      .pure (grammatical_joining rfl (by simp [hfirst, hop.grammatical, hright]))
  · exact .after fun t => .bind (hg.expressionList _) fun right hright =>
      .pure (grammatical_joining rfl (by simp [hfirst, hright]))
  · refine .after fun _ => .ite ?_ (.after fun _ => .ite ?_ (.after fun _ => .ite ?_ ?_))
    · exact .bind (gives_symbol _) fun step hstep =>
        .pure (grammatical_joining rfl (by simp [honly, hstep.grammatical]))
    · exact .bind (gives_symbol _) fun step hstep =>
        .pure (grammatical_joining rfl (by simp [honly, hstep.grammatical]))
    · exact .bind (gives_symbol _) fun arrow harrow => .bind (hg.grammatical _) fun value hvalue =>
        .pure (grammatical_joining rfl (by simp [honly, harrow.grammatical, hvalue]))
    · exact .pure (grammatical_joining rfl (by simp [honly]))

theorem gives_simpleStatement {start rest : Place} :
    Gives (simpleStatement g start rest) Grammatical :=
  .bind (hg.expressionList _) fun _ hfirst => gives_simpleRest hg hfirst

/-! ### Statement lists -/

theorem gives_statementList : Gives (statementList g) AllGrammatical := by
  refine .after fun _ => .ite (.pure (by simp)) ?_
  extract_lets item
  have hitem : Gives item Grammatical := .orElse gives_emptyLabel (hg.grammatical _)
  refine .bind hitem fun first hfirst => .bind (P := Items Grammatical)
    (.iterate (by simp [Items, hfirst]) fun items hitems => ?_) fun items hitems => ?_
  · refine .bind (.attempt? gives_terminator) fun o ho => ?_
    cases o with
    | none => exact gives_none
    | some ending =>
      have hending := ho ending rfl
      exact .after fun _ => .ite (.pure_some (hitems.append (by simp [Items, hending])))
        (.bind hitem fun c hc => .pure_some (hitems.append (by simp [Items, hending, hc])))
  · have hlist : (joining "statement_list" items).Grammatical :=
      grammatical_joining rfl hitems.grammatical
    exact .pure (by simp [hlist])

theorem gives_blockRule : Gives (blockRule g) fun c => c.Grammatical ∧ c.kind = "block" :=
  .bind (gives_between ((gives_statementList hg).mono fun _ h c hc => .inl (h c hc)) _ _)
    fun _ hitems => .pure ⟨grammatical_joining rfl hitems.grammatical, rfl⟩

/-! ### Headers and cases -/

theorem gives_ifStatementRule : Gives (ifStatementRule g) Grammatical := by
  refine .bind (gives_symbol _) fun word hword => .bind (hg.expressionList _) fun first hfirst =>
    .after fun _ => ?_
  extract_lets rest
  have hrest : ∀ header, AllGrammatical header → Gives (rest header) Grammatical := by
    refine fun header hheader => .bind (hg.grammatical _) fun body hbody => .after fun _ => ?_
    extract_lets finish
    have hfinish : ∀ alternative, AllGrammatical alternative →
        Gives (finish alternative) Grammatical := fun alternative halternative =>
      .pure (grammatical_joining rfl
        (by simp [hword.grammatical, hheader, hbody, halternative]))
    refine .ite (.bind (gives_symbol _) fun orElse horElse => .after fun _ => ?_)
      (hfinish [] (by simp))
    exact .ite (.bind (hg.grammatical _) fun c hc => hfinish _ (by simp [horElse.grammatical, hc]))
      (.bind (hg.grammatical _) fun c hc => hfinish _ (by simp [horElse.grammatical, hc]))
  refine .ite (.ite (hrest _ (by simpa using hfirst.below)) (.bind gives_failure hrest)) ?_
  exact .bind (gives_simpleRest hg hfirst) fun init hinit => .bind (gives_symbol _)
    fun semicolon hsemicolon => .bind (hg.grammatical _) fun condition hcondition =>
      hrest _ (by simp [hinit, hsemicolon.grammatical, hcondition])

theorem gives_forClause {init : List Concrete} (hinit : AllGrammatical init) :
    Gives (forClause g init) Grammatical := by
  refine .bind (gives_symbol _) fun first hfirst => .after fun _ => ?_
  extract_lets rest
  have hrest : ∀ condition, AllGrammatical condition → Gives (rest condition) Grammatical := by
    refine fun condition hcondition => .bind (gives_symbol _) fun second hsecond =>
      .after fun _ => ?_
    extract_lets finish
    have hfinish : ∀ update, AllGrammatical update → Gives (finish update) Grammatical :=
      fun update hupdate => .pure (grammatical_joining rfl
        (by simp [hinit, hfirst.grammatical, hcondition, hsecond.grammatical, hupdate]))
    exact .ite (hfinish [] (by simp))
      (.bind (gives_simpleStatement hg) fun c hc => hfinish _ (by simp [hc]))
  exact .ite (hrest [] (by simp)) (.bind (hg.grammatical _) fun c hc => hrest _ (by simp [hc]))

theorem gives_forHeader : Gives (forHeader g) AllGrammatical := by
  refine .after fun _ => .ite (.pure (by simp)) (.after fun _ => .ite ?_ (.after fun _ => .ite ?_ ?_))
  · exact .bind (gives_forClause hg (by simp)) fun clause hclause => .pure (by simp [hclause])
  · refine .bind (gives_symbol _) fun word hword => .bind (hg.grammatical _) fun c hc => ?_
    have hrange : (joining "range_clause" [word, c.labelled "right"]).Grammatical :=
      grammatical_joining rfl (by simp [hword.grammatical, hc])
    exact .pure (by simp [hrange])
  · refine .bind (hg.expressionList _) fun first hfirst => .after fun _ => .after fun _ => .ite ?_
      (.after fun _ => ?_)
    · refine .after fun t => .bind (gives_symbol _) fun word hword =>
        .bind (hg.grammatical _) fun c hc => ?_
      have hrange : (joining "range_clause"
          [first.labelled "left", leaf t, word, c.labelled "right"]).Grammatical :=
        grammatical_joining rfl (by simp [hfirst, hword.grammatical, hc])
      exact .pure (by simp [hrange])
    · extract_lets rest
      have hrest : ∀ u, Gives (rest u) AllGrammatical := fun u =>
        .bind (gives_simpleRest hg hfirst) fun init hinit =>
          .bind (gives_forClause hg (by simp [hinit])) fun clause hclause =>
            .pure (by simp [hclause])
      exact .ite (.ite (.pure hfirst.below) (.after hrest)) (hrest ())

theorem gives_forStatement : Gives (forStatement g) Grammatical :=
  .bind (gives_symbol _) fun _ hword => .bind (gives_forHeader hg) fun _ hheader =>
    .bind (hg.grammatical _) fun _ hbody =>
      .pure (grammatical_joining rfl (by simp [hword.grammatical, hheader, hbody]))

theorem gives_caseClause {kind : String} {values : Parser (List Concrete)}
    (hkind : partsOf? kind = none) (hvalues : Gives values AllGrammatical) :
    Gives (caseClause g kind values) Grammatical :=
  .bind (gives_symbol _) fun _ hword => .bind hvalues fun _ hlisted =>
    .bind (gives_symbol _) fun _ hcolon => .bind (gives_statementList hg) fun _ hbody =>
      .pure (grammatical_joining hkind
        (by simp [hword.grammatical, hlisted, hcolon.grammatical, hbody]))

theorem gives_defaultClause : Gives (defaultClause g) Grammatical :=
  .bind (gives_symbol _) fun _ hword => .bind (gives_symbol _) fun _ hcolon =>
    .bind (gives_statementList hg) fun _ hbody =>
      .pure (grammatical_joining rfl (by simp [hword.grammatical, hcolon.grammatical, hbody]))

theorem gives_caseBlock {clause : Parser Concrete} (hclause : Gives clause Grammatical) :
    Gives (caseBlock g clause) AllGrammatical := by
  refine (gives_between (.iterate items_nil fun items hitems => ?_) _ _).mono
    fun _ hitems => hitems.grammatical
  refine .after fun _ => .ite ?_ (.after fun _ => .ite ?_ gives_none)
  · exact .bind hclause fun c hc => .pure_some (hitems.append (by simp [Items, hc]))
  · exact .bind (gives_defaultClause hg) fun c hc => .pure_some (hitems.append (by simp [Items, hc]))

theorem gives_expressionCase : Gives (expressionCase g) Grammatical :=
  gives_caseClause hg rfl (.bind (hg.expressionList _) fun _ hvalue => .pure (by simp [hvalue]))

theorem gives_typeCase : Gives (typeCase g) Grammatical := by
  have htype : Gives (do return (← g (.type false)).labelled "type") Grammatical :=
    .bind (hg.grammatical _) fun _ hc => .pure (by simpa using hc)
  exact gives_caseClause hg rfl
    ((gives_commaSeparated_items htype).mono fun _ hitems => hitems.grammatical)

theorem gives_switchSubject (hfirst : first.Grammatical) :
    Gives (switchSubject g first) fun r => AllGrammatical r.1 := by
  unfold switchSubject
  extract_lets typeMark single
  have hmark : Gives typeMark AllGrammatical :=
    .bind (gives_symbol _) fun a ha => .bind (gives_symbol _) fun b hb =>
      .bind (gives_symbol _) fun c hc => .bind (gives_symbol _) fun d hd =>
        .pure (by simp [ha.grammatical, hb.grammatical, hc.grammatical, hd.grammatical])
  refine .after fun _ => .ite ?_ (.after fun _ => .ite ?_ (.after fun _ => .ite ?_ gives_failure))
  · exact .bind hmark fun mark hm => .pure (by simp [hfirst.below, hm])
  · exact .bind (gives_symbol _) fun op hop => .bind (hg.grammatical _) fun value hvalue =>
      .bind hmark fun mark hm => .pure (by simp [hfirst, hop.grammatical, hvalue, hm])
  · exact .pure (by simp [hfirst.below])

theorem gives_switchHeader : Gives (switchHeader g) fun r => AllGrammatical r.1 := by
  refine .after fun _ => .ite (.pure (by simp)) (.orElse ?_ ?_)
  · exact .bind (hg.expressionList _) fun first hfirst => gives_switchSubject hg hfirst
  · refine .bind (gives_simpleStatement hg) fun init hinit => .bind (gives_symbol _)
      fun semicolon hsemicolon => .after fun _ => .ite ?_ ?_
    · exact .pure (by simp [hinit, hsemicolon.grammatical])
    · exact .bind (hg.expressionList _) fun first hfirst => .bind (gives_switchSubject hg hfirst)
        fun subject hsubject => .pure (by simp [hinit, hsemicolon.grammatical, hsubject])

theorem gives_switchStatement : Gives (switchStatement g) Grammatical := by
  refine .bind (gives_symbol _) fun word hword => .bind (gives_switchHeader hg)
    fun header hheader => .ite ?_ ?_
  · exact .bind (gives_caseBlock hg (gives_typeCase hg)) fun cases hcases =>
      .pure (grammatical_joining rfl (by simp [hword.grammatical, hheader, hcases]))
  · exact .bind (gives_caseBlock hg (gives_expressionCase hg)) fun cases hcases =>
      .pure (grammatical_joining rfl (by simp [hword.grammatical, hheader, hcases]))

theorem gives_communication : Gives (communication g) AllGrammatical := by
  have hsingle : ∀ {kind : String} {children : List Concrete}, partsOf? kind = none →
      AllGrammatical children →
        AllGrammatical [(joining kind children).labelled "communication"] := fun hkind h => by
    simpa using grammatical_joining hkind h
  refine .bind (hg.expressionList _) fun first hfirst => .after fun _ => .ite ?_ ?_
  · exact .after fun t => .bind (hg.grammatical _) fun value hvalue =>
      .pure (hsingle rfl (by simp [hfirst, hvalue]))
  · extract_lets only rest
    have honly : only.Grammatical := by simpa [only] using grammatical_head hfirst
    have hrest : ∀ u, Gives (rest u) AllGrammatical := fun u => .after fun _ => .ite
      (.bind (gives_symbol _) fun arrow harrow => .bind (hg.grammatical _) fun value hvalue =>
        .pure (hsingle rfl (by simp [honly, harrow.grammatical, hvalue])))
      (.pure (hsingle rfl (by simp [honly])))
    exact .ite (.after hrest) (hrest ())

theorem gives_selectStatement : Gives (selectStatement g) Grammatical :=
  .bind (gives_symbol _) fun _ hword =>
    .bind (gives_caseBlock hg (gives_caseClause hg rfl (gives_communication hg))) fun _ hcases =>
      .pure (grammatical_joining rfl (by simp [hword.grammatical, hcases]))

/-! ### Statements -/

theorem gives_returnStatement : Gives (returnStatement g) Grammatical :=
  .bind (gives_symbol _) fun _ hword => .after fun _ => .ite
    (.bind (hg.expressionList _) fun _ hvalues =>
      .pure (grammatical_joining rfl (by simp [hword.grammatical, hvalues])))
    (.pure (grammatical_joining rfl (by simp [hword.grammatical])))

theorem gives_labeledStatement : Gives (labeledStatement g) Grammatical := by
  refine .bind (gives_name _) fun label ⟨t, hlabel⟩ => .after fun _ => ?_
  extract_lets rest
  have hrest : ∀ u, Gives (rest u) Grammatical := fun u =>
    .bind (gives_symbol _) fun colon hcolon => .bind (hg.grammatical _) fun c hc =>
      .pure (grammatical_joining rfl (by simp [hlabel, hcolon.grammatical, hc]))
  exact .ite (.after hrest) (hrest ())

theorem gives_launched {word kind : String} (hkind : partsOf? kind = none) :
    Gives (launched g word kind) Grammatical :=
  .bind (gives_symbol _) fun _ hkeyword => .bind (hg.grammatical _) fun _ hc =>
    .pure (grammatical_joining hkind (by simp [hkeyword.grammatical, hc]))

theorem gives_statementRule : Gives (statementRule g) Grammatical := by
  refine .after fun next => ?_
  cases next with
  | none => exact gives_failure
  | some t =>
    refine .ite (.orElse (gives_labeledStatement hg) (gives_simpleStatement hg))
      (.ite (gives_simpleStatement hg) ?_)
    split
    · exact gives_constDeclaration hg
    · exact gives_varDeclaration hg
    · exact gives_typeDeclaration hg
    · exact gives_returnStatement hg
    · exact gives_launched hg rfl
    · exact gives_launched hg rfl
    · exact hg.grammatical _
    · exact gives_forStatement hg
    · exact gives_switchStatement hg
    · exact gives_selectStatement hg
    · exact .bind (gives_symbol _) fun word hword =>
        .pure (grammatical_joining rfl (by simp [hword.grammatical]))
    · exact gives_jump rfl
    · exact gives_jump rfl
    · exact .bind (gives_symbol _) fun keyword hkeyword => .bind (gives_name _) fun label ⟨t, hlabel⟩ =>
        .pure (grammatical_joining rfl (by simp [hkeyword.grammatical, hlabel]))
    · exact hg.grammatical _
    · exact .bind (gives_symbol _) fun word hword =>
        .pure (grammatical_joining rfl (by simp [hword.grammatical]))
    · exact gives_simpleStatement hg

end Rules

end Lintel.Go.Grammar
