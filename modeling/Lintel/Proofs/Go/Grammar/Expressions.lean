import Lintel.Go.Grammar.Expressions
import Lintel.Proofs.Go.Grammar.Types

/-!
# Expressions as the grammar has them

The rules for expressions keep the productions of the grammar. What is read again, because a
bracket or a brace after it makes a type of it, is made from nodes that had them already.
-/

namespace Lintel.Go.Grammar

open Lintel.Go.Parser Concrete

variable {g : Grammar} (hg : g.Sound) {place : Place} {type operand : Concrete}

/-- An operand that is read as a type is made of the same tokens. -/
theorem grammatical_asTypeName? {e : Concrete} (he : e.Grammatical)
    (h : asTypeName? e = some type) : type.Grammatical := by
  unfold asTypeName? at h
  split at h
  · obtain rfl := Option.some.inj h
    exact grammatical_of_children_eq_nil rfl
  · rename_i dot _ _ _ _ _ _
    obtain rfl := Option.some.inj h
    have hdot : dot.Grammatical := he.below dot (by simp [Concrete.children])
    have htoken : ∀ label kind span, (Concrete.node label kind true false span []).Grammatical :=
      fun _ _ _ => grammatical_of_children_eq_nil rfl
    exact grammatical_joining rfl (by simp [hdot, htoken])
  · cases h

section Rules

include hg

/-! ### Composite literals -/

theorem gives_literalElement : Gives (literalElement g) Grammatical :=
  .after fun _ => .ite
    (.bind (hg.grammatical _) fun _ hc => .pure (grammatical_joining rfl (by simp [hc])))
    (.bind (hg.grammatical _) fun _ hc => .pure (grammatical_joining rfl (by simp [hc])))

theorem gives_keyedElement : Gives (keyedElement g) Grammatical := by
  refine .bind (gives_literalElement hg) fun first hfirst => .after fun _ => .ite ?_ (.pure hfirst)
  refine .bind (gives_symbol _) fun colon hcolon => .bind (gives_literalElement hg)
    fun value hvalue => .pure (grammatical_joining rfl ?_)
  simp [hfirst, hcolon.grammatical, hvalue]

theorem gives_literalValueRule : Gives (literalValueRule g) Grammatical := by
  have hinner : Gives (do
      if ← sees "\x7d" then return []
      else if ← sees "," then return [← symbol ","]
      else commaTerminated (keyedElement g) "\x7d") (Items Grammatical) :=
    .after fun _ => .ite (.pure items_nil) (.after fun _ => .ite
      (.bind (gives_symbol _) fun comma hcomma => .pure (by simp [Items, hcomma]))
      (gives_commaTerminated (gives_keyedElement hg) _))
  exact .bind (gives_between hinner _ _) fun items hitems =>
    .pure (grammatical_joining rfl hitems.grammatical)

theorem gives_compositeLiteral (htype : type.Grammatical) :
    Gives (compositeLiteral g type) Grammatical :=
  .bind (hg.grammatical _) fun _ hbody =>
    .pure (grammatical_joining rfl (by simp [htype, hbody]))

/-! ### Calls and conversions -/

theorem gives_argument : Gives (argument g) Grammatical := by
  refine .bind (hg.grammatical _) fun value hvalue => .after fun _ => .ite ?_ (.pure hvalue)
  refine .bind (gives_symbol _) fun dots hdots => .pure (grammatical_joining rfl ?_)
  simp [hvalue, hdots.grammatical]

theorem gives_argumentList : Gives (argumentList g) Grammatical := by
  have hinner : Gives (do if ← sees ")" then return [] else commaTerminated (argument g) ")")
      (Items Grammatical) :=
    .after fun _ => .ite (.pure items_nil) (gives_commaTerminated (gives_argument hg) _)
  exact .bind (gives_between hinner _ _) fun items hitems =>
    .pure (grammatical_joining rfl hitems.grammatical)

theorem gives_allocationArguments : Gives (allocationArguments g) Grammatical := by
  unfold allocationArguments
  refine .bind (P := Items Grammatical) (gives_between ?_ _ _) fun items hitems =>
    .pure (grammatical_joining rfl hitems.grammatical)
  refine .after fun _ => .ite (.pure items_nil) (.bind (hg.grammatical _) fun type htype => ?_)
  refine .iterate (by simp [Items, htype]) fun items hitems => .after fun _ => .ite ?_ gives_none
  exact .bind (gives_symbol _) fun comma hcomma => .after fun _ => .ite
    (.pure_some (hitems.append (by simp [Items, hcomma])))
    (.bind (hg.grammatical _) fun c hc => .pure_some (hitems.append (by simp [Items, hcomma, hc])))

theorem gives_conversion (htype : type.Grammatical) :
    Gives (conversion g type) Grammatical := by
  refine .bind (gives_symbol _) fun opening hopening => .bind (hg.grammatical _) fun c hc =>
    .after fun _ => ?_
  extract_lets rest
  have hrest : ∀ comma : List Concrete, AllGrammatical comma →
      Gives (rest comma) Grammatical := by
    refine fun comma hcomma => .bind (gives_symbol _) fun closing hclosing =>
      .pure (grammatical_joining rfl ?_)
    simp [htype, hopening.grammatical, hc, hcomma, hclosing.grammatical]
  exact .ite (.bind (gives_symbol _) fun comma hcomma => hrest _ (by simp [hcomma.grammatical]))
    (hrest [] (by simp))

/-! ### Brackets after an operand -/

theorem gives_indexOrSlice (hoperand : operand.Grammatical) :
    Gives (indexOrSlice g operand) Grammatical := by
  refine .bind (gives_symbol _) fun opening hopening => .after fun _ => ?_
  extract_lets rest
  have hrest : ∀ start : List Concrete, AllGrammatical start →
      Gives (rest start) Grammatical := by
    intro start hstart
    refine .after fun _ => .ite (.bind (gives_symbol _) fun colon hcolon => ?_)
      (.bind (gives_symbol _) fun closing hclosing => .pure (grammatical_joining rfl ?_))
    · extract_lets head
      have hhead : AllGrammatical head := by
        simp [head, hoperand, hopening.grammatical, hstart, hcolon.grammatical]
      refine .after fun _ => .ite ?_ (.bind (hg.grammatical _) fun stop hstop =>
        .after fun _ => .ite ?_ ?_)
      · refine .bind (gives_symbol _) fun closing hclosing => .pure (grammatical_joining rfl ?_)
        simp [hhead, hclosing.grammatical]
      · refine .bind (gives_symbol _) fun second hsecond => .bind (hg.grammatical _)
          fun capacity hcapacity => .bind (gives_symbol _) fun closing hclosing =>
            .pure (grammatical_joining rfl ?_)
        simp [hhead, hstop, hsecond.grammatical, hcapacity, hclosing.grammatical]
      · refine .bind (gives_symbol _) fun closing hclosing => .pure (grammatical_joining rfl ?_)
        simp [hhead, hstop, hclosing.grammatical]
    · simp [hoperand, hopening.grammatical, hstart, hclosing.grammatical]
  exact .ite (hrest [] (by simp)) (.bind (hg.grammatical _) fun c hc => hrest _ (by simp [hc]))

theorem gives_genericCall (hoperand : operand.Grammatical) :
    Gives (genericCall g operand) Grammatical :=
  .bind (gives_typeArguments hg) fun _ htypes => .bind (gives_argumentList hg) fun _ hargs =>
    .pure (grammatical_joining rfl (by simp [hoperand, htypes, hargs]))

theorem gives_genericOperand (htype : type.Grammatical) :
    Gives (genericOperand g place type) Grammatical := by
  refine .bind (gives_typeArguments hg) fun types htypes => ?_
  extract_lets generic
  have hgeneric : generic.Grammatical := grammatical_joining rfl (by simp [htype, htypes])
  exact .after fun _ => .ite (gives_compositeLiteral hg hgeneric)
    (.after fun _ => .ite (gives_conversion hg hgeneric) gives_failure)

theorem gives_typeInstantiation (htype : type.Grammatical) :
    Gives (typeInstantiation g type) Grammatical :=
  .bind (gives_between (gives_commaTerminated (hg.grammatical _) _) _ _) fun _ htypes =>
    .pure (grammatical_joining rfl (by simp [htype, htypes.grammatical]))

theorem gives_preferredGenericCall {indexed : Concrete} (hoperand : operand.Grammatical) :
    Gives (preferredGenericCall g operand indexed) Grammatical :=
  .ite gives_failure (gives_genericCall hg hoperand)

theorem gives_bracketed (hoperand : operand.Grammatical) :
    Gives (bracketed g place operand) Grammatical := by
  refine .after fun start => ?_
  extract_lets typed
  have htyped : Gives typed Grammatical := by
    unfold typed
    split
    · rename_i type htype
      exact gives_genericOperand hg (grammatical_asTypeName? hoperand htype)
    · exact gives_failure
  refine .bind (.attempt? (gives_indexOrSlice hg hoperand)) fun o ho => ?_
  cases o with
  | some indexed =>
    have hindexed := ho indexed rfl
    refine .after fun _ => .after fun _ => .ite (.orElse (.after fun _ => ?_) (.pure hindexed))
      (.pure hindexed)
    exact .orElse htyped (gives_preferredGenericCall hg hoperand)
  | none =>
    dsimp only
    split
    · rename_i type htype
      exact .orElse htyped (.orElse (gives_genericCall hg hoperand)
        (gives_typeInstantiation hg (grammatical_asTypeName? hoperand htype)))
    · exact gives_genericCall hg hoperand

/-! ### Operands -/

theorem gives_functionLiteral : Gives (functionLiteral g) Grammatical := by
  refine .bind (gives_symbol _) fun word hword => .bind (hg .parameters) fun params hparams =>
    .bind (gives_result hg) fun outcome houtcome => .bind (hg .block) fun body hbody =>
      .pure (grammatical_joining_parts rfl (by decide) ?_)
  have hblock : (body.labelled "body").Fills functionParts :=
    hbody.1.fills (List.mem_singleton.mpr hbody.2)
  refine List.forall_mem_append.mpr ⟨List.forall_mem_append.mpr ⟨?_, houtcome⟩, ?_⟩
  · simp [hword.fills, fills_parameters hparams]
  · exact List.forall_mem_singleton.mpr hblock

theorem gives_countedLiteral : Gives (countedLiteral g place) Grammatical := by
  refine .bind (gives_symbol _) fun opening hopening => .bind (gives_symbol _) fun dots hdots =>
    .bind (gives_symbol _) fun closing hclosing => .bind (hg.grammatical _) fun element helement =>
      gives_compositeLiteral hg (grammatical_joining rfl ?_)
  simp [hopening.grammatical, hdots.grammatical, hclosing.grammatical, helement]

theorem gives_typeLed : Gives (typeLed g place) Grammatical := by
  refine .after fun _ => .ite (gives_countedLiteral hg) (.bind (hg.grammatical _) fun type htype => ?_)
  exact .after fun _ => .ite (gives_compositeLiteral hg htype)
    (.after fun _ => .ite (gives_conversion hg htype) gives_failure)

theorem gives_builtConversion : Gives (builtConversion g place) Grammatical :=
  .bind (hg.grammatical _) fun _ htype =>
    .after fun _ => .ite (gives_conversion hg htype) gives_failure

theorem gives_parenthesized : Gives (parenthesized g place) Grammatical := by
  refine .orElse (gives_builtConversion hg) (.bind (gives_symbol _) fun opening hopening =>
    .bind (hg.grammatical _) fun inner hinner => .bind (gives_symbol _) fun closing hclosing =>
      .pure (grammatical_joining rfl ?_))
  simp [hopening.grammatical, hinner, hclosing.grammatical]

theorem gives_nameOperand : Gives (nameOperand g place) Grammatical :=
  .after fun _ => .ite (.pure grammatical_namedLeaf) (.after fun _ => .ite
    (.bind (gives_allocationArguments hg) fun _ hargs =>
      .pure (grammatical_joining rfl (by simp [hargs])))
    (.pure grammatical_namedLeaf))

theorem gives_operand : Gives (Grammar.operand g place) Grammatical := by
  refine .after fun next => ?_
  cases next with
  | none => exact gives_failure
  | some t =>
    have hleaf : ∀ kind, Gives (do return namedLeaf kind (← next)) Grammatical := fun _ =>
      .after fun _ => .pure grammatical_namedLeaf
    dsimp only
    split
    · exact gives_nameOperand hg
    · exact hleaf _
    · exact hleaf _
    · exact hleaf _
    · exact hleaf _
    · exact gives_stringLiteral.mono fun _ h => h.1
    · exact gives_stringLiteral.mono fun _ h => h.1
    · split
      · exact gives_parenthesized hg
      · exact gives_functionLiteral hg
      all_goals first | exact gives_typeLed hg | exact gives_failure

theorem gives_follow {e : Concrete} (he : e.Grammatical) :
    Gives (follow g place e) fun o => ∀ c ∈ o, c.Grammatical := by
  refine .after fun next => ?_
  cases next with
  | none => exact gives_none
  | some t =>
    refine .ite gives_none ?_
    split
    · refine .after fun _ => .ite gives_none (.bind (gives_symbol _) fun dot hdot =>
        .after fun _ => .ite ?_ ?_)
      · refine .bind (gives_symbol _) fun opening hopening => .bind (hg.grammatical _)
          fun type htype => .bind (gives_symbol _) fun closing hclosing =>
            .pure_some (grammatical_joining rfl ?_)
        simp [he, hdot.grammatical, hopening.grammatical, htype, hclosing.grammatical]
      · refine .bind (gives_name _) fun member ⟨t, hmember⟩ =>
          .pure_some (grammatical_joining rfl ?_)
        simp [he, hdot.grammatical, hmember]
    · exact .bind (gives_argumentList hg) fun args hargs =>
        .pure_some (grammatical_joining rfl (by simp [he, hargs]))
    · exact .bind (gives_bracketed hg he) fun c hc => .pure_some hc
    · split
      · rename_i type htype
        have hread : asTypeName? e = some type := by
          split at htype
          · exact htype
          · cases htype
        exact .bind (gives_compositeLiteral hg (grammatical_asTypeName? he hread))
          fun c hc => .pure_some hc
      · exact gives_none
    · exact gives_none

theorem gives_primary {first : Parser Concrete} (hfirst : Gives first Grammatical) :
    Gives (primary g place first) Grammatical := by
  refine .bind hfirst fun e he => .bind (.iterate he fun e he => gives_follow hg he) fun e he => ?_
  exact .ite (.after fun _ => .pure he) (.pure he)

theorem gives_unaryRule : Gives (unaryRule g place) Grammatical := by
  refine .after fun _ => .after fun _ => .after fun _ => .ite ?_ (gives_primary hg (gives_operand hg))
  refine .bind (.attempt? (.after fun _ => .ite (gives_builtConversion hg) gives_failure)) fun o ho => ?_
  cases o with
  | none =>
    exact .after fun _ => .bind (hg.grammatical _) fun _ hinner =>
      .pure (grammatical_joining rfl (by simp [hinner]))
  | some converted => exact gives_primary hg (.pure (ho converted rfl))

theorem gives_binary : ∀ levels : List (List String), Gives (binary g place levels) Grammatical
  | [] => hg.grammatical _
  | ops :: tighter => by
    refine .bind (gives_binary tighter) fun first hfirst => .iterate hfirst fun left hleft => ?_
    exact .after fun _ => .ite (.after fun _ => .bind (gives_binary tighter) fun right hright =>
      .pure_some (grammatical_joining rfl (by simp [hleft, hright]))) gives_none

theorem gives_expressionRule : Gives (expressionRule g place) Grammatical :=
  gives_binary hg _

end Rules

end Lintel.Go.Grammar
