import Lintel.Go.Grammar.Types
import Lintel.Proofs.Go.Grammar.Parser

/-!
# Types as the grammar has them

The rules for types, fields and parameters keep the productions of the grammar: the rule for
types answers with a type, and each field and each function has parts of the kinds that its
labels ask for.
-/

namespace Lintel.Go.Grammar

open Lintel.Go.Parser Concrete

variable {g : Grammar} {stops : Bool}

/-- A node of the grammar for a type that can be embedded. -/
structure IsNamedType (c : Concrete) : Prop where
  grammatical : c.Grammatical
  named : c.named = true
  extra : c.extra = false
  kind : c.kind ∈ embeddedKinds

theorem IsNamedType.isType {c : Concrete} (h : IsNamedType c) :
    c.Grammatical ∧ c.kind ∈ typeKinds :=
  ⟨h.grammatical, (show embeddedKinds ⊆ typeKinds by decide) h.kind⟩

theorem gives_typeName : Gives (typeName stops) IsNamedType := by
  refine .after fun first => ?_
  extract_lets rest
  have hrest : ∀ u, Gives (rest u) IsNamedType := by
    intro u
    refine .after fun _ => .ite ?_ (.pure ⟨by simp, rfl, rfl, by simp [embeddedKinds]⟩)
    refine .bind (gives_symbol ".") fun dot hdot => .bind (gives_name _) ?_
    rintro _ ⟨last, rfl⟩
    refine .pure ⟨grammatical_joining rfl ?_, rfl, rfl, by simp [embeddedKinds]⟩
    simp [hdot.grammatical]
  exact .ite (.after hrest) (hrest ())

theorem fills_parameters {c : Concrete} (h : Goal.parameters.Asks c) :
    (c.labelled "parameters").Fills functionParts :=
  h.1.fills (List.mem_singleton.mpr h.2)

theorem gives_stringLiteral : Gives stringLiteral fun c =>
    c.Grammatical ∧ c.kind ∈ ["interpreted_string_literal", "raw_string_literal"] := by
  refine .after fun t => ?_
  split
  · exact .pure ⟨by simp, by simp⟩
  · exact .pure ⟨by simp, by simp⟩
  · exact gives_failure

section Rules

variable (hg : g.Sound)

include hg

/-! ### Types -/

theorem gives_typeElem {kind : String} (hkind : partsOf? kind = none) :
    Gives (typeElem g stops kind) Grammatical := by
  refine .bind (hg.grammatical _) fun first hfirst => .bind (P := Items Grammatical)
    (.iterate (by simp [Items, hfirst]) fun items hitems => ?_) fun items hitems =>
      .pure (grammatical_joining hkind hitems.grammatical)
  exact .after fun _ => .ite (.bind (gives_symbol "|") fun bar hbar => .bind (hg.grammatical _)
    fun c hc => .pure_some (hitems.append (by simp [Items, hbar, hc]))) gives_none

theorem gives_typeArguments : Gives (typeArguments g) Grammatical :=
  .bind (gives_between (gives_commaTerminated (gives_typeElem hg rfl) "]") "[" "]")
    fun _ hitems => .pure (grammatical_joining rfl hitems.grammatical)

theorem gives_namedType : Gives (namedType g stops) IsNamedType := by
  refine .bind gives_typeName fun base hbase => .after fun _ => .ite ?_ (.pure hbase)
  refine .bind (.attempt? (gives_typeArguments hg)) fun o ho => ?_
  cases o with
  | none => exact .pure hbase
  | some args =>
    refine .pure ⟨grammatical_joining rfl ?_, rfl, rfl, by simp [embeddedKinds]⟩
    simp [hbase.grammatical, ho args rfl]

theorem gives_arrayType :
    Gives (arrayType g stops) fun c => c.Grammatical ∧ c.kind ∈ typeKinds := by
  refine .bind (gives_symbol "[") fun opening hopening => .after fun _ => .ite ?_ ?_
  · refine .bind (gives_symbol "]") fun closing hclosing => .bind (hg.grammatical _) fun c hc =>
      .pure ⟨grammatical_joining rfl ?_, by simp [typeKinds]⟩
    simp [hopening.grammatical, hclosing.grammatical, hc]
  · refine .bind (hg.grammatical _) fun length hlength => .bind (gives_symbol "]")
      fun closing hclosing => .bind (hg.grammatical _) fun c hc =>
        .pure ⟨grammatical_joining rfl ?_, by simp [typeKinds]⟩
    simp [hopening.grammatical, hclosing.grammatical, hlength, hc]

theorem gives_arrayTypeOnLine :
    Gives (arrayTypeOnLine g) fun c => c.Grammatical ∧ c.kind ∈ typeKinds := by
  refine .bind (gives_symbol "[") fun opening hopening => .after fun _ => .ite ?_ ?_
  · refine .bind (gives_symbol "]") fun closing hclosing => .bind (hg.grammatical _) fun c hc =>
      .pure ⟨grammatical_joining rfl ?_, by simp [typeKinds]⟩
    simp [hopening.grammatical, hclosing.grammatical, hc]
  · refine .bind (hg.grammatical _) fun length hlength => .bind (gives_symbol "]")
      fun closing hclosing => .after fun next => ?_
    extract_lets rest
    have hrest : ∀ u, Gives (rest u) fun c => c.Grammatical ∧ c.kind ∈ typeKinds := by
      refine fun u => .bind (hg.grammatical _) fun c hc =>
        .pure ⟨grammatical_joining rfl ?_, by simp [typeKinds]⟩
      simp [hopening.grammatical, hclosing.grammatical, hlength, hc]
    exact .ite (.after hrest) (hrest ())

/-! ### Fields -/

omit hg in
theorem gives_fieldTag : Gives fieldTag fun tag => ∀ c ∈ tag, c.Fills fieldParts := by
  refine .after fun next => ?_
  cases next with
  | none => exact .pure (by simp)
  | some t =>
    exact .ite (.bind gives_stringLiteral fun c hc =>
      .pure (List.forall_mem_singleton.mpr (hc.1.fills hc.2))) (.pure (by simp))

/-- What stands in a field before its tag. -/
structure FieldBody (body : List Concrete) : Prop where
  parts : ∀ c ∈ body, c.Fills fieldParts
  begins : body ≠ []
  star : ∀ star rest, body = star :: rest → star.kind = "*" →
    star.named = false ∧ ∃ type, rest = [type] ∧ type.named = true ∧ type.extra = false ∧
      type.label = some "type" ∧ type.kind ∈ embeddedKinds

theorem gives_embeddedField : Gives (embeddedField g) FieldBody := by
  have hfills : ∀ {type : Concrete}, IsNamedType type →
      (type.labelled "type").Fills fieldParts := fun htype =>
    htype.grammatical.fills htype.isType.2
  refine .after fun _ => .ite ?_ ?_
  · refine .bind (gives_symbol "*") fun star hstar => .bind (gives_namedType hg) fun type htype =>
      .pure ⟨by simp [hstar.fills, hfills htype], by simp, ?_⟩
    rintro _ _ ⟨⟩ -
    exact ⟨hstar.1, _, rfl, by simpa using htype.named, by simpa using htype.extra, by simp,
      by simpa using htype.kind⟩
  · refine .bind (gives_namedType hg) fun type htype =>
      .pure ⟨by simp [hfills htype], by simp, ?_⟩
    rintro _ _ ⟨⟩ hkind
    have hembedded := htype.kind
    rw [kind_labelled] at hkind
    rw [hkind] at hembedded
    exact absurd hembedded (by decide)

theorem gives_namedField : Gives (namedField g) FieldBody := by
  have hname : Gives (do return (← name "field_identifier").labelled "name") fun c =>
      c.Fills fieldParts ∧ c.kind = "field_identifier" :=
    .bind (gives_name _) fun _ ⟨t, ht⟩ => .pure (by simp [ht, Fills, fieldParts])
  refine .bind (gives_commaSeparated hname) ?_
  rintro _ ⟨first, rest, rfl, hfirst, hrest⟩
  refine .after fun next => ?_
  cases next with
  | none => exact gives_failure
  | some t =>
    dsimp -zeta only
    extract_lets finish
    have hfinish : ∀ type : Concrete, type.Grammatical ∧ type.kind ∈ typeKinds →
        Gives (finish type) FieldBody := by
      intro type htype
      have htail : Items (fun c => c.Fills fieldParts) rest := fun c hc =>
        (hrest c hc).imp_left And.left
      refine .pure ⟨?_, by simp, ?_⟩
      · simp only [List.cons_append, List.forall_mem_cons, List.forall_mem_append]
        exact ⟨hfirst.1, htail.fills, htype.1.fills htype.2, List.forall_mem_nil _⟩
      · rintro _ _ ⟨⟩ hkind
        rw [hfirst.2] at hkind
        exact absurd hkind (by decide)
    exact .ite (.bind (gives_arrayTypeOnLine hg) hfinish) (.bind (hg (.type true)) hfinish)

theorem gives_fieldDeclaration : Gives (fieldDeclaration g) Grammatical := by
  refine .bind (.orElse (gives_namedField hg) (gives_embeddedField hg)) fun body hbody =>
    .bind gives_fieldTag fun tag htag => .pure (grammatical_joining_iff.mpr ⟨⟨?_, ?_⟩, ?_⟩)
  · intro c hc hkept kinds hkinds
    obtain rfl := Option.some.inj hkinds
    simp only [isKept, Bool.and_eq_true] at hkept
    exact (List.forall_mem_append.mpr ⟨hbody.parts, htag⟩ c hc).2 hkept.1.1
  · rintro - star rest heq hkind
    obtain ⟨first, others, hfirst⟩ := List.exists_cons_of_ne_nil hbody.begins
    rw [hfirst, List.cons_append] at heq
    obtain ⟨rfl, rfl⟩ := List.cons.inj heq
    obtain ⟨hnamed, type, rfl, htype, hextra, hlabel, htypeKind⟩ := hbody.star _ _ hfirst hkind
    exact ⟨hnamed, type, tag.filter (!·.extra), by simp [hextra], htype, hlabel, htypeKind⟩
  · exact List.forall_mem_append.mpr ⟨fun c hc => (hbody.parts c hc).1, fun c hc => (htag c hc).1⟩

theorem gives_structType :
    Gives (structType g) fun c => c.Grammatical ∧ c.kind ∈ typeKinds := by
  refine .bind (gives_symbol _) fun word hword => .bind
    (gives_between (gives_separatedItems (gives_fieldDeclaration hg) _) _ _) fun fields hfields =>
      .pure ⟨grammatical_joining rfl ?_, by simp [typeKinds]⟩
  have hlist : (joining "field_declaration_list" fields).Grammatical :=
    grammatical_joining rfl hfields.grammatical
  simp [hword.grammatical, hlist]

/-! ### Functions and interfaces -/

theorem gives_result : Gives (result g stops) fun cs => ∀ c ∈ cs, c.Fills functionParts := by
  refine .after fun next => ?_
  cases next with
  | none => exact .pure (by simp)
  | some t =>
    refine .ite (.bind (hg .parameters) fun c hc => .pure ?_)
      (.ite (.bind (hg (.type stops)) fun c hc => .pure ?_) (.pure (by simp)))
    · exact List.forall_mem_singleton.mpr
        (hc.1.fills (List.mem_cons.mpr (.inl hc.2)))
    · exact List.forall_mem_singleton.mpr (hc.1.fills (List.mem_cons_of_mem _ hc.2))

theorem gives_interfaceElem : Gives (interfaceElem g) Grammatical := by
  refine .orElse (.bind (gives_name _) ?_) (gives_typeElem hg rfl)
  rintro _ ⟨t, rfl⟩
  refine .after fun opens => ?_
  extract_lets rest
  have hrest : ∀ u, Gives (rest u) Grammatical := by
    refine fun u => .bind (hg .parameters) fun params hparams => .bind (gives_result hg)
      fun outcome houtcome => .pure (grammatical_joining_parts rfl (by decide) ?_)
    have hword : ((namedLeaf "field_identifier" t).labelled "name").Fills functionParts :=
      grammatical_namedLeaf.fills (by simp [functionParts])
    refine List.forall_mem_append.mpr ⟨?_, houtcome⟩
    simp [hword, fills_parameters hparams]
  exact .ite (.after hrest) (hrest ())

theorem gives_interfaceType :
    Gives (interfaceType g) fun c => c.Grammatical ∧ c.kind ∈ typeKinds := by
  refine .bind (gives_symbol _) fun word hword => .bind
    (gives_between (gives_separatedItems (gives_interfaceElem hg) _) _ _) fun elems helems =>
      .pure ⟨grammatical_joining rfl ?_, by simp [typeKinds]⟩
  simp [hword.grammatical, helems.grammatical]

theorem gives_functionType :
    Gives (functionType g stops) fun c => c.Grammatical ∧ c.kind ∈ typeKinds := by
  refine .bind (gives_symbol _) fun word hword => .bind (hg .parameters) fun params hparams =>
    .bind (gives_result hg) fun outcome houtcome =>
      .pure ⟨grammatical_joining_parts rfl (by decide) ?_, by simp [typeKinds]⟩
  refine List.forall_mem_append.mpr ⟨?_, houtcome⟩
  simp [hword.fills, fills_parameters hparams]

/-! ### Other types -/

theorem gives_mapType :
    Gives (mapType g stops) fun c => c.Grammatical ∧ c.kind ∈ typeKinds := by
  refine .bind (gives_symbol _) fun word hword => .bind (gives_symbol _) fun opening hopening =>
    .bind (hg.grammatical _) fun key hkey => .bind (gives_symbol _) fun closing hclosing =>
      .bind (hg.grammatical _) fun value hvalue =>
        .pure ⟨grammatical_joining rfl ?_, by simp [typeKinds]⟩
  simp [hword.grammatical, hopening.grammatical, hclosing.grammatical, hkey, hvalue]

theorem gives_channelType :
    Gives (channelType g stops) fun c => c.Grammatical ∧ c.kind ∈ typeKinds := by
  refine .after fun _ => .ite ?_ (.bind (gives_symbol _) fun word hword => .after fun _ => ?_)
  · refine .bind (gives_symbol _) fun arrow harrow => .bind (gives_symbol _) fun word hword =>
      .bind (hg.grammatical _) fun value hvalue =>
        .pure ⟨grammatical_joining rfl ?_, by simp [typeKinds]⟩
    simp [harrow.grammatical, hword.grammatical, hvalue]
  · refine .after fun _ => .ite ?_ ?_
    · refine .bind (gives_symbol _) fun arrow harrow => .bind (hg.grammatical _) fun value hvalue =>
        .pure ⟨grammatical_joining rfl ?_, by simp [typeKinds]⟩
      simp [harrow.grammatical, hword.grammatical, hvalue]
    · refine .bind (hg.grammatical _) fun value hvalue =>
        .pure ⟨grammatical_joining rfl ?_, by simp [typeKinds]⟩
      simp [hword.grammatical, hvalue]

theorem gives_typeRule : Gives (typeRule g stops) fun c => c.Grammatical ∧ c.kind ∈ typeKinds := by
  refine .after fun next => ?_
  cases next with
  | none => exact gives_failure
  | some t =>
    refine .ite ((gives_namedType hg).mono fun _ h => h.isType) (.ite gives_failure ?_)
    split
    · refine .bind (gives_symbol _) fun opening hopening => .bind (hg.grammatical _) fun c hc =>
        .bind (gives_symbol _) fun closing hclosing =>
          .pure ⟨grammatical_joining rfl ?_, by simp [typeKinds]⟩
      simp [hopening.grammatical, hclosing.grammatical, hc]
    · refine .bind (gives_symbol _) fun star hstar => .bind (hg (.type stops)) fun c hc =>
        .pure ⟨grammatical_joining_parts rfl (by decide) ?_, by simp [typeKinds]⟩
      simp only [List.forall_mem_cons]
      exact ⟨hstar.fills, ⟨hc.1, fun _ => hc.2⟩, List.forall_mem_nil _⟩
    · refine .bind (gives_symbol _) fun tilde htilde => .bind (hg.grammatical _) fun c hc =>
        .pure ⟨grammatical_joining rfl ?_, by simp [typeKinds]⟩
      simp [htilde.grammatical, hc]
    · exact gives_arrayType hg
    · exact gives_structType hg
    · exact gives_interfaceType hg
    · exact gives_mapType hg
    · exact gives_channelType hg
    · exact gives_channelType hg
    · exact gives_functionType hg
    · exact gives_failure

/-! ### Parameters -/

theorem gives_variadicParameter : Gives (variadicParameter g) Grammatical := by
  refine .after fun named => ?_
  extract_lets rest
  have hrest : ∀ names : List Concrete, (∀ c ∈ names, c.Fills parameterParts) →
      Gives (rest names) Grammatical := by
    refine fun names hnames => .bind (gives_symbol _) fun dots hdots =>
      .bind (hg (.type false)) fun type htype =>
        .pure (grammatical_joining_parts rfl (by decide) (List.forall_mem_append.mpr ⟨hnames, ?_⟩))
    exact List.forall_mem_cons.mpr
      ⟨hdots.fills, List.forall_mem_singleton.mpr (htype.1.fills htype.2)⟩
  refine .ite (.bind (gives_name _) ?_) (hrest [] (by simp))
  rintro _ ⟨t, rfl⟩
  exact hrest _ (by simp [Fills, parameterParts])

theorem gives_namedParameters : Gives (namedParameters g) Grammatical := by
  have hname : Gives (do return (← name "identifier").labelled "name") (Fills parameterParts) :=
    .bind (gives_name _) fun _ ⟨t, ht⟩ => .pure (by simp [ht, Fills, parameterParts])
  refine .bind (gives_commaSeparated_items hname) fun names hnames => .after fun _ => ?_
  extract_lets finish rest
  have hfinish : ∀ type : Concrete, type.Grammatical ∧ type.kind ∈ typeKinds →
      Gives (finish type) Grammatical := fun type htype =>
    .pure (grammatical_joining_parts rfl (by decide) (List.forall_mem_append.mpr
      ⟨hnames.fills, List.forall_mem_singleton.mpr (htype.1.fills htype.2)⟩))
  have hrest : ∀ u, Gives (rest u) Grammatical := fun u => .after fun _ =>
    .ite (.bind (gives_arrayType hg) hfinish) (.bind (hg (.type false)) hfinish)
  exact .ite (.after hrest) (hrest ())

theorem gives_unnamedParameter : Gives (unnamedParameter g) Grammatical :=
  .bind (hg (.type false)) fun _ htype => .pure (grammatical_joining_parts rfl (by decide)
    (List.forall_mem_singleton.mpr (htype.1.fills htype.2)))

theorem gives_parameter : Gives (parameter g) Grammatical :=
  .orElse (gives_variadicParameter hg)
    (.orElse (gives_namedParameters hg) (gives_unnamedParameter hg))

theorem gives_parametersRule :
    Gives (parametersRule g) fun c => c.Grammatical ∧ c.kind = "parameter_list" := by
  have hinner : Gives (do
      if ← sees ")" then return []
      else if ← sees "," then return [← symbol ","]
      else commaTerminated (parameter g) ")") (Items Grammatical) :=
    .after fun _ => .ite (.pure items_nil) (.after fun _ => .ite
      (.bind (gives_symbol _) fun comma hcomma => .pure (by simp [Items, hcomma]))
      (gives_commaTerminated (gives_parameter hg) _))
  exact .bind (gives_between hinner _ _) fun items hitems =>
    .pure ⟨grammatical_joining rfl hitems.grammatical, rfl⟩

theorem gives_typeParameter : Gives (typeParameter g) Grammatical := by
  have hname : Gives (do return (← name "identifier").labelled "name") Grammatical :=
    .bind (gives_name _) fun _ ⟨t, ht⟩ => .pure (by simp [ht])
  refine .bind (gives_commaSeparated_items hname) fun names hnames =>
    .bind (gives_typeElem hg rfl) fun bound hbound => .pure (grammatical_joining rfl ?_)
  simp [hnames.grammatical, hbound]

theorem gives_typeParameters :
    Gives (typeParameters g) fun c => c.Grammatical ∧ c.kind = "type_parameter_list" :=
  .bind (gives_between (gives_commaTerminated (gives_typeParameter hg) _) _ _) fun _ hitems =>
    .pure ⟨grammatical_joining rfl hitems.grammatical, rfl⟩

end Rules

end Lintel.Go.Grammar
