import Lintel.Proofs.Go.Arena
import Lintel.Proofs.Go.Productions
import Lintel.Proofs.Tree.Order

/-!
# Lowered children

What lowering answers with stands in the arena, with its range and with a node that fits its
kind. Nodes that are not spliced are answered one by one, by their labels and kinds, and what
is answered keeps the order of the concrete syntax that it comes from.
-/

namespace Lintel.Go

/-! ### Children in an arena -/

/-- A list of fields in the grammar is one in the tree, and a type is neither a block nor a
function literal. -/
structure Fits (kind : String) (tag : NodeTag) : Prop where
  list : kind = "parameter_list" ∨ kind = "field_declaration_list" → tag = .fieldList
  type : kind ∈ typeKinds → tag ≠ .block ∧ tag ≠ .funcLit

/-- A lowered child has its range in an arena, and a node that fits its kind. -/
def Laid (arena : Array Node) (l : Lowered) : Prop :=
  ∃ n, arena[l.id]? = some n ∧ n.span = l.span ∧ Fits l.kind n.kind.tag

section Laid

variable {a b arena : Array Node} {n : Node} {l : Lowered} {file : SourceFile} {kind : String}

theorem Laid.extend (h : Laid a l) (hab : Extends a b) : Laid b l := by
  obtain ⟨n, hn, hspan, hfits⟩ := h
  exact ⟨n, hab l.id n hn, hspan, hfits⟩

theorem Laid.push (hid : l.id = arena.size) (hspan : n.span = l.span) (hfits : Fits l.kind n.kind.tag) :
    Laid (arena.push n) l :=
  ⟨n, by rw [hid, Array.getElem?_push_size], hspan, hfits⟩

theorem Laid.isFieldList (h : Laid arena l)
    (hkind : l.kind = "parameter_list" ∨ l.kind = "field_declaration_list") :
    IsFieldList arena l.id := by
  obtain ⟨n, hn, -, hfits⟩ := h
  exact ⟨n, hn, hfits.list hkind⟩

private theorem fits_leafKind? {text : String} {found : NodeKind}
    (h : leafKind? kind text = some found) :
    Fits kind found.tag := by
  unfold leafKind? at h
  split at h <;> cases h <;> exact ⟨by simp, fun _ => by simp [NodeKind.tag]⟩

private theorem kindOf?_funcLit {operator : Option String} {children : List Lowered}
    {found : NodeKind}
    (h : kindOf? file kind operator children = some found) (htag : found.tag = .funcLit) :
    kind = "func_literal" := by
  unfold kindOf? at h
  split at h
  all_goals try simp only [Option.map_eq_some_iff, Option.bind_eq_bind, Option.bind_eq_some_iff,
    Option.pure_def, Option.some.injEq] at h
  all_goals grind [NodeKind.tag]

private theorem fits_kindOf? (file : SourceFile) (kind : String) (operator : Option String)
    (children : List Lowered) :
    Fits kind ((kindOf? file kind operator children).getD (.other kind)).tag := by
  refine ⟨?_, fun htype => ?_⟩
  · rintro (rfl | rfl) <;> rfl
  · cases hkind : kindOf? file kind operator children with
    | none => exact ⟨by simp [NodeKind.tag], by simp [NodeKind.tag]⟩
    | some found =>
      refine ⟨fun htag => ?_, fun htag => ?_⟩
      · exact absurd ((kindOf?_spec hkind).1 htag ▸ htype) (by decide)
      · exact absurd (kindOf?_funcLit hkind htag ▸ htype) (by decide)

end Laid

/-! ### Wrapping -/

/-- Whether a child is a result without parentheses. -/
def isBare (c : Lowered) : Bool :=
  c.label == some "result" && c.kind != "parameter_list"

section Wrapping

variable {arena after : Array Node} {kind : String} {tokens : List Concrete} {c l : Lowered}
  {children : List Lowered} {test : Lowered → Bool} {replacement : Lowered}

/-- What wrapping does: nothing, or a field and a list over a bare result, or a pointer type
over the type of a field that begins with a star. -/
theorem wrapChildren_cases (kind : String) (tokens : List Concrete) (children : List Lowered)
    (arena : Array Node) :
    ((hasResult kind = true → children.find? isBare = none) ∧
      wrapChildren kind tokens children arena = (children, arena)) ∨
    (∃ c, hasResult kind = true ∧ children.find? isBare = some c ∧
      wrapChildren kind tokens children arena =
        (replaceFirst isBare { c with kind := "parameter_list", id := arena.size + 1 } children,
          (arena.push ⟨.field [] c.id none, c.span, [c.id]⟩).push
            ⟨.fieldList, c.span, [arena.size]⟩)) ∨
    ∃ star c, kind = "field_declaration" ∧ tokens.head? = some star ∧ star.kind = "*" ∧
      children.find? (·.label == some "type") = some c ∧
      wrapChildren kind tokens children arena =
        (replaceFirst (·.label == some "type")
            ⟨c.label, "pointer_type", ⟨star.span.start, c.span.stop⟩, arena.size⟩ children,
          arena.push ⟨.pointerType c.id, ⟨star.span.start, c.span.stop⟩, [c.id]⟩) := by
  unfold wrapChildren
  split
  · rename_i hresult
    have hbare : (fun c : Lowered => c.label == some "result" && c.kind != "parameter_list") =
        isBare := rfl
    unfold wrapResult
    dsimp only
    rw [hbare]
    cases hc : children.find? isBare with
    | none => exact .inl ⟨fun _ => rfl, rfl⟩
    | some c => exact .inr (.inl ⟨c, hresult, rfl, by simp only [Array.size_push]⟩)
  · rename_i hresult
    split
    · rename_i hfield
      unfold wrapPointer
      cases hstar : tokens.head? with
      | none => exact .inl ⟨fun h => absurd h hresult, rfl⟩
      | some star =>
        cases hc : children.find? (·.label == some "type") with
        | none => exact .inl ⟨fun h => absurd h hresult, by simp [hc]⟩
        | some c =>
          by_cases hkind : star.kind = "*"
          · exact .inr (.inr ⟨star, c, by simpa using hfield, rfl, hkind, rfl, by simp [hc, hkind]⟩)
          · exact .inl ⟨fun h => absurd h hresult, by simp [hc, hkind]⟩
    · exact .inl ⟨fun h => absurd h hresult, rfl⟩

private theorem laid_replaceFirst (h : ∀ l ∈ children, Laid arena l) (hgrows : Extends arena after)
    (hreplacement : Laid after replacement) :
    ∀ l ∈ replaceFirst test replacement children, Laid after l := by
  intro l hl
  rcases mem_replaceFirst hl with rfl | hl
  · exact hreplacement
  · exact (h l hl).extend hgrows

theorem laid_wrapChildren (kind : String) (tokens : List Concrete)
    (h : ∀ l ∈ children, Laid arena l) :
    ∀ l ∈ (wrapChildren kind tokens children arena).1,
      Laid (wrapChildren kind tokens children arena).2 l := by
  rcases wrapChildren_cases kind tokens children arena with ⟨-, heq⟩ | ⟨c, -, -, heq⟩ | ⟨star, c, -, -, -, -, heq⟩
  · rw [heq]
    exact h
  · rw [heq]
    exact laid_replaceFirst h ((Extends.push arena _).trans (.push _ _))
      (.push (by simp) rfl ⟨fun _ => rfl, fun _ => by simp [NodeKind.tag]⟩)
  · rw [heq]
    exact laid_replaceFirst h (.push arena _)
      (.push rfl rfl ⟨by simp, fun _ => by simp [NodeKind.tag]⟩)

theorem addNode_eq (file : SourceFile) (kind : String) (span : Span) (tokens : List Concrete)
    (children : List Lowered) (arena : Array Node) :
    addNode file kind span tokens children arena =
      ((wrapChildren kind tokens children arena).2.size,
        (wrapChildren kind tokens children arena).2.push
          ⟨(kindOf? file kind (operatorText? file tokens)
              (wrapChildren kind tokens children arena).1).getD (.other kind),
            span, (wrapChildren kind tokens children arena).1.map (·.id)⟩) :=
  rfl

private theorem laid_addNode (file : SourceFile) (kind : String) (span : Span)
    (tokens : List Concrete)
    (children : List Lowered) (arena : Array Node) (label : Option String) :
    Laid (addNode file kind span tokens children arena).2
      ⟨label, kind, span, (addNode file kind span tokens children arena).1⟩ :=
  .push rfl rfl (fits_kindOf? ..)

/-- The first child of a broader class is the replacement or was passed over by the test. -/
theorem find?_replaceFirst {broad : Lowered → Bool}
    (hc : children.find? test = some c) (hbroad : broad replacement = true)
    (h : (replaceFirst test replacement children).find? broad = some l) :
    l = replacement ∨ test l = false := by
  induction children with
  | nil => cases hc
  | cons first others ih =>
    rw [replaceFirst] at h
    rw [List.find?_cons] at hc
    split at hc
    · rename_i htest
      rw [if_pos htest, List.find?_cons_of_pos hbroad] at h
      exact .inl (Option.some.inj h).symm
    · rename_i htest
      rw [if_neg (by simp [htest]), List.find?_cons] at h
      split at h
      · exact .inr (Option.some.inj h ▸ htest)
      · exact ih hc h

/-- The first result among wrapped children is a list. -/
theorem list_of_labelled?_wrapChildren (tokens : List Concrete) (children : List Lowered)
    (arena : Array Node) (id : Nat) (hresult : hasResult kind = true)
    (h : labelled? (wrapChildren kind tokens children arena).1 "result" = some id) :
    ∃ l ∈ (wrapChildren kind tokens children arena).1, l.kind = "parameter_list" ∧ l.id = id := by
  obtain ⟨l, hl, rfl⟩ := Option.map_eq_some_iff.mp h
  refine ⟨l, List.mem_of_find?_eq_some hl, ?_, rfl⟩
  have hlabel : l.label = some "result" := by simpa using List.find?_some hl
  have hlist : isBare l = false → l.kind = "parameter_list" := by simp [isBare, hlabel]
  rcases wrapChildren_cases kind tokens children arena with
    ⟨hnone, heq⟩ | ⟨c, -, hc, heq⟩ | ⟨_, _, rfl, _⟩
  · rw [heq] at hl
    exact hlist (by simpa using List.find?_eq_none.mp (hnone hresult) l (List.mem_of_find?_eq_some hl))
  · rw [heq] at hl
    have hbroad : c.label = some "result" := by
      have := List.find?_some hc
      simp only [isBare, Bool.and_eq_true, beq_iff_eq] at this
      exact this.1
    rcases find?_replaceFirst hc (by simp [hbroad]) hl with rfl | hbare
    · rfl
    · exact hlist hbare
  · cases hresult

end Wrapping

/-! ### Lowering -/

section Lowering

variable {arena : Array Node} {parent kind : String} {inherited : Option String} {c : Concrete}
  {cs : List Concrete}

mutual

/-- What lowering answers with stands in the arena. -/
theorem lowerNode_laid (file : SourceFile) (parent : String) (inherited : Option String) :
    ∀ (c : Concrete) (arena : Array Node), ∀ l ∈ (lowerNode file parent inherited c arena).1,
      Laid (lowerNode file parent inherited c arena).2 l
  | .node label kind named extra span cs, arena => by
    rw [lowerNode]
    split
    · simp
    · split
      · exact lowerNodes_laid file kind (label.or inherited) cs arena
      · split
        · rename_i leaf hleaf
          exact List.forall_mem_singleton.mpr (.push rfl rfl (fits_leafKind? hleaf))
        · exact List.forall_mem_singleton.mpr (laid_addNode ..)

theorem lowerNodes_laid (file : SourceFile) (parent : String) (inherited : Option String) :
    ∀ (cs : List Concrete) (arena : Array Node), ∀ l ∈ (lowerNodes file parent inherited cs arena).1,
      Laid (lowerNodes file parent inherited cs arena).2 l
  | [], arena => by simp [lowerNodes]
  | c :: rest, arena => by
    rw [lowerNodes]
    have hgrows := (lowerNodes_adds file parent inherited rest
      (lowerNode file parent inherited c arena).2).grows
    exact List.forall_mem_append.mpr
      ⟨fun l hl => (lowerNode_laid file parent inherited c arena l hl).extend hgrows,
        lowerNodes_laid file parent inherited rest _⟩

end

/-! ### Labels and kinds -/

private theorem lowerNode_of_not_isKept (file : SourceFile) (hc : c.isKept = false) :
    (lowerNode file parent inherited c arena).1 = [] := by
  cases c
  rw [lowerNode, if_pos (by grind [Concrete.isKept, Concrete.named, Concrete.extra, Concrete.kind])]

private theorem lowerNode_of_isKept (file : SourceFile) (inherited : Option String)
    (arena : Array Node) (hc : c.isKept = true) (hspliced : isSpliced parent c.kind = false) :
    ∃ l, (lowerNode file parent inherited c arena).1 = [l] ∧ l.label = c.label.or inherited ∧
      l.kind = c.kind := by
  cases c
  rw [lowerNode, if_neg (by grind [Concrete.isKept, Concrete.named, Concrete.extra, Concrete.kind]),
    if_neg (by simpa [Concrete.kind] using hspliced)]
  split
  · exact ⟨_, rfl, rfl, rfl⟩
  · exact ⟨_, rfl, rfl, rfl⟩

/-- Where nothing is spliced, lowering answers with the nodes that are kept. -/
theorem map_lowerNodes (file : SourceFile) (arena : Array Node)
    (h : ∀ c ∈ cs, c.isKept = true → isSpliced parent c.kind = false) :
    (lowerNodes file parent none cs arena).1.map (fun l => (l.label, l.kind)) =
      (cs.filter Concrete.isKept).map fun c => (c.label, c.kind) := by
  induction cs generalizing arena with
  | nil =>
    rw [lowerNodes]
    rfl
  | cons c rest ih =>
    obtain ⟨hc, hrest⟩ := List.forall_mem_cons.mp h
    rw [lowerNodes]
    dsimp only
    rw [List.map_append, ih _ hrest]
    cases hkept : c.isKept with
    | true =>
      obtain ⟨l, hl, hlabel, hkind⟩ := lowerNode_of_isKept file none arena hkept (hc hkept)
      rw [hl, List.filter_cons_of_pos hkept, List.map_singleton, hlabel, hkind, Option.or_none]
      rfl
    | false =>
      rw [lowerNode_of_not_isKept file hkept, List.filter_cons_of_neg (by simp [hkept])]
      rfl

/-- The children of a node whose parts the grammar names are such parts. -/
theorem isPart_lowerNodes (file : SourceFile) (arena : Array Node)
    (h : Production kind cs) :
    ∀ l ∈ (lowerNodes file kind none cs arena).1, IsPart kind l.label l.kind := by
  intro l hl kinds hkinds
  have hmap := map_lowerNodes file arena fun c hc hkept =>
    isSpliced_eq_false_of_isPart hkinds (h.parts c hc hkept)
  have hmem : (l.label, l.kind) ∈ (lowerNodes file kind none cs arena).1.map
      (fun l => (l.label, l.kind)) := List.mem_map_of_mem hl
  rw [hmap] at hmem
  obtain ⟨c, hc, heq⟩ := List.mem_map.mp hmem
  obtain ⟨hlabel, hkind⟩ := Prod.mk.inj heq
  obtain ⟨hmem, hkept⟩ := List.mem_filter.mp hc
  exact hlabel ▸ hkind ▸ h.parts c hmem hkept kinds hkinds

end Lowering

end Lintel.Go
