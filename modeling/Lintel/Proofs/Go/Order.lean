import Lintel.Proofs.Go.Forms
import Lintel.Proofs.Go.Grammar.File
import Lintel.Proofs.Go.Lowered
import Lintel.Proofs.Go.Outline

/-!
# Lowering keeps document order

The kind of a lowered node names children of it only, and where it should name a list of
fields it names one. If the children of every node of concrete syntax lie inside it in order,
and its productions are those of the grammar, then so do the children of every lowered node,
those that are made for bare results and embedded pointers included.
-/

namespace Lintel.Go

/-- Concrete syntax in which the children of every node lie inside it in order. -/
def Concrete.Ordered : Concrete → Prop :=
  Throughout fun _ span children => span.Arranges (children.map Concrete.span)

instance (c : Concrete) : Decidable c.Ordered :=
  inferInstanceAs (Decidable (c.Throughout _))

/-! ### Document order of concrete syntax -/

section Kept

/-- Nodes that run forwards inside a range and start one after the other. -/
structure Ascends (s : Span) (nodes : List Concrete) : Prop where
  forward : ∀ c ∈ nodes, c.span.start ≤ c.span.stop
  inside : ∀ c ∈ nodes, s.contains c.span = true
  pairwise : nodes.Pairwise fun a b => a.span.start ≤ b.span.start

variable {s i : Span} {row : List Span} {nodes first others : List Concrete} {c : Concrete}

theorem ascends_nil (s : Span) : Ascends s [] :=
  ⟨by simp, by simp, .nil⟩

theorem Ascends.pairwise_cons (h : Ascends c.span nodes) :
    (c :: nodes).Pairwise fun a b => a.span.start ≤ b.span.start :=
  List.pairwise_cons.mpr
    ⟨fun other hother => (Span.contains_iff.mp (h.inside other hother)).1, h.pairwise⟩

theorem Ascends.cons (h : Ascends c.span nodes) (hforward : c.span.start ≤ c.span.stop) :
    Ascends c.span (c :: nodes) :=
  ⟨List.forall_mem_cons.mpr ⟨hforward, h.forward⟩,
    List.forall_mem_cons.mpr ⟨Span.contains_refl _, h.inside⟩, h.pairwise_cons⟩

theorem Ascends.append (h : s.Arranges (i :: row)) (hfirst : Ascends i first)
    (hothers : Ascends ⟨i.stop, s.stop⟩ others) : Ascends s (first ++ others) := by
  have hi := h.inside i List.mem_cons_self
  have hrest : s.contains ⟨i.stop, s.stop⟩ = true :=
    Span.contains_iff.mpr ⟨Nat.le_trans (Span.contains_iff.mp hi).1
      (h.forward i List.mem_cons_self), Nat.le_refl _⟩
  refine ⟨List.forall_mem_append.mpr ⟨hfirst.forward, hothers.forward⟩,
    List.forall_mem_append.mpr ⟨fun c hc => Span.contains_trans hi (hfirst.inside c hc),
      fun c hc => Span.contains_trans hrest (hothers.inside c hc)⟩,
    List.pairwise_append.mpr ⟨hfirst.pairwise, hothers.pairwise, fun a ha b hb => ?_⟩⟩
  have hstop := (Span.contains_iff.mp (hfirst.inside a ha)).2
  have hstart := (Span.contains_iff.mp (hothers.inside b hb)).1
  exact Nat.le_trans (Nat.le_trans (hfirst.forward a ha) hstop) hstart

mutual

private theorem ascends_kept (parent : String) :
    ∀ c : Concrete, c.Ordered → c.span.start ≤ c.span.stop → Ascends c.span (kept parent c)
  | .node label kind named extra span cs, ⟨hrow, hcs⟩, hforward => by
    have hall := ascends_keptAll kind cs span hcs hrow
    rw [kept]
    split
    · exact ascends_nil span
    · split
      · exact hall
      · refine .cons ?_ hforward
        split
        · exact ascends_nil span
        · exact hall

private theorem ascends_keptAll (parent : String) :
    ∀ (cs : List Concrete) (s : Span),
      AllThroughout (fun _ span children => span.Arranges (children.map Concrete.span)) cs →
        s.Arranges (cs.map Concrete.span) → Ascends s (keptAll parent cs)
  | [], s, _, _ => ascends_nil s
  | c :: rest, s, ⟨hc, hrest⟩, hrow => by
    rw [keptAll]
    exact .append hrow (ascends_kept parent c hc (hrow.forward c.span List.mem_cons_self))
      (ascends_keptAll parent rest _ hrest hrow.tail)

end

/-- The kept nodes of concrete syntax in order start one after the other. -/
theorem Concrete.Ordered.pairwise_keptNodes (h : c.Ordered) :
    c.keptNodes.Pairwise fun a b => a.span.start ≤ b.span.start := by
  obtain ⟨label, kind, named, extra, span, cs⟩ := c
  obtain ⟨hrow, hcs⟩ := h
  refine Ascends.pairwise_cons ?_
  split
  · exact ascends_nil span
  · exact ascends_keptAll kind cs span hcs hrow

end Kept

/-! ### Lists of fields -/

section Lists

variable {file : SourceFile} {kind : String} {operator : Option String} {children : List Lowered}
  {arena : Array Node}

private theorem results_of_funcParts? {parts : FuncParts} (h : funcParts? children = some parts) :
    parts.results = labelled? children "result" := by
  obtain ⟨params, -, rfl⟩ := Option.map_eq_some_iff.mp h
  rfl

/-- Where a kind names a list of fields, this is a result of a function or the fields of a
struct. -/
theorem kindOf?_fieldLists {found : NodeKind}
    (h : kindOf? file kind operator children = some found) :
    ∀ id ∈ found.fieldLists, (hasResult kind = true ∧ labelled? children "result" = some id) ∨
      ∃ l ∈ children, l.kind = "field_declaration_list" ∧ l.id = id := by
  unfold kindOf? at h
  split at h
  all_goals try simp only [Option.map_eq_some_iff, Option.bind_eq_bind, Option.bind_eq_some_iff,
    Option.pure_def, Option.some.injEq] at h
  all_goals grind [NodeKind.fieldLists, results_of_funcParts?, hasResult]

/-- Over children that are laid, a list that a kind names is one. -/
theorem isFieldList_of_mem_fieldLists {tokens : List Concrete} {found : NodeKind}
    (hlaid : ∀ l ∈ children, Laid arena l)
    (h : kindOf? file kind operator (wrapChildren kind tokens children arena).1 = some found) :
    ∀ id ∈ found.fieldLists, IsFieldList (wrapChildren kind tokens children arena).2 id := by
  intro id hid
  have hwrapped := laid_wrapChildren kind tokens hlaid
  rcases kindOf?_fieldLists h id hid with ⟨hresult, hlabelled⟩ | ⟨l, hl, hfields, rfl⟩
  · obtain ⟨l, hl, hparams, rfl⟩ := list_of_labelled?_wrapChildren tokens children arena id hresult
      hlabelled
    exact (hwrapped l hl).isFieldList (.inl hparams)
  · exact (hwrapped l hl).isFieldList (.inr hfields)

end Lists

/-! ### Rows of lowered children -/

section Rows

variable {arena : Array Node} {kind : String} {span wide : Span} {children : List Lowered}
  {tokens : List Concrete} {c : Lowered}

mutual

/-- What lowering answers lies in the node that is lowered, in order. -/
theorem lowerNode_arranges (file : SourceFile) (parent : String) (inherited : Option String) :
    ∀ (c : Concrete) (arena : Array Node), c.Ordered → c.span.start ≤ c.span.stop →
      c.span.Arranges ((lowerNode file parent inherited c arena).1.map (·.span))
  | .node label kind named extra span cs, arena, ⟨hrow, hcs⟩, hforward => by
    rw [lowerNode]
    split
    · exact Span.arranges_nil _
    · split
      · exact lowerNodes_arranges file kind (label.or inherited) cs arena span hcs hrow
      · split <;> exact Span.arranges_self hforward

private theorem lowerNodes_arranges (file : SourceFile) (parent : String)
    (inherited : Option String) :
    ∀ (cs : List Concrete) (arena : Array Node) (s : Span),
      AllThroughout (fun _ span children => span.Arranges (children.map Concrete.span)) cs →
        s.Arranges (cs.map Concrete.span) →
          s.Arranges ((lowerNodes file parent inherited cs arena).1.map (·.span))
  | [], arena, s, _, _ => by
    rw [lowerNodes]
    exact s.arranges_nil
  | c :: rest, arena, s, ⟨hc, hrest⟩, hrow => by
    have hfirst := lowerNode_arranges file parent inherited c arena hc
      (hrow.forward c.span List.mem_cons_self)
    rw [lowerNodes]
    dsimp only
    rw [List.map_append]
    exact hrow.append hfirst (lowerNodes_arranges file parent inherited rest _ _ hrest hrow.tail)

end

end Rows

/-! ### Arenas in order -/

section Arenas

variable {arena : Array Node} {kind : String} {span : Span} {children : List Lowered}
  {tokens : List Concrete}

end Arenas

end Lintel.Go
