import Lintel.Proofs.Go.Arena
import Lintel.Proofs.Go.Productions

/-!
# What lowered nodes look like

Whatever concrete syntax is lowered, a node of the arena has one of a few forms: the content of a
leaf is its text, the kind of any other node is made from the children that it has, and the
wrappers are made from one child.
-/

namespace Lintel.Go

/-! ### Ids that kinds name -/

section Names

variable {file : SourceFile} {kind : String} {operator : Option String} {children : List Lowered}
  {label : String} {id : Nat}

theorem mem_ids_of_labelled? (h : labelled? children label = some id) :
    id ∈ children.map (·.id) := by
  obtain ⟨l, hl, -, rfl⟩ := exists_of_labelled? h
  exact List.mem_map_of_mem hl

private theorem labelled?_subset (children : List Lowered) (label : String) :
    (labelled? children label).toList ⊆ children.map (·.id) :=
  fun _ hid => mem_ids_of_labelled? (Option.mem_toList.mp hid)

private theorem allLabelled_subset (children : List Lowered) (label : String) :
    allLabelled children label ⊆ children.map (·.id) :=
  List.map_subset _ (List.filter_subset_self ..)

theorem refs_subset_of_funcParts? {parts : FuncParts} (h : funcParts? children = some parts) :
    parts.refs ⊆ children.map (·.id) := by
  obtain ⟨params, hparams, rfl⟩ := Option.map_eq_some_iff.mp h
  simp only [FuncParts.refs, List.append_subset, labelled?_subset, and_true, true_and]
  exact List.cons_subset.mpr ⟨mem_ids_of_labelled? hparams, List.nil_subset _⟩

private theorem kindOf?_refs {found : NodeKind}
    (h : kindOf? file kind operator children = some found) :
    found.refs ⊆ children.map (·.id) := by
  unfold kindOf? at h
  split at h
  all_goals try simp only [Option.map_eq_some_iff, Option.bind_eq_bind, Option.bind_eq_some_iff,
    Option.pure_def, Option.some.injEq] at h
  all_goals grind [NodeKind.refs, refs_subset_of_funcParts?, mem_ids_of_labelled?,
    allLabelled_subset, List.mem_of_head?]

private theorem leafKind?_refs {text : String} {found : NodeKind}
    (h : leafKind? kind text = some found) :
    found.refs = [] := by
  unfold leafKind? at h
  split at h <;> cases h <;> rfl

end Names

/-! ### Arenas by lowering -/

section Lowering

variable {file : SourceFile} {P : String → Span → List Concrete → Prop} {Q : Array Node → Prop}

/-- What an arena keeps while leaves and nodes over lowered children are added. -/
structure Preserved (file : SourceFile) (P : String → Span → List Concrete → Prop)
    (Q : Array Node → Prop) : Prop where
  leaf : ∀ {kind span found arena}, leafKind? kind (file.text span.start span.stop) = some found →
    Q arena → Q (arena.push ⟨found, span, []⟩)
  node : ∀ {kind span tokens arena}, P kind span tokens → AllThroughout P tokens →
    Q (lowerNodes file kind none tokens arena).2 →
      Q (addNode file kind span tokens (lowerNodes file kind none tokens arena).1
        (lowerNodes file kind none tokens arena).2).2

mutual

theorem Preserved.lowerNode (h : Preserved file P Q) (parent : String) (inherited : Option String) :
    ∀ (c : Concrete) (arena : Array Node), c.Throughout P → Q arena →
      Q (lowerNode file parent inherited c arena).2
  | .node label kind named extra span tokens, arena, ⟨hnode, htokens⟩, harena => by
    rw [Go.lowerNode]
    split
    · exact harena
    · split
      · exact Preserved.lowerNodes h kind (label.or inherited) tokens arena htokens harena
      · split
        · exact h.leaf ‹_› harena
        · exact h.node hnode htokens (Preserved.lowerNodes h kind none tokens arena htokens harena)

theorem Preserved.lowerNodes (h : Preserved file P Q) (parent : String) (inherited : Option String) :
    ∀ (cs : List Concrete) (arena : Array Node), AllThroughout P cs → Q arena →
      Q (lowerNodes file parent inherited cs arena).2
  | [], _, _, harena => by
    rw [Go.lowerNodes]
    exact harena
  | c :: rest, arena, ⟨hc, hrest⟩, harena => by
    rw [Go.lowerNodes]
    exact Preserved.lowerNodes h parent inherited rest _ hrest
      (Preserved.lowerNode h parent inherited c arena hc harena)

end

/-- What lowering keeps holds of the arena of a tree. -/
theorem Preserved.arenaOf (h : Preserved file P Q) (hempty : Q #[]) :
    ∀ {root : Concrete}, root.Throughout P → Q (arenaOf file root)
  | .node label kind named extra span tokens, ⟨hnode, htokens⟩ => by
    rw [Go.arenaOf]
    split
    · exact h.leaf ‹_› hempty
    · exact h.node hnode htokens (Preserved.lowerNodes h kind none tokens #[] htokens hempty)

end Lowering

/-- The forms of the nodes that lowering adds. -/
inductive Formed (file : SourceFile) : Node → Prop
  | leaf {kind : String} {found : NodeKind} {span : Span} :
      leafKind? kind (file.text span.start span.stop) = some found → Formed file ⟨found, span, []⟩
  | wrappedField (id : Nat) (span : Span) : Formed file ⟨.field [] id none, span, [id]⟩
  | wrappedList (id : Nat) (span : Span) : Formed file ⟨.fieldList, span, [id]⟩
  | wrappedPointer (id : Nat) (span : Span) : Formed file ⟨.pointerType id, span, [id]⟩
  | built {kind : String} {operator : Option String} {children : List Lowered} {found : NodeKind}
      {span : Span} : kindOf? file kind operator children = some found →
      Formed file ⟨found, span, children.map (·.id)⟩
  | unknown (kind : String) (span : Span) (ids : List Nat) : Formed file ⟨.other kind, span, ids⟩

def AllFormed (file : SourceFile) (arena : Array Node) : Prop :=
  ∀ (id : Nat) (n : Node), arena[id]? = some n → Formed file n

section Formed

variable {file : SourceFile} {arena : Array Node} {n : Node}

theorem AllFormed.push (h : AllFormed file arena) (hn : Formed file n) :
    AllFormed file (arena.push n) := by
  intro id m hm
  rw [Array.getElem?_push] at hm
  split at hm
  · obtain rfl := Option.some.inj hm
    exact hn
  · exact h id m hm

theorem AllFormed.wrapChildren (h : AllFormed file arena) (kind : String) (tokens : List Concrete)
    (children : List Lowered) : AllFormed file (wrapChildren kind tokens children arena).2 := by
  unfold Go.wrapChildren
  split
  · unfold wrapResult
    dsimp only
    split
    · exact h
    · rename_i c _
      exact (h.push (.wrappedField c.id c.span)).push (.wrappedList arena.size c.span)
  · split
    · unfold wrapPointer
      dsimp only
      split
      · split
        · exact h.push (.wrappedPointer _ _)
        · exact h
      · exact h
    · exact h

theorem AllFormed.addNode (h : AllFormed file arena) (kind : String) (span : Span)
    (tokens : List Concrete) (children : List Lowered) :
    AllFormed file (addNode file kind span tokens children arena).2 := by
  have hwrapped := h.wrapChildren kind tokens children
  unfold Go.addNode
  generalize Go.wrapChildren kind tokens children arena = r at hwrapped ⊢
  refine hwrapped.push ?_
  cases hkind : kindOf? file kind (operatorText? file tokens) r.1 with
  | none => exact .unknown kind span _
  | some found => exact .built hkind

private theorem preserved_formed (file : SourceFile) :
    Preserved file (fun _ _ _ => True) (AllFormed file) where
  leaf hleaf h := h.push (.leaf hleaf)
  node _ _ h := h.addNode _ _ _ _

theorem arenaOf_formed (file : SourceFile) (root : Concrete) : AllFormed file (arenaOf file root) :=
  (preserved_formed file).arenaOf (by simp [AllFormed]) (throughout_true root)

end Formed

/-! ### Forms and kinds -/

section Kinds

variable {file : SourceFile} {n : Node}

private theorem allLabelled_sublist (children : List Lowered) (label : String) :
    (allLabelled children label).Sublist (children.map (·.id)) :=
  List.filter_sublist.map _

/-- A node without a place has the form of an empty file. -/
theorem Formed.default (file : SourceFile) : Formed file default := by
  have hkind : kindOf? file "source_file" none [] = some .file := rfl
  exact .built hkind

theorem Formed.refs_subset (h : Formed file n) : n.kind.refs ⊆ n.children := by
  cases h with
  | leaf hleaf =>
    rw [leafKind?_refs hleaf]
    exact List.nil_subset _
  | built hkind => exact kindOf?_refs hkind
  | wrappedField | wrappedPointer => exact List.Subset.refl _
  | wrappedList | unknown => exact List.nil_subset _

theorem Formed.name_eq_text (h : Formed file n) {name : String} (hname : n.kind = .ident name) :
    name = file.text n.span.start n.span.stop := by
  cases h with
  | leaf hleaf =>
    dsimp only at hname
    subst hname
    unfold leafKind? at hleaf
    split at hleaf <;> simp_all
  | built hkind =>
    dsimp only at hname
    subst hname
    unfold kindOf? at hkind
    split at hkind
    all_goals try simp only [Option.map_eq_some_iff, Option.bind_eq_bind, Option.bind_eq_some_iff,
      Option.pure_def, Option.some.injEq] at hkind
    all_goals grind
  | _ => cases hname

/-- The elements of a composite literal are children, each once where children are. -/
theorem Formed.elements_sublist (h : Formed file n) {type : Option Nat} {elements : List Nat}
    (hkind : n.kind = .compositeLit type elements) : elements.Sublist n.children := by
  cases h with
  | leaf hleaf =>
    dsimp only at hkind
    subst hkind
    unfold leafKind? at hleaf
    split at hleaf <;> cases hleaf
  | built hbuilt =>
    dsimp only at hkind
    subst hkind
    unfold kindOf? at hbuilt
    split at hbuilt
    all_goals try simp only [Option.map_eq_some_iff, Option.bind_eq_bind, Option.bind_eq_some_iff,
      Option.pure_def, Option.some.injEq] at hbuilt
    all_goals grind [allLabelled_sublist]
  | _ => cases hkind

end Kinds

end Lintel.Go
