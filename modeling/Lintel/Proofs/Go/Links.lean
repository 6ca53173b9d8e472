import Lintel.Proofs.Go.Linked
import Lintel.Proofs.Go.Order
import Lintel.Proofs.Tree.Hollow

/-!
# Links of parsed files

If the concrete syntax has the productions of the grammar, then what the parts of a function
name are lists of fields, and what a field or a pointer type names is a type. So the trees of
files that are read are linked.
-/

namespace Lintel.Go

/-! ### Types in an arena -/

def IsPlain (arena : Array Node) (id : Nat) : Prop :=
  ∃ n, arena[id]? = some n ∧ n.kind.tag ≠ .block ∧ n.kind.tag ≠ .funcLit

/-- A node whose kind names lists of fields and types where such belong. -/
structure Links (arena : Array Node) (n : Node) : Prop where
  lists : ∀ id ∈ n.kind.lists, IsFieldList arena id
  types : ∀ id ∈ n.kind.types, IsPlain arena id

section Links

variable {a b arena : Array Node} {n : Node} {l : Lowered} {file : SourceFile} {kind : String}
  {operator : Option String} {children : List Lowered} {id : Nat} {tokens : List Concrete}

theorem IsPlain.extend (h : IsPlain a id) (hab : Extends a b) : IsPlain b id := by
  obtain ⟨n, hn, htags⟩ := h
  exact ⟨n, hab id n hn, htags⟩

theorem Links.extend (h : Links a n) (hab : Extends a b) : Links b n :=
  ⟨fun id hid => (h.lists id hid).extend hab, fun id hid => (h.types id hid).extend hab⟩

theorem Laid.isPlain (h : Laid arena l) (hkind : l.kind ∈ typeKinds) : IsPlain arena l.id := by
  obtain ⟨n, hn, -, hfits⟩ := h
  exact ⟨n, hn, hfits.type hkind⟩

private theorem leafKind?_links {text : String} {found : NodeKind}
    (h : leafKind? kind text = some found) :
    found.lists = [] ∧ found.types = [] := by
  unfold leafKind? at h
  split at h <;> cases h <;> exact ⟨rfl, rfl⟩

private theorem mem_lists_of_funcParts? {parts : FuncParts} (h : funcParts? children = some parts)
    (hid : id ∈ parts.receiver.toList ++ [parts.params] ++ parts.results.toList) :
    id ∈ parts.results.toList ∨ ∃ l ∈ children, l.id = id ∧
      (l.label = some "receiver" ∨ l.label = some "parameters") := by
  obtain ⟨params, hparams, rfl⟩ := Option.map_eq_some_iff.mp h
  simp only [List.mem_append, Option.mem_toList, List.mem_singleton] at hid ⊢
  rcases hid with (hreceiver | rfl) | hresult
  · obtain ⟨l, hl, hlabel, hid⟩ := exists_of_labelled? hreceiver
    exact .inr ⟨l, hl, hid, .inl hlabel⟩
  · obtain ⟨l, hl, hlabel, hid⟩ := exists_of_labelled? hparams
    exact .inr ⟨l, hl, hid, .inr hlabel⟩
  · exact .inl hresult

/-- Where a kind names a list, this is a part of a function or the fields of a struct. -/
theorem kindOf?_lists {found : NodeKind} (h : kindOf? file kind operator children = some found) :
    ∀ id ∈ found.lists, id ∈ found.fieldLists ∨ partsOf? kind = some functionParts ∧
      ∃ l ∈ children, l.id = id ∧ (l.label = some "receiver" ∨ l.label = some "parameters") := by
  unfold kindOf? at h
  split at h
  all_goals try simp only [Option.map_eq_some_iff, Option.bind_eq_bind, Option.bind_eq_some_iff,
    Option.pure_def, Option.some.injEq] at h
  all_goals grind [NodeKind.lists, NodeKind.fieldLists, mem_lists_of_funcParts?, partsOf?]

/-- Where a kind names a type, this is the part of a field with that label or the only part of a
pointer type. -/
theorem kindOf?_types {found : NodeKind} (h : kindOf? file kind operator children = some found) :
    ∀ id ∈ found.types,
      ((partsOf? kind = some parameterParts ∨ partsOf? kind = some fieldParts) ∧
        ∃ l ∈ children, l.id = id ∧ l.label = some "type") ∨
      partsOf? kind = some (fun _ => typeKinds) ∧ ∃ l ∈ children, l.id = id := by
  unfold kindOf? at h
  split at h
  all_goals try simp only [Option.map_eq_some_iff, Option.bind_eq_bind, Option.bind_eq_some_iff,
    Option.pure_def, Option.some.injEq] at h
  all_goals grind [NodeKind.types, exists_of_labelled?, partsOf?, List.mem_of_head?]

end Links

/-! ### Parts after wrapping -/

section Parts

variable {arena : Array Node} {kind : String} {tokens : List Concrete} {children : List Lowered}

private theorem partsOf?_of_hasResult (h : hasResult kind = true) :
    partsOf? kind = some functionParts := by
  simp only [hasResult, List.contains_eq_mem, List.mem_cons, List.not_mem_nil, or_false,
    decide_eq_true_eq] at h
  rcases h with rfl | rfl | rfl | rfl | rfl | rfl <;> rfl

/-- The wrappers are parts as well: a list of results, and a pointer type for a type. -/
theorem isPart_wrapChildren (h : ∀ l ∈ children, IsPart kind l.label l.kind) :
    ∀ l ∈ (wrapChildren kind tokens children arena).1, IsPart kind l.label l.kind := by
  rcases wrapChildren_cases kind tokens children arena with
    ⟨-, heq⟩ | ⟨c, hresult, hc, heq⟩ | ⟨star, c, rfl, -, -, hc, heq⟩
  · rw [heq]
    exact h
  · rw [heq]
    intro l hl
    rcases mem_replaceFirst hl with rfl | hl
    · intro kinds hkinds
      obtain rfl := Option.some.inj ((partsOf?_of_hasResult hresult).symm.trans hkinds)
      have hbare := List.find?_some hc
      simp only [isBare, Bool.and_eq_true, beq_iff_eq] at hbare
      dsimp only
      rw [hbare.1]
      exact List.mem_cons_self
    · exact h l hl
  · rw [heq]
    intro l hl
    rcases mem_replaceFirst hl with rfl | hl
    · intro kinds hkinds
      obtain rfl := Option.some.inj hkinds
      have hlabel : c.label = some "type" := by simpa using List.find?_some hc
      dsimp only
      rw [hlabel]
      decide
    · exact h l hl

/-- What a wrapper is put over is a type. -/
theorem links_wrapChildren (hparts : ∀ l ∈ children, IsPart kind l.label l.kind)
    (hlaid : ∀ l ∈ children, Laid arena l) (h : AllNodes Links arena) :
    AllNodes Links (wrapChildren kind tokens children arena).2 := by
  rcases wrapChildren_cases kind tokens children arena with
    ⟨-, heq⟩ | ⟨c, hresult, hc, heq⟩ | ⟨star, c, rfl, -, -, hc, heq⟩
  · rw [heq]
    exact h
  · rw [heq]
    have hmem := List.mem_of_find?_eq_some hc
    have hbare := List.find?_some hc
    simp only [isBare, Bool.and_eq_true, beq_iff_eq, bne_iff_ne] at hbare
    have hkind := hparts c hmem functionParts (partsOf?_of_hasResult hresult)
    rw [hbare.1] at hkind
    have htype : c.kind ∈ typeKinds := (List.mem_cons.mp hkind).resolve_left hbare.2
    have hfield : Links arena ⟨.field [] c.id none, c.span, [c.id]⟩ :=
      ⟨by simp [NodeKind.lists], List.forall_mem_singleton.mpr ((hlaid c hmem).isPlain htype)⟩
    exact (h.push .extend hfield).push .extend
      ⟨by simp [NodeKind.lists], by simp [NodeKind.types]⟩
  · rw [heq]
    have hmem := List.mem_of_find?_eq_some hc
    have hlabel : c.label = some "type" := by simpa using List.find?_some hc
    have htype := hparts c hmem fieldParts rfl
    rw [hlabel] at htype
    exact h.push .extend
      ⟨by simp [NodeKind.lists], List.forall_mem_singleton.mpr ((hlaid c hmem).isPlain htype)⟩

/-- A type that a kind names is one. -/
theorem isPlain_of_mem_types {file : SourceFile} {operator : Option String} {found : NodeKind}
    (hparts : ∀ l ∈ children, IsPart kind l.label l.kind) (hlaid : ∀ l ∈ children, Laid arena l)
    (h : kindOf? file kind operator children = some found) :
    ∀ id ∈ found.types, IsPlain arena id := by
  intro id hid
  rcases kindOf?_types h id hid with ⟨hkinds, l, hl, rfl, hlabel⟩ | ⟨hkinds, l, hl, rfl⟩
  · have htype : l.kind ∈ typeKinds := by
      rcases hkinds with hkinds | hkinds
      · simpa [hlabel, parameterParts] using hparts l hl _ hkinds
      · simpa [hlabel, fieldParts] using hparts l hl _ hkinds
    exact (hlaid l hl).isPlain htype
  · exact (hlaid l hl).isPlain (hparts l hl _ hkinds)

private theorem links_addNode (file : SourceFile) (span : Span)
    (hparts : ∀ l ∈ children, IsPart kind l.label l.kind) (hlaid : ∀ l ∈ children, Laid arena l)
    (h : AllNodes Links arena) :
    AllNodes Links (addNode file kind span tokens children arena).2 := by
  have hwrapped := laid_wrapChildren kind tokens hlaid
  have hwrappedParts : ∀ l ∈ (wrapChildren kind tokens children arena).1,
      IsPart kind l.label l.kind := isPart_wrapChildren hparts
  rw [addNode_eq]
  refine (links_wrapChildren hparts hlaid h).push .extend ?_
  cases hkind : kindOf? file kind (operatorText? file tokens)
      (wrapChildren kind tokens children arena).1 with
  | none => exact ⟨by simp [NodeKind.lists], by simp [NodeKind.types]⟩
  | some found =>
    refine ⟨fun id hid => ?_, isPlain_of_mem_types hwrappedParts hwrapped hkind⟩
    rcases kindOf?_lists hkind id hid with hlist | ⟨hkinds, l, hl, rfl, hlabel⟩
    · exact isFieldList_of_mem_fieldLists hlaid hkind id hlist
    · have hpart := hwrappedParts l hl _ hkinds
      have hparams : l.kind = "parameter_list" := by
        rcases hlabel with hlabel | hlabel <;> simpa [hlabel, functionParts] using hpart
      exact (hwrapped l hl).isFieldList (.inl hparams)

end Parts

/-! ### Parsed files -/

section Parsed

variable {read : String → Option Concrete} {file : SourceFile} {t : Tree}

private theorem preserved_links (file : SourceFile) :
    Preserved file (fun kind _ children => Production kind children) (AllNodes Links) where
  leaf hleaf h := h.push .extend (by
    obtain ⟨hlists, htypes⟩ := leafKind?_links hleaf
    exact ⟨by simp [hlists], by simp [htypes]⟩)
  node hnode _ h := links_addNode file _ (isPart_lowerNodes file _ hnode)
    (lowerNodes_laid file _ none _ _) h

/-- A file that is read as concrete syntax of the grammar has a linked tree. -/
theorem linked_of_parseWith (hread : parseWith read file = .ok t)
    (hgrammar : ∀ root, read file.content = some root → root.Grammatical) : t.Linked := by
  intro id
  obtain ⟨root, hroot, hfile, hnodes⟩ := exists_root_of_parseWith hread
  have hlinks := (preserved_links file).arenaOf allNodes_empty (hgrammar root hroot)
  rw [← hnodes] at hlinks
  have hrefs := refs_subset_children_of_parseWith hread id
  rcases t.getElem?_node_or id with hid | hid
  · refine ⟨hrefs, fun list hlist => ?_, fun type htype => ?_⟩
    · obtain ⟨n, hn, htag⟩ := (hlinks id _ hid).lists list hlist
      rw [Tree.tag, Tree.kind, Tree.node_eq_of_getElem? hn, htag]
    · obtain ⟨n, hn, htags⟩ := (hlinks id _ hid).types type htype
      rwa [Tree.tag, Tree.kind, Tree.node_eq_of_getElem? hn]
  · refine ⟨hrefs, fun list hlist => ?_, fun type htype => ?_⟩
    · rw [Tree.kind, hid] at hlist
      cases hlist
    · rw [Tree.kind, hid] at htype
      cases htype

/-- The tree of any file that is parsed is linked. -/
theorem linked_of_parse (h : parse file = .ok t) : t.Linked :=
  linked_of_parseWith h fun _ => Concrete.grammatical_of_ofText?

end Parsed

end Lintel.Go
