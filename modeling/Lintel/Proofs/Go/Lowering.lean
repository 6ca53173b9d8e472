import Lintel.Go.Lowering
import Lintel.Proofs.Go.Placed
import Lintel.Proofs.Tree.Accept

/-!
# Where lowered nodes stand

Lowering adds nodes to an arena and never changes those that are there. What is asked
of a node therefore holds as soon as the node is added: it lies in the text, its children
lie in it, a block keeps them between its braces, and the body of a function is a block.
-/

namespace Lintel

variable {text : String} {a b arena : Array Node} {n : Node}

namespace Go

/-- A lowered child that stands in an arena, a block if it comes from one. -/
def Stands (arena : Array Node) (l : Lowered) : Prop :=
  ∃ n, arena[l.id]? = some n ∧ n.span = l.span ∧ (l.kind = "block" → n.kind.tag = .block)

theorem Stands.extend {l : Lowered} (h : Stands a l) (hab : Extends a b) : Stands b l := by
  obtain ⟨n, hn, hs, hblock⟩ := h
  exact ⟨n, hab l.id n hn, hs, hblock⟩

theorem Stands.push {l : Lowered} (hid : l.id = arena.size) (hs : n.span = l.span)
    (hblock : l.kind = "block" → n.kind.tag = .block) : Stands (arena.push n) l :=
  ⟨n, by rw [hid, Array.getElem?_push_size], hs, hblock⟩

/-! ### Blocks -/

section Blocks

variable {span : Span} {children : List Concrete}

/-- The children of a block stand between those that are its braces. -/
theorem Seated.block_children (h : Seated text "block" span children) :
    ∃ first middle last, children = first :: middle ++ [last] ∧
      first.IsBrace text "\x7b" span.start ∧ last.IsBrace text "\x7d" (span.stop - 1) := by
  obtain ⟨first, hfirst, hopening⟩ := h.opening rfl
  obtain ⟨last, hlast, hclosing⟩ := h.closing rfl
  obtain ⟨rest, rfl⟩ := List.head?_eq_some_iff.mp (Option.mem_toList.mp hfirst)
  obtain ⟨front, hfront⟩ := List.getLast?_eq_some_iff.mp (Option.mem_toList.mp hlast)
  cases front with
  | nil =>
    -- one token cannot be both braces
    obtain ⟨rfl, -⟩ : first = last ∧ rest = [] := by simpa using hfront
    have hat : span.start = span.stop - 1 := (Span.mk.inj (hopening.span.symm.trans hclosing.span)).1
    have htext := hopening.text
    rw [hat, hclosing.text] at htext
    exact absurd htext (by decide)
  | cons other middle =>
    obtain ⟨rfl, rfl⟩ : first = other ∧ rest = middle ++ [last] := by simpa using hfront
    exact ⟨first, middle, last, rfl, hopening, hclosing⟩

theorem Seated.braced (h : Seated text "block" span children) : span.Braced text := by
  obtain ⟨first, middle, last, rfl, hopening, hclosing⟩ := h.block_children
  have hlast : last ∈ middle ++ [last] := by simp
  have hordered := List.rel_of_pairwise_cons h.ordered hlast
  rw [hopening.span, hclosing.span] at hordered
  have hwide : span.start + 2 ≤ span.stop := by simp only at hordered; omega
  refine ⟨hopening.text, ?_, hwide⟩
  have hclose := hclosing.text
  rwa [show span.stop - 1 + 1 = span.stop by omega] at hclose

theorem Seated.inner_contains {c : Concrete} (h : Seated text "block" span children)
    (hc : c ∈ children) (hnamed : c.named = true) : span.inner.contains c.span = true := by
  obtain ⟨first, middle, last, rfl, hopening, hclosing⟩ := h.block_children
  have hmiddle : c ∈ middle := by
    simp only [List.cons_append, List.mem_cons, List.mem_append, List.not_mem_nil, or_false] at hc
    rcases hc with rfl | hc | rfl
    · simp [hopening.token] at hnamed
    · exact hc
    · simp [hclosing.token] at hnamed
  have hbefore := List.rel_of_pairwise_cons h.ordered (List.mem_append_left [last] hmiddle)
  have hafter := (List.pairwise_append.mp h.ordered).2.2 c (List.mem_cons_of_mem _ hmiddle) last
    List.mem_cons_self
  rw [hopening.span] at hbefore
  rw [hclosing.span] at hafter
  exact Span.contains_iff.mpr ⟨hbefore, hafter⟩

end Blocks

/-! ### Kinds -/

/-- Only a block is lowered to one, and the parts of a function come from its children. -/
theorem kindOf?_spec {file : SourceFile} {kind : String} {operator : Option String}
    {children : List Lowered} {found : NodeKind}
    (h : kindOf? file kind operator children = some found) :
    (found.tag = .block → kind = "block") ∧
      ∀ parts, found.funcParts? = some parts →
        funcParts? children = some parts ∧ kind ≠ "composite_literal" := by
  unfold kindOf? at h
  split at h
  all_goals try simp only [Option.map_eq_some_iff, Option.bind_eq_bind, Option.bind_eq_some_iff,
    Option.pure_def, Option.some.injEq] at h
  all_goals grind [NodeKind.tag, NodeKind.funcParts?]

private theorem leafKind?_spec {kind word : String} {found : NodeKind}
    (h : leafKind? kind word = some found) :
    kind ≠ "block" ∧ found.tag ≠ .block ∧ found.funcParts? = none := by
  unfold leafKind? at h
  split at h
  all_goals first
    | cases h; exact ⟨by decide, by simp [NodeKind.tag], rfl⟩
    | cases h

theorem exists_of_labelled? {children : List Lowered} {label : String} {id : Nat}
    (h : labelled? children label = some id) : ∃ l ∈ children, l.label = some label ∧ l.id = id := by
  obtain ⟨l, hl, hid⟩ := Option.map_eq_some_iff.mp h
  exact ⟨l, List.mem_of_find?_eq_some hl, by simpa using List.find?_some hl, hid⟩

private theorem body_of_funcParts? {children : List Lowered} {parts : FuncParts} {body : Nat}
    (h : funcParts? children = some parts) (hbody : parts.body = some body) :
    ∃ l ∈ children, l.label = some "body" ∧ l.id = body := by
  obtain ⟨params, -, rfl⟩ := Option.map_eq_some_iff.mp h
  exact exists_of_labelled? hbody

/-! ### Wrapping -/

theorem mem_replaceFirst {test : Lowered → Bool} {replacement l : Lowered} {children : List Lowered}
    (h : l ∈ replaceFirst test replacement children) : l = replacement ∨ l ∈ children := by
  induction children with
  | nil => cases h
  | cons c rest ih =>
    rw [replaceFirst] at h
    split at h
    · exact (List.mem_cons.mp h).imp_right (List.mem_cons_of_mem _)
    · rcases List.mem_cons.mp h with rfl | h
      · exact .inr List.mem_cons_self
      · exact (ih h).imp_right (List.mem_cons_of_mem _)

/-- What lowering makes of an arena and what it answers: nodes that stand where they
should, in ranges of a class, and as bodies only blocks if that is to be expected. -/
structure Settled (text : String) (Within : Span → Prop) (bodies : Prop) (before : Array Node)
    (r : List Lowered × Array Node) : Prop where
  arena : ArenaPlaced text r.2
  grows : Extends before r.2
  stands : ∀ l ∈ r.1, Stands r.2 l
  within : ∀ l ∈ r.1, Within l.span
  body : bodies → ∀ l ∈ r.1, l.label = some "body" → l.kind = "block"

section Wrapping

variable {Within Wider : Span → Prop} {bodies fewer : Prop} {before : Array Node} {span : Span}
  {kind : String} {tokens : List Concrete} {children : List Lowered}

theorem Settled.mono {r : List Lowered × Array Node} (h : Settled text Within bodies before r)
    (hwider : ∀ s, Within s → Wider s) (hfewer : fewer → bodies) :
    Settled text Wider fewer before r :=
  ⟨h.arena, h.grows, h.stands, fun l hl => hwider _ (h.within l hl), fun hf => h.body (hfewer hf)⟩

theorem Settled.push (h : Settled text Within bodies before (children, arena))
    (hn : NodePlaced text arena n) : Settled text Within bodies before (children, arena.push n) :=
  ⟨h.arena.push hn, h.grows.trans (.push arena n), fun l hl => (h.stands l hl).extend (.push arena n),
    h.within, h.body⟩

theorem Settled.append {first others : List Lowered} {after : Array Node}
    (hfirst : Settled text Within bodies before (first, arena))
    (hothers : Settled text Within bodies arena (others, after)) :
    Settled text Within bodies before (first ++ others, after) where
  arena := hothers.arena
  grows := hfirst.grows.trans hothers.grows
  stands := List.forall_mem_append.mpr
    ⟨fun l hl => (hfirst.stands l hl).extend hothers.grows, hothers.stands⟩
  within := List.forall_mem_append.mpr ⟨hfirst.within, hothers.within⟩
  body := fun hbodies => List.forall_mem_append.mpr ⟨hfirst.body hbodies, hothers.body hbodies⟩

theorem Settled.single {l : Lowered} (harena : ArenaPlaced text arena)
    (hgrows : Extends before arena) (hn : NodePlaced text arena n) (hid : l.id = arena.size)
    (hspan : n.span = l.span) (hblock : l.kind = "block" → n.kind.tag = .block)
    (hwithin : Within l.span) (hbody : bodies → l.label = some "body" → l.kind = "block") :
    Settled text Within bodies before ([l], arena.push n) := by
  refine ⟨harena.push hn, hgrows.trans (.push arena n), ?_, ?_, fun hbodies => ?_⟩
  · exact List.forall_mem_singleton.mpr (.push hid hspan hblock)
  · exact List.forall_mem_singleton.mpr hwithin
  · exact List.forall_mem_singleton.mpr (hbody hbodies)

/-- One child is replaced by a node that is added last. -/
theorem Settled.replace {test : Lowered → Bool} {replacement : Lowered}
    (h : Settled text Within bodies before (children, arena)) (hn : NodePlaced text arena n)
    (hid : replacement.id = arena.size) (hspan : n.span = replacement.span)
    (hkind : replacement.kind ≠ "block") (hwithin : Within replacement.span)
    (hlabel : replacement.label ≠ some "body") :
    Settled text Within bodies before (replaceFirst test replacement children, arena.push n) := by
  refine ⟨h.arena.push hn, h.grows.trans (.push arena n), fun l hl => ?_, fun l hl => ?_,
    fun hbodies l hl hbody => ?_⟩
  · rcases mem_replaceFirst hl with rfl | hl
    · exact .push hid hspan fun hblock => absurd hblock hkind
    · exact (h.stands l hl).extend (.push arena n)
  · rcases mem_replaceFirst hl with rfl | hl
    · exact hwithin
    · exact h.within l hl
  · rcases mem_replaceFirst hl with rfl | hl
    · exact absurd hbody hlabel
    · exact h.body hbodies l hl hbody

theorem Settled.wrapResult (h : Settled text Within bodies before (children, arena)) :
    Settled text Within bodies before (wrapResult children arena) := by
  unfold Go.wrapResult
  dsimp only
  split
  · exact h
  · rename_i c hc
    have hmem : c ∈ children := List.mem_of_find?_eq_some hc
    have htest := List.find?_some hc
    simp only [Bool.and_eq_true, beq_iff_eq] at htest
    obtain ⟨m, hm, hspan, -⟩ := h.stands c hmem
    have hfits : c.span.Fits text := hspan ▸ (h.arena c.id m hm).fits
    have hfield : NodePlaced text arena ⟨.field [] c.id none, c.span, [c.id]⟩ :=
      .over hfits hm (hspan ▸ c.span.contains_refl) (by simp [NodeKind.tag]) rfl
    have hlist : NodePlaced text (arena.push ⟨.field [] c.id none, c.span, [c.id]⟩)
        ⟨.fieldList, c.span, [arena.size]⟩ :=
      .over hfits Array.getElem?_push_size c.span.contains_refl (by simp [NodeKind.tag]) rfl
    exact (h.push hfield).replace hlist rfl rfl (by simp) (h.within c hmem) (by simp [htest.1])

/-- A child stands not before the first of the tokens that it comes from. -/
theorem Seated.start_le {first : Concrete} {s : Span} (hseat : Seated text kind span tokens)
    (hfirst : tokens.head? = some first) (hforward : first.span.start ≤ first.span.stop)
    (hs : ∃ c ∈ tokens, c.named = true ∧ c.span.contains s = true) :
    first.span.start ≤ s.start := by
  obtain ⟨c, hc, -, hcontains⟩ := hs
  obtain ⟨rest, rfl⟩ := List.head?_eq_some_iff.mp hfirst
  have hstart := (Span.contains_iff.mp hcontains).1
  rcases List.mem_cons.mp hc with rfl | hc
  · exact hstart
  · have hordered := List.rel_of_pairwise_cons hseat.ordered hc
    omega

theorem Seated.contains {s : Span} (hseat : Seated text kind span tokens)
    (hs : ∃ c ∈ tokens, c.named = true ∧ c.span.contains s = true) : span.contains s = true := by
  obtain ⟨c, hc, -, hcontains⟩ := hs
  exact Span.contains_trans (hseat.inside c hc) hcontains

theorem Settled.wrapPointer (hseat : Seated text kind span tokens)
    (htokens : ∀ c ∈ tokens, c.span.Fits text)
    (h : Settled text (fun s => ∃ c ∈ tokens, c.named = true ∧ c.span.contains s = true) bodies
      before (children, arena)) :
    Settled text (fun s => span.contains s = true) bodies before
      (wrapPointer tokens children arena) := by
  have hwide := h.mono (fun _ => hseat.contains) (fun hbodies => hbodies)
  unfold Go.wrapPointer
  dsimp only
  split
  · rename_i star c hstar hc
    split
    · have hmem : c ∈ children := List.mem_of_find?_eq_some hc
      have hlabel : c.label = some "type" := by simpa using List.find?_some hc
      have hstart : star ∈ tokens := List.mem_of_head? hstar
      have hstarFits := htokens star hstart
      have hle := hseat.start_le hstar hstarFits.forward (h.within c hmem)
      obtain ⟨m, hm, hspan, -⟩ := h.stands c hmem
      have hfits : c.span.Fits text := hspan ▸ (h.arena c.id m hm).fits
      have hpointer : (⟨star.span.start, c.span.stop⟩ : Span).Fits text :=
        ⟨Nat.le_trans hle hfits.forward, hstarFits.start, hfits.stop⟩
      have hcontains : (⟨star.span.start, c.span.stop⟩ : Span).contains m.span = true := by
        rw [hspan]
        exact Span.contains_iff.mpr ⟨hle, Nat.le_refl _⟩
      have hwithin : span.contains ⟨star.span.start, c.span.stop⟩ = true :=
        Span.contains_iff.mpr ⟨(Span.contains_iff.mp (hseat.inside star hstart)).1,
          (Span.contains_iff.mp (hwide.within c hmem)).2⟩
      exact hwide.replace (.over hpointer hm hcontains (by simp [NodeKind.tag]) rfl) rfl rfl
        (by simp) hwithin (by simp [hlabel])
    · exact hwide
  · exact hwide

theorem Settled.wrapChildren (hseat : Seated text kind span tokens)
    (htokens : ∀ c ∈ tokens, c.span.Fits text)
    (h : Settled text (fun s => ∃ c ∈ tokens, c.named = true ∧ c.span.contains s = true) bodies
      before (children, arena)) :
    Settled text (fun s => span.contains s = true ∧ (kind = "block" → span.inner.contains s = true))
      bodies before (wrapChildren kind tokens children arena) := by
  have hwithin : ∀ s, (∃ c ∈ tokens, c.named = true ∧ c.span.contains s = true) →
      span.contains s = true ∧ (kind = "block" → span.inner.contains s = true) := by
    refine fun s hs => ⟨hseat.contains hs, ?_⟩
    rintro rfl
    obtain ⟨c, hc, hnamed, hcontains⟩ := hs
    exact Span.contains_trans (hseat.inner_contains hc hnamed) hcontains
  unfold Go.wrapChildren
  split
  · exact h.wrapResult.mono hwithin fun hbodies => hbodies
  · split
    · rename_i hfield
      refine (h.wrapPointer hseat htokens).mono (fun s hs => ⟨hs, ?_⟩) fun hbodies => hbodies
      rintro rfl
      simp at hfield
    · exact h.mono hwithin fun hbodies => hbodies

theorem Settled.childrenWithin {outer : Span} {nodeKind : NodeKind}
    (h : Settled text Within bodies before (children, arena))
    (hwithin : ∀ s, Within s → outer.contains s = true) :
    ChildrenWithin arena outer ⟨nodeKind, span, children.map (·.id)⟩ := by
  intro child hchild
  obtain ⟨l, hl, rfl⟩ := List.mem_map.mp hchild
  obtain ⟨m, hm, hspan, -⟩ := h.stands l hl
  exact ⟨m, hm, hspan ▸ hwithin l.span (h.within l hl)⟩

end Wrapping

/-! ### Lowering -/

section Lowering

variable {before : Array Node} {span : Span} {kind : String} {tokens : List Concrete}
  {children : List Lowered}

private theorem getD_kindOf?_spec {file : SourceFile} {operator : Option String} {found : NodeKind}
    (h : (kindOf? file kind operator children).getD (.other kind) = found) :
    (found.tag = .block ↔ kind = "block") ∧
      ∀ parts, found.funcParts? = some parts →
        funcParts? children = some parts ∧ kind ≠ "composite_literal" := by
  have hblock : kind = "block" → found.tag = .block := by
    rintro rfl
    rw [← h]
    rfl
  cases hkind : kindOf? file kind operator children with
  | none =>
    rw [hkind] at h
    subst h
    exact ⟨⟨by simp [NodeKind.tag], hblock⟩, by simp [NodeKind.funcParts?]⟩
  | some other =>
    rw [hkind] at h
    subst h
    obtain ⟨htag, hparts⟩ := kindOf?_spec hkind
    exact ⟨⟨htag, hblock⟩, hparts⟩

theorem Settled.nodePlaced {found : NodeKind} (hseat : Seated text kind span tokens)
    (h : Settled text
      (fun s => span.contains s = true ∧ (kind = "block" → span.inner.contains s = true))
      (kind ≠ "composite_literal") before (children, arena))
    (htag : found.tag = .block → kind = "block")
    (hparts : ∀ parts, found.funcParts? = some parts →
      funcParts? children = some parts ∧ kind ≠ "composite_literal") :
    NodePlaced text arena ⟨found, span, children.map (·.id)⟩ := by
  refine ⟨hseat.fits, h.childrenWithin fun s hs => hs.1, fun hfound => ?_, ?_⟩
  · obtain rfl := htag hfound
    exact ⟨hseat.braced, h.childrenWithin fun s hs => hs.2 rfl⟩
  · intro parts hfound body hbody
    obtain ⟨hfunc, hne⟩ := hparts parts hfound
    obtain ⟨l, hl, hlabel, rfl⟩ := body_of_funcParts? hfunc hbody
    obtain ⟨m, hm, -, hmtag⟩ := h.stands l hl
    exact ⟨m, hm, hmtag (h.body hne l hl hlabel)⟩

theorem Settled.addNode (file : SourceFile) (label : Option String)
    (hseat : Seated text kind span tokens) (htokens : ∀ c ∈ tokens, c.span.Fits text)
    (h : Settled text (fun s => ∃ c ∈ tokens, c.named = true ∧ c.span.contains s = true)
      (kind ≠ "composite_literal") before (children, arena)) :
    Settled text (fun s => span.contains s = true) (label = some "body" → kind = "block") before
      ([⟨label, kind, span, (addNode file kind span tokens children arena).1⟩],
        (addNode file kind span tokens children arena).2) := by
  have hwrapped := h.wrapChildren hseat htokens
  unfold Go.addNode
  generalize Go.wrapChildren kind tokens children arena = r at hwrapped ⊢
  obtain ⟨wrapped, grown⟩ := r
  dsimp only
  obtain ⟨htag, hparts⟩ := getD_kindOf?_spec
    (Eq.refl ((kindOf? file kind (operatorText? file tokens) wrapped).getD (.other kind)))
  have hn := hwrapped.nodePlaced hseat htag.mp hparts
  exact .single hwrapped.arena hwrapped.grows hn rfl rfl htag.mpr span.contains_refl
    fun hbodies => hbodies

private theorem isSpliced_spec {parent : String} (h : isSpliced parent kind = true) :
    kind ≠ "block" ∧ kind ≠ "composite_literal" := by
  constructor
  · rintro rfl
    simp [isSpliced, groupKinds] at h
  · rintro rfl
    simp [isSpliced, groupKinds] at h

/-- A label that was handed down does not make a body. -/
theorem kind_of_or_eq_body {label inherited : Option String}
    (h : inherited ≠ some "body" ∧ (label = some "body" → kind = "block"))
    (hbody : label.or inherited = some "body") : kind = "block" := by
  cases label with
  | none => exact absurd hbody h.1
  | some word => exact h.2 hbody

theorem Concrete.Placed.fits {c : Concrete} (h : c.Placed text) : c.span.Fits text := by
  cases c
  exact h.1.fits

theorem AllPlaced.fits {cs : List Concrete} (h : AllPlaced text cs) :
    ∀ c ∈ cs, c.span.Fits text := by
  induction cs with
  | nil => simp
  | cons c rest ih => exact List.forall_mem_cons.mpr ⟨h.1.fits, ih h.2⟩

mutual

/-- Lowering a node keeps an arena in place; what it answers stands within the node. -/
theorem lowerNode_settled (file : SourceFile) (parent : String) (inherited : Option String) :
    ∀ (c : Concrete) (arena : Array Node), c.Placed text → ArenaPlaced text arena →
      Settled text (fun s => c.named = true ∧ c.span.contains s = true)
        (inherited ≠ some "body" ∧ (c.label = some "body" → c.kind = "block")) arena
        (lowerNode file parent inherited c arena)
  | .node label kind named extra span tokens, arena, hplaced, harena => by
    obtain ⟨hseat, htokens⟩ := hplaced
    rw [lowerNode]
    split
    · exact ⟨harena, .refl arena, by simp, by simp, by simp⟩
    · rename_i hkept
      have hnamed : named = true := by
        cases named with
        | true => rfl
        | false => simp at hkept
      split
      · -- what is spliced is neither a block nor the literal whose body is none
        rename_i hspliced
        obtain ⟨hblock, hliteral⟩ := isSpliced_spec hspliced
        refine (lowerNodes_settled file kind (label.or inherited) tokens arena htokens harena).mono
          (fun s hs => ⟨hnamed, hseat.contains hs⟩) fun hbodies => ⟨?_, hseat.bodies hliteral⟩
        exact fun hbody => hblock (kind_of_or_eq_body hbodies hbody)
      · split
        · rename_i leaf hleaf
          obtain ⟨hblock, htag, hparts⟩ := leafKind?_spec hleaf
          have hn : NodePlaced text arena ⟨leaf, span, []⟩ :=
            .plain hseat.fits (by simp [ChildrenWithin]) htag hparts
          exact .single harena (.refl arena) hn rfl rfl (fun h => absurd h hblock)
            ⟨hnamed, span.contains_refl⟩ kind_of_or_eq_body
        · have hlow := (lowerNodes_settled file kind none tokens arena htokens harena).mono
            (fun _ hs => hs) fun hkind => ⟨by simp, hseat.bodies hkind⟩
          exact (hlow.addNode file (label.or inherited) hseat htokens.fits).mono
            (fun s hs => ⟨hnamed, hs⟩) kind_of_or_eq_body

/-- Lowering nodes keeps an arena in place; what it answers stands within one of them. -/
theorem lowerNodes_settled (file : SourceFile) (parent : String) (inherited : Option String) :
    ∀ (cs : List Concrete) (arena : Array Node), AllPlaced text cs → ArenaPlaced text arena →
      Settled text (fun s => ∃ c ∈ cs, c.named = true ∧ c.span.contains s = true)
        (inherited ≠ some "body" ∧ ∀ c ∈ cs, c.label = some "body" → c.kind = "block") arena
        (lowerNodes file parent inherited cs arena)
  | [], arena, _, harena => by
    rw [lowerNodes]
    exact ⟨harena, .refl arena, by simp, by simp, by simp⟩
  | c :: rest, arena, hplaced, harena => by
    have hfirst := lowerNode_settled file parent inherited c arena hplaced.1 harena
    have hothers := lowerNodes_settled file parent inherited rest
      (lowerNode file parent inherited c arena).2 hplaced.2 hfirst.arena
    rw [lowerNodes]
    refine .append (hfirst.mono (fun s hs => ⟨c, List.mem_cons_self, hs⟩) fun hbodies => ?_)
      (hothers.mono ?_ fun hbodies => ?_)
    · exact ⟨hbodies.1, hbodies.2 c List.mem_cons_self⟩
    · rintro s ⟨d, hd, hs⟩
      exact ⟨d, List.mem_cons_of_mem c hd, hs⟩
    · exact ⟨hbodies.1, fun d hd => hbodies.2 d (List.mem_cons_of_mem c hd)⟩

end

/-- The nodes of a lowered tree stand where they should if those of the concrete one do. -/
theorem arenaOf_placed (file : SourceFile) :
    ∀ {root : Concrete}, root.Placed text → ArenaPlaced text (arenaOf file root)
  | .node label kind named extra span tokens, ⟨hseat, htokens⟩ => by
    have hempty : ArenaPlaced text #[] := by simp [ArenaPlaced]
    rw [arenaOf]
    split
    · rename_i leaf hleaf
      obtain ⟨-, htag, hparts⟩ := leafKind?_spec hleaf
      have hleaf : NodePlaced text #[] ⟨leaf, span, []⟩ :=
        .plain hseat.fits (by simp [ChildrenWithin]) htag hparts
      exact hempty.push hleaf
    · have hlow := (lowerNodes_settled file kind none tokens #[] htokens hempty).mono
        (fun _ hs => hs) fun hkind => ⟨by simp, hseat.bodies hkind⟩
      exact (hlow.addNode file label hseat htokens.fits).arena

end Lowering

end Go

/-- The nodes of a parsed file stand where they should if what reads its text puts them
there. -/
theorem Go.parseWith_placed {read : String → Option Concrete} {file : SourceFile} {t : Tree}
    (hread : ∀ text root, read text = some root → root.Placed text)
    (h : parseWith read file = .ok t) : t.file = file ∧ ArenaPlaced file.content t.nodes := by
  unfold parseWith at h
  split at h
  · cases h
  · rename_i root hroot
    split at h
    · rename_i tree htree
      cases h
      obtain ⟨hfile, hnodes⟩ := Tree.ofNodes_spec htree
      exact ⟨hfile, hnodes ▸ arenaOf_placed file (hread file.content root hroot)⟩
    · cases h

end Lintel
