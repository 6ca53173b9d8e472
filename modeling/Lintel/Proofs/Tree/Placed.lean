import Lintel.Proofs.Except
import Lintel.Proofs.Text.Slice
import Lintel.Proofs.Tree.Grounded
import Lintel.Rules.Query
import Mathlib.Logic.Relation

/-!
# Where nodes stand

A node stands where it should if its range fits the text, its children lie in it, a
block keeps them between its braces, and the body of a function is a block. In a tree
of such nodes all that is below a node lies in its range, and all that is below a block
lies between its braces.
-/

namespace Lintel

open Lintel.Text

theorem Span.contains_iff {s other : Span} :
    s.contains other = true ↔ s.start ≤ other.start ∧ other.stop ≤ s.stop := by
  simp [contains]

@[simp] theorem Span.contains_refl (s : Span) : s.contains s = true :=
  contains_iff.mpr ⟨Nat.le_refl _, Nat.le_refl _⟩

theorem Span.contains_trans {a b c : Span} (hab : a.contains b = true) (hbc : b.contains c = true) :
    a.contains c = true := by
  rw [contains_iff] at *
  omega

/-- A range that runs forwards between boundaries of a text. -/
structure Span.Fits (text : String) (s : Span) : Prop where
  forward : s.start ≤ s.stop
  start : isBoundary text s.start = true
  stop : isBoundary text s.stop = true

instance (text : String) (s : Span) : Decidable (s.Fits text) :=
  decidable_of_iff (s.start ≤ s.stop ∧ isBoundary text s.start = true ∧ isBoundary text s.stop = true)
    ⟨fun ⟨h, hs, he⟩ => ⟨h, hs, he⟩, fun ⟨h, hs, he⟩ => ⟨h, hs, he⟩⟩

/-- A range that begins and ends with a brace. -/
structure Span.Braced (text : String) (s : Span) : Prop where
  opening : slice? text s.start (s.start + 1) = some "\x7b"
  closing : slice? text (s.stop - 1) s.stop = some "\x7d"
  wide : s.start + 2 ≤ s.stop

/-- The range between the braces. -/
def Span.inner (s : Span) : Span :=
  ⟨s.start + 1, s.stop - 1⟩

def Extends (before after : Array Node) : Prop :=
  ∀ (id : Nat) (n : Node), before[id]? = some n → after[id]? = some n

namespace Extends

variable {a b c : Array Node}

theorem refl (a : Array Node) : Extends a a :=
  fun _ _ h => h

theorem trans (hab : Extends a b) (hbc : Extends b c) : Extends a c :=
  fun id n h => hbc id n (hab id n h)

theorem push (a : Array Node) (n : Node) : Extends a (a.push n) := by
  intro id m h
  obtain ⟨hlt, -⟩ := Array.getElem?_eq_some_iff.mp h
  rw [Array.getElem?_push_lt hlt, ← h, Array.getElem?_eq_getElem hlt]

end Extends

def ChildrenWithin (arena : Array Node) (s : Span) (n : Node) : Prop :=
  ∀ child ∈ n.children, ∃ c, arena[child]? = some c ∧ s.contains c.span = true

/-- A node that stands where it should. -/
structure NodePlaced (text : String) (arena : Array Node) (n : Node) : Prop where
  fits : n.span.Fits text
  inside : ChildrenWithin arena n.span n
  braced : n.kind.tag = .block → n.span.Braced text ∧ ChildrenWithin arena n.span.inner n
  body : ∀ parts, n.kind.funcParts? = some parts → ∀ b, parts.body = some b →
    ∃ c, arena[b]? = some c ∧ c.kind.tag = .block

/-- An arena whose nodes all stand where they should. -/
def ArenaPlaced (text : String) (arena : Array Node) : Prop :=
  ∀ (id : Nat) (n : Node), arena[id]? = some n → NodePlaced text arena n

variable {text : String} {a b arena : Array Node} {n : Node}

theorem ChildrenWithin.extend {s : Span} (h : ChildrenWithin a s n) (hab : Extends a b) :
    ChildrenWithin b s n := by
  intro child hchild
  obtain ⟨c, hc, hs⟩ := h child hchild
  exact ⟨c, hab child c hc, hs⟩

theorem NodePlaced.extend (h : NodePlaced text a n) (hab : Extends a b) : NodePlaced text b n := by
  refine ⟨h.fits, h.inside.extend hab, fun hblock => ?_, fun parts hparts id hid => ?_⟩
  · exact ⟨(h.braced hblock).1, (h.braced hblock).2.extend hab⟩
  · obtain ⟨c, hc, htag⟩ := h.body parts hparts id hid
    exact ⟨c, hab id c hc, htag⟩

theorem ArenaPlaced.push (h : ArenaPlaced text arena) (hn : NodePlaced text arena n) :
    ArenaPlaced text (arena.push n) := by
  intro id m hm
  rw [Array.getElem?_push] at hm
  split at hm
  · obtain rfl := Option.some.inj hm
    exact hn.extend (.push arena _)
  · exact (h id m hm).extend (.push arena n)

/-- A node over no part of a function, and no block, that keeps its children within. -/
theorem NodePlaced.plain (hfits : n.span.Fits text) (hinside : ChildrenWithin arena n.span n)
    (hblock : n.kind.tag ≠ .block) (hparts : n.kind.funcParts? = none) :
    NodePlaced text arena n := by
  refine ⟨hfits, hinside, fun h => absurd h hblock, fun parts h => ?_⟩
  rw [hparts] at h
  cases h

/-- A node over one child has its place as soon as its range contains that of the child. -/
theorem NodePlaced.over {nodeKind : NodeKind} {s : Span} {id : Nat} {m : Node}
    (hfits : s.Fits text) (hm : arena[id]? = some m) (hs : s.contains m.span = true)
    (hblock : nodeKind.tag ≠ .block) (hparts : nodeKind.funcParts? = none) :
    NodePlaced text arena ⟨nodeKind, s, [id]⟩ := by
  refine .plain hfits (fun child hchild => ?_) hblock hparts
  rw [List.mem_singleton.mp hchild]
  exact ⟨m, hm, hs⟩

/-! ### Below a node -/

namespace Tree

variable {t : Tree} {descend : Nat → Bool} {id start : Nat}

def Below (t : Tree) : Nat → Nat → Prop :=
  Relation.ReflTransGen fun parent child => child ∈ t.children parent

/-- A walk has seen what it had, what was pending, and what is below that. -/
theorem below_of_mem_walkStack (seen pending : List Nat)
    (h : id ∈ t.walkStack (fun seen n => (n :: seen, descend n)) seen pending) :
    id ∈ seen ∨ ∃ start ∈ pending, t.Below start id := by
  fun_induction walkStack t (fun seen n => (n :: seen, descend n)) seen pending with
  | case1 seen => exact .inl h
  | case2 seen start pending next hvisit ih =>
    obtain ⟨rfl, -⟩ := Prod.mk.inj hvisit
    rcases ih h with hseen | ⟨first, hfirst, hbelow⟩
    · rcases List.mem_cons.mp hseen with rfl | hseen
      · exact .inr ⟨id, List.mem_cons_self, .refl⟩
      · exact .inl hseen
    · rcases List.mem_append.mp hfirst with hchild | hpending
      · exact .inr ⟨start, List.mem_cons_self, .head hchild hbelow⟩
      · exact .inr ⟨first, List.mem_cons_of_mem start hpending, hbelow⟩
  | case3 seen start pending next hvisit ih =>
    obtain ⟨rfl, -⟩ := Prod.mk.inj hvisit
    rcases ih h with hseen | ⟨first, hfirst, hbelow⟩
    · rcases List.mem_cons.mp hseen with rfl | hseen
      · exact .inr ⟨id, List.mem_cons_self, .refl⟩
      · exact .inl hseen
    · exact .inr ⟨first, List.mem_cons_of_mem start hfirst, hbelow⟩

theorem below_of_mem_visited (h : id ∈ t.visited descend start) : t.Below start id := by
  rcases below_of_mem_walkStack [] [start] (List.mem_reverse.mp h) with hseen | ⟨first, hfirst, hbelow⟩
  · cases hseen
  · rwa [List.mem_singleton.mp hfirst] at hbelow

theorem node_eq_of_getElem? (h : t.nodes[id]? = some n) : t.node id = n := by
  rw [node, h]
  rfl

theorem getElem?_node_or (t : Tree) (id : Nat) :
    t.nodes[id]? = some (t.node id) ∨ t.node id = default := by
  cases h : t.nodes[id]? with
  | none => exact .inr (by rw [node, h]; rfl)
  | some n => exact .inl (by rw [node_eq_of_getElem? h])

theorem getElem?_node_of_ne (h : t.node id ≠ default) : t.nodes[id]? = some (t.node id) :=
  (t.getElem?_node_or id).resolve_right h

end Tree

namespace ArenaPlaced

variable {t : Tree} {func body id child : Nat}

theorem span_fits (h : ArenaPlaced text t.nodes) (id : Nat) : (t.span id).Fits text := by
  rcases t.getElem?_node_or id with hid | hid
  · exact (h id _ hid).fits
  · have hzero : isBoundary text 0 = true := isBoundary_iff.mpr ⟨"", text, by simp, rfl⟩
    rw [Tree.span, hid]
    exact ⟨Nat.le_refl 0, hzero, hzero⟩

private theorem span_of_childrenWithin {s : Span} (h : ChildrenWithin t.nodes s (t.node id))
    (hchild : child ∈ t.children id) : s.contains (t.span child) = true := by
  obtain ⟨c, hc, hs⟩ := h child hchild
  rwa [Tree.span, Tree.node_eq_of_getElem? hc]

private theorem node_of_mem_children (hchild : child ∈ t.children id) :
    t.nodes[id]? = some (t.node id) := by
  refine Tree.getElem?_node_of_ne fun hid => ?_
  rw [Tree.children, hid] at hchild
  cases hchild

private theorem span_contains_child (h : ArenaPlaced text t.nodes)
    (hchild : child ∈ t.children id) :
    (t.span id).contains (t.span child) = true :=
  span_of_childrenWithin (h id _ (node_of_mem_children hchild)).inside hchild

private theorem span_contains_below (h : ArenaPlaced text t.nodes) (hbelow : t.Below id child) :
    (t.span id).contains (t.span child) = true := by
  induction hbelow with
  | refl => exact Span.contains_refl _
  | tail _ hlast ih => exact Span.contains_trans ih (h.span_contains_child hlast)

/-- What is below a block lies between its braces. -/
theorem inner_contains_below (h : ArenaPlaced text t.nodes) (htag : t.tag id = .block)
    (hbelow : t.Below id child) (hne : child ≠ id) :
    (t.span id).inner.contains (t.span child) = true := by
  rcases hbelow.cases_head with rfl | ⟨first, hfirst, hrest⟩
  · exact absurd rfl hne
  · have hplaced := h id _ (node_of_mem_children hfirst)
    exact Span.contains_trans (span_of_childrenWithin (hplaced.braced htag).2 hfirst)
      (h.span_contains_below hrest)

private theorem node_of_tag_block (htag : t.tag id = .block) : t.nodes[id]? = some (t.node id) := by
  refine Tree.getElem?_node_of_ne fun hid => ?_
  rw [Tree.tag, Tree.kind, hid] at htag
  cases htag

private theorem node_of_funcParts? {parts : FuncParts} (hparts : t.funcParts? id = some parts) :
    t.nodes[id]? = some (t.node id) := by
  refine Tree.getElem?_node_of_ne fun hid => ?_
  rw [Tree.funcParts?, Tree.kind, hid] at hparts
  cases hparts

theorem span_braced (h : ArenaPlaced text t.nodes) (htag : t.tag id = .block) :
    (t.span id).Braced text :=
  ((h id _ (node_of_tag_block htag)).braced htag).1

theorem body_block (h : ArenaPlaced text t.nodes) (hbody : t.body? func = .ok (some body)) :
    t.tag body = .block := by
  unfold Tree.body? at hbody
  cases href : (t.funcParts? func).bind (·.body) with
  | none =>
    rw [href] at hbody
    cases hbody
  | some ref =>
    rw [href] at hbody
    obtain ⟨node, hnode, heq⟩ := bind_eq_ok.mp hbody
    obtain ⟨-, rfl⟩ := Tree.follow_eq_ok_iff.mp hnode
    cases heq
    obtain ⟨parts, hparts, hbodyRef⟩ := Option.bind_eq_some_iff.mp href
    obtain ⟨c, hc, htag⟩ := (h func _ (node_of_funcParts? hparts)).body parts hparts body hbodyRef
    rw [Tree.tag, Tree.kind, Tree.node_eq_of_getElem? hc, htag]

/-- The returns of a block start between its braces. -/
theorem inner_contains_return (h : ArenaPlaced text t.nodes) (htag : t.tag id = .block)
    (hreturn : child ∈ t.ownReturns id) : (t.span id).inner.contains (t.span child) = true := by
  obtain ⟨hvisited, hchild⟩ := List.mem_filter.mp hreturn
  refine h.inner_contains_below htag (Tree.below_of_mem_visited hvisited) ?_
  rintro rfl
  rw [htag] at hchild
  cases hchild

end ArenaPlaced

end Lintel
