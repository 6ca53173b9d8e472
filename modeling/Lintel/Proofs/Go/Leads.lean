import Lintel.Proofs.Go.Scope

/-!
# What a run of the resolver leads to

A computation leads from memories with one property to results and memories with another.
Such facts are put together by the rules for `pure`, `bind` and folds, where the invariant
of a fold is about what has been gone through. A quiet computation keeps every property that
is only about what is outside.
-/

namespace Lintel.Go

/-- From every memory with the first property, a computation ends with a result and a memory
that have the second. -/
def Leads {α : Type} (P : Memory → Prop) (c : Resolve α) (Q : α → Memory → Prop) : Prop :=
  ∀ m, P m → Q (c.run m).1 (c.run m).2

section Rules

variable {α β ι : Type} {P P' : Memory → Prop} {Q Q' : α → Memory → Prop} {R : β → Memory → Prop}
  {c : Resolve α} {inside : Nat → Prop}

namespace Leads

theorem pure {a : α} (h : ∀ m, P m → Q a m) : Leads P (pure a) Q :=
  h

theorem bind {f : α → Resolve β} (h : Leads P c Q) (hf : ∀ a, Leads (Q a) (f a) R) :
    Leads P (c >>= f) R :=
  fun m hm => hf _ _ (h m hm)

theorem mono (h : Leads P c Q) (hQ : ∀ a m, Q a m → Q' a m) : Leads P c Q' :=
  fun m hm => hQ _ _ (h m hm)

theorem weaken (h : Leads P c Q) (hP : ∀ m, P' m → P m) : Leads P' c Q :=
  fun m hm => h m (hP m hm)

theorem modify {g : Memory → Memory} {Q : Unit → Memory → Prop} (h : ∀ m, P m → Q () (g m)) :
    Leads P (modify g : Resolve Unit) Q :=
  h

theorem note {change : FactTable → FactTable} {Q : Unit → Memory → Prop}
    (h : ∀ m, P m → Q () { m with facts := change m.facts }) : Leads P (Resolve.note change) Q :=
  h

/-- The invariant of a fold speaks of the entries gone through so far. -/
theorem foldlM_aux {I : List ι → α → Memory → Prop} {f : α → ι → Resolve α} (done rest : List ι)
    (hstep : ∀ before x after, done ++ rest = before ++ x :: after → ∀ a,
      Leads (I before a) (f a x) (I (before ++ [x]))) (a : α) :
    Leads (I done a) (rest.foldlM f a) (I (done ++ rest)) := by
  induction rest generalizing done a with
  | nil =>
    rw [List.append_nil]
    exact Leads.pure fun _ hm => hm
  | cons x rest ih =>
    rw [List.foldlM_cons]
    refine (hstep done x rest rfl a).bind fun b => ?_
    have hsnoc : done ++ x :: rest = (done ++ [x]) ++ rest := by simp
    rw [hsnoc]
    exact ih (done ++ [x]) (hsnoc ▸ hstep) b

theorem and (h : Leads P c Q) (h' : Leads P' c Q') :
    Leads (fun m => P m ∧ P' m) c fun a m => Q a m ∧ Q' a m :=
  fun m hm => ⟨h m hm.1, h' m hm.2⟩

theorem forM {f : ι → Resolve Unit} :
    ∀ {xs : List ι}, (∀ x ∈ xs, Leads P (f x) fun _ => P) → Leads P (xs.forM f) fun _ => P
  | [], _ => .pure fun _ hm => hm
  | x :: _, h => (h x List.mem_cons_self).bind fun _ =>
      Leads.forM fun y hy => h y (List.mem_cons_of_mem x hy)

theorem forIn {f : ι → α → Resolve (ForInStep α)}
    (h : ∀ x a, Leads P (f x a) fun _ => P) : ∀ (xs : List ι) (a : α), Leads P (forIn xs a f) fun _ => P
  | [], _ => by
    rw [List.forIn_nil]
    exact .pure fun _ hm => hm
  | x :: xs, a => by
    rw [List.forIn_cons]
    refine (h x a).bind fun step => ?_
    cases step with
    | done b => exact .pure fun _ hm => hm
    | yield b => exact Leads.forIn h xs b

theorem foldlM {I : List ι → α → Memory → Prop} {f : α → ι → Resolve α} {xs : List ι}
    (hstep : ∀ before x after, xs = before ++ x :: after → ∀ a,
      Leads (I before a) (f a x) (I (before ++ [x]))) (a : α) :
    Leads (I [] a) (xs.foldlM f a) (I xs) :=
  foldlM_aux [] xs hstep a

end Leads

theorem Quiet.leads {S : α → Prop} (h : Quiet inside S c)
    (hP : ∀ m m', AgreeOutside inside m m' → P m' → P m) :
    Leads P c fun a m => S a ∧ P m := by
  intro m hm
  obtain ⟨hresult, hagree⟩ := h m m (.refl inside m)
  exact ⟨hresult, hP _ _ hagree hm⟩

theorem Quiet.forM {f : ι → Resolve Unit} :
    ∀ {xs : List ι}, (∀ x ∈ xs, Quiet inside (fun _ => True) (f x)) →
      Quiet inside (fun _ => True) (xs.forM f)
  | [], _ => .pure trivial
  | x :: _, hstep => (hstep x List.mem_cons_self).bind fun _ _ =>
      Quiet.forM fun y hy => hstep y (List.mem_cons_of_mem x hy)

theorem Quiet.forIn {f : ι → α → Resolve (ForInStep α)} :
    ∀ {xs : List ι} {a : α}, (∀ x ∈ xs, ∀ a, Quiet inside (fun _ => True) (f x a)) →
      Quiet inside (fun _ => True) (forIn xs a f)
  | [], _, _ => by
    rw [List.forIn_nil]
    exact .pure trivial
  | x :: xs, a, hstep => by
    rw [List.forIn_cons]
    refine (hstep x List.mem_cons_self a).bind fun step _ => ?_
    cases step with
    | done b => exact .pure trivial
    | yield b => exact Quiet.forIn fun y hy => hstep y (List.mem_cons_of_mem x hy)

end Rules

/-! ### Bodies and values -/

section Inside

variable {t : Tree} {inside : Nat → Prop} {id : Nat} (hclosed : Closed t inside)

include hclosed

theorem Closed.below (hid : inside id) {other : Nat} (h : t.Below id other) : inside other := by
  induction h with
  | refl => exact hid
  | tail _ hchild ih => exact hclosed.children _ ih _ hchild

theorem quiet_walkAll {α : Type} {visit : α → Nat → Resolve α} (hid : inside id)
    (hvisit : ∀ a node, inside node → Quiet inside (fun _ => True) (visit a node)) (a : α) :
    Quiet inside (fun _ => True) (walkAll t visit a id) := by
  rw [walkAll_eq_foldlM]
  refine Quiet.foldlM (fun node hnode a _ => ?_) trivial
  exact hvisit a node (hclosed.below hid (Tree.mem_preorder_iff.mp hnode))

theorem quiet_resolveFunction (s : Scope) (hid : inside id) :
    Quiet inside (fun _ => True) (resolveFunction t s id) := by
  have hrefs := hclosed.refs id hid
  unfold resolveFunction
  split
  · rename_i parts hkind
    rw [hkind] at hrefs
    have hlist : ∀ list : Option Nat, (∀ l ∈ list, l ∈ (NodeKind.funcDecl parts).refs) → ∀ env,
        Quiet inside (fun _ => True) (bindFields t s env list) := by
      intro list hsub env
      have hquiet : Quiet inside (EnvAgree (fun _ => True) · env) (bindFields t s env list) :=
        quiet_bindFields hclosed s (fun l hl => hrefs l (hsub l hl))
          (fun _ _ _ _ _ _ _ _ _ _ _ _ => trivial) (.refl env)
      exact hquiet.mono fun _ _ _ => trivial
    refine (hlist parts.receiver (fun l hl => ?_) ∅).bind fun env _ => ?_
    · simp [NodeKind.refs, FuncParts.refs, Option.mem_def.mp hl]
    refine (hlist (some parts.params) (fun l hl => ?_) env).bind fun env _ => ?_
    · simp [NodeKind.refs, FuncParts.refs, ← Option.some.inj hl]
    refine (hlist parts.results (fun l hl => ?_) env).bind fun env _ => ?_
    · simp [NodeKind.refs, FuncParts.refs, Option.mem_def.mp hl]
    split
    · exact .pure trivial
    · rename_i body hbody
      have hinside : inside body := hrefs body (by
        simp [NodeKind.refs, FuncParts.refs, hbody])
      refine (quiet_walkAll hclosed hinside (fun env node hnode => ?_) env).bind
        fun _ _ => .pure trivial
      have hquiet : Quiet inside (EnvAgree (fun _ => True) · env)
          (resolveStatement t s env node) :=
        quiet_resolveStatement hclosed hnode (fun _ _ _ _ => trivial) (.refl env)
      exact hquiet.mono fun _ _ _ => trivial
  · exact .pure trivial

theorem quiet_readValues (s : Scope) (hid : inside id) :
    Quiet inside (fun _ => True) (readValues t s id) := by
  have hspecs : ∀ (inner : Scope) (env : Env), Quiet inside (fun _ => True)
      ((t.children id).foldlM (fun env spec => do
        let env ← bindSpec t inner env spec
        walkAll t (fun _ node => do let _ ← exprType t inner env node; return ()) () spec
        return env) env) := by
    intro inner env
    refine Quiet.foldlM (fun spec hspec env _ => ?_) trivial
    have hinside := hclosed.children id hid spec hspec
    have hquiet : Quiet inside (EnvAgree (fun _ => True) · env) (bindSpec t inner env spec) :=
      quiet_bindSpec hclosed inner hinside (fun _ _ _ _ _ _ _ _ _ => trivial) (.refl env)
    refine hquiet.bind fun env _ => ?_
    refine (quiet_walkAll hclosed hinside (fun _ node hnode => ?_) ()).bind fun _ _ => .pure trivial
    exact (quiet_exprType hclosed inner env hnode).bind fun _ _ => .pure trivial
  unfold readValues
  split
  · exact (hspecs _ _).bind fun _ _ => .pure trivial
  · exact (hspecs _ _).bind fun _ _ => .pure trivial
  · exact .pure trivial

end Inside

end Lintel.Go
