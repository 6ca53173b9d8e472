import Lintel.Go.Resolver
import Lintel.Proofs.Tree.Hollow

/-!
# Runs of the resolver that agree

Two runs of the resolver are compared, one on a tree and one on the tree with an emptied
node. Their memories agree on what is outside, and their environments differ by hidden
bindings at most. Computations that keep this up are put together from smaller ones by the
rules for `pure`, `bind` and folds. A computation that only touches what is inside agrees
with doing nothing.
-/

namespace Lintel.Go

/-! ### Memories -/

/-- Tables that hold the same for all nodes outside a set. -/
def SameOutside {α : Type} (inside : Nat → Prop) (a b : Std.TreeMap Nat α) : Prop :=
  ∀ id, ¬ inside id → a[id]? = b[id]?

/-- Memories that tell the same about all nodes outside a set. -/
structure AgreeOutside (inside : Nat → Prop) (m m' : Memory) : Prop where
  types : SameOutside inside m.facts.types m'.facts.types
  packages : SameOutside inside m.facts.packages m'.facts.packages
  known : SameOutside inside m.known m'.known
  methodSets : m.facts.methodSets = m'.facts.methodSets
  unitPackage : m.facts.unitPackage = m'.facts.unitPackage

section Memories

variable {α : Type} {inside : Nat → Prop} {a b : Std.TreeMap Nat α} {m m' : Memory} {id : Nat}

theorem SameOutside.symm (h : SameOutside inside a b) : SameOutside inside b a :=
  fun id hid => (h id hid).symm

theorem SameOutside.insert (h : SameOutside inside a b) (key : Nat) (value : α) :
    SameOutside inside (a.insert key value) (b.insert key value) := by
  intro id hid
  rw [Std.TreeMap.getElem?_insert, Std.TreeMap.getElem?_insert, h id hid]

theorem SameOutside.insert_left {key : Nat} (h : SameOutside inside a b) (hkey : inside key)
    (value : α) : SameOutside inside (a.insert key value) b := by
  intro id hid
  have hne : key ≠ id := fun heq => hid (heq ▸ hkey)
  rw [Std.TreeMap.getElem?_insert, if_neg (by simpa using hne), h id hid]

theorem AgreeOutside.refl (inside : Nat → Prop) (m : Memory) : AgreeOutside inside m m :=
  ⟨fun _ _ => rfl, fun _ _ => rfl, fun _ _ => rfl, rfl, rfl⟩

theorem AgreeOutside.symm (h : AgreeOutside inside m m') : AgreeOutside inside m' m :=
  ⟨h.types.symm, h.packages.symm, h.known.symm, h.methodSets.symm, h.unitPackage.symm⟩

end Memories

/-! ### Computations -/

/-- Computations that, from memories that agree, end with related results and with memories
that agree again. -/
def Alike {α β : Type} (inside : Nat → Prop) (R : α → β → Prop) (c : Resolve α) (c' : Resolve β) :
    Prop :=
  ∀ m m', AgreeOutside inside m m' →
    R (c.run m).1 (c'.run m').1 ∧ AgreeOutside inside (c.run m).2 (c'.run m').2

/-- A computation that leaves everything outside as it was. -/
abbrev Quiet {α : Type} (inside : Nat → Prop) (P : α → Prop) (c : Resolve α) : Prop :=
  Alike inside (fun a (_ : Unit) => P a) c (pure ())

theorem foldlM_congr {α ι : Type} {f g : α → ι → Resolve α} {xs : List ι}
    (h : ∀ x ∈ xs, ∀ a, f a x = g a x) (a : α) : xs.foldlM f a = xs.foldlM g a := by
  induction xs generalizing a with
  | nil => rfl
  | cons x xs ih =>
    rw [List.foldlM_cons, List.foldlM_cons, h x List.mem_cons_self]
    exact bind_congr fun a => ih (fun y hy => h y (List.mem_cons_of_mem x hy)) a

section Rules

variable {α β γ δ ι : Type} {inside : Nat → Prop} {R : α → β → Prop} {Q : γ → δ → Prop}
  {P : α → Prop} {P' : β → Prop} {c : Resolve α} {c' : Resolve β} {id : Nat}

theorem Alike.pure {a : α} {b : β} (h : R a b) : Alike inside R (pure a) (pure b) :=
  fun _ _ hm => ⟨h, hm⟩

theorem Alike.bind {f : α → Resolve γ} {f' : β → Resolve δ} (h : Alike inside R c c')
    (hf : ∀ a b, R a b → Alike inside Q (f a) (f' b)) : Alike inside Q (c >>= f) (c' >>= f') := by
  intro m m' hm
  obtain ⟨hresult, hnext⟩ := h m m' hm
  exact hf _ _ hresult _ _ hnext

theorem Quiet.bind {P' : γ → Prop} {f : α → Resolve γ} (h : Quiet inside P c)
    (hf : ∀ a, P a → Quiet inside P' (f a)) : Quiet inside P' (c >>= f) :=
  Alike.bind h fun a _ ha => hf a ha

theorem Alike.mono {S : α → β → Prop} (h : Alike inside R c c') (hS : ∀ a b, R a b → S a b) :
    Alike inside S c c' :=
  fun m m' hm => ⟨hS _ _ (h m m' hm).1, (h m m' hm).2⟩

/-- What two quiet computations do cannot be told apart outside. -/
theorem Quiet.alike (h : Quiet inside P c) (h' : Quiet inside P' c') :
    Alike inside (fun a b => P a ∧ P' b) c c' := by
  intro m m' hm
  obtain ⟨hresult, hagree⟩ := h m m' hm
  obtain ⟨hresult', hagree'⟩ := h' m' _ hagree.symm
  exact ⟨⟨hresult, hresult'⟩, hagree'.symm⟩

theorem Alike.foldlM {f : α → ι → Resolve α} {f' : β → ι → Resolve β} :
    ∀ {xs : List ι} {a : α} {b : β},
      (∀ x ∈ xs, ∀ a b, R a b → Alike inside R (f a x) (f' b x)) → R a b →
        Alike inside R (xs.foldlM f a) (xs.foldlM f' b)
  | [], _, _, _, hab => .pure hab
  | x :: xs, a, b, hstep, hab => by
    rw [List.foldlM_cons, List.foldlM_cons]
    exact (hstep x List.mem_cons_self a b hab).bind fun a b hab =>
      Alike.foldlM (fun y hy => hstep y (List.mem_cons_of_mem x hy)) hab

theorem Quiet.foldlM {f : α → ι → Resolve α} :
    ∀ {xs : List ι} {a : α}, (∀ x ∈ xs, ∀ a, P a → Quiet inside P (f a x)) → P a →
      Quiet inside P (xs.foldlM f a)
  | [], _, _, ha => .pure ha
  | x :: xs, a, hstep, ha => by
    rw [List.foldlM_cons]
    exact (hstep x List.mem_cons_self a ha).bind fun a ha =>
      Quiet.foldlM (fun y hy => hstep y (List.mem_cons_of_mem x hy)) ha

theorem Alike.mapM {f f' : ι → Resolve α} :
    ∀ {xs : List ι}, (∀ x ∈ xs, Alike inside Eq (f x) (f' x)) →
      Alike inside Eq (xs.mapM f) (xs.mapM f')
  | [], _ => .pure rfl
  | x :: xs, hstep => by
    rw [List.mapM_cons, List.mapM_cons]
    refine (hstep x List.mem_cons_self).bind fun a b hab => ?_
    refine (Alike.mapM fun y hy => hstep y (List.mem_cons_of_mem x hy)).bind fun as bs habs => ?_
    exact .pure (by rw [hab, habs])

theorem Quiet.mapM {f : ι → Resolve α} :
    ∀ {xs : List ι}, (∀ x ∈ xs, Quiet inside (fun _ => True) (f x)) →
      Quiet inside (fun _ => True) (xs.mapM f)
  | [], _ => .pure trivial
  | x :: xs, hstep => by
    rw [List.mapM_cons]
    refine (hstep x List.mem_cons_self).bind fun a _ => ?_
    refine (Quiet.mapM fun y hy => hstep y (List.mem_cons_of_mem x hy)).bind fun as _ => ?_
    exact .pure trivial

theorem Alike.forM {f f' : ι → Resolve Unit} :
    ∀ {xs : List ι}, (∀ x ∈ xs, Alike inside (fun _ _ => True) (f x) (f' x)) →
      Alike inside (fun _ _ => True) (xs.forM f) (xs.forM f')
  | [], _ => .pure trivial
  | x :: _, hstep => (hstep x List.mem_cons_self).bind fun _ _ _ =>
      Alike.forM fun y hy => hstep y (List.mem_cons_of_mem x hy)

/-- Whatever has been done before, computations that are alike go on from one memory. -/
theorem agree_run_bind {ε : Type} {S : γ → ε → Prop} (c : Resolve α) {d : α → Resolve β}
    {f : β → Resolve γ} {f' : β → Resolve ε} (h : ∀ b, Alike inside S (f b) (f' b)) (m : Memory) :
    AgreeOutside inside ((c >>= fun a => d a >>= f).run m).2
      ((c >>= fun a => d a >>= f').run m).2 :=
  (h _ _ _ (.refl inside _)).2

theorem Alike.modify {g g' : Memory → Memory}
    (h : ∀ m m', AgreeOutside inside m m' → AgreeOutside inside (g m) (g' m')) :
    Alike inside (fun _ _ => True) (modify g : Resolve Unit) (modify g' : Resolve Unit) :=
  fun m m' hm => ⟨trivial, h m m' hm⟩

theorem Quiet.modify {g : Memory → Memory}
    (h : ∀ m m', AgreeOutside inside m m' → AgreeOutside inside (g m) m') :
    Quiet inside (fun _ => True) (modify g : Resolve Unit) :=
  fun m m' hm => ⟨trivial, h m m' hm⟩

theorem alike_recordType (id : Nat) (type : GoType) :
    Alike inside (fun _ _ => True) (Resolve.note (·.recordType id type))
      (Resolve.note (·.recordType id type)) :=
  .modify fun _ _ hm => { hm with types := hm.types.insert id type }

theorem quiet_recordType (hid : inside id) (type : GoType) :
    Quiet inside (fun _ => True) (Resolve.note (·.recordType id type)) :=
  .modify fun _ _ hm => { hm with types := hm.types.insert_left hid type }

theorem alike_recordPackage (id : Nat) (path : String) :
    Alike inside (fun _ _ => True) (Resolve.note (·.recordPackage id path))
      (Resolve.note (·.recordPackage id path)) :=
  .modify fun _ _ hm => { hm with packages := hm.packages.insert id path }

theorem quiet_recordPackage (hid : inside id) (path : String) :
    Quiet inside (fun _ => True) (Resolve.note (·.recordPackage id path)) :=
  .modify fun _ _ hm => { hm with packages := hm.packages.insert_left hid path }

theorem alike_insertKnown (id : Nat) (answer : Option GoType) :
    Alike inside (fun _ _ => True)
      (modify fun m => { m with known := m.known.insert id answer } : Resolve Unit)
      (modify fun m => { m with known := m.known.insert id answer } : Resolve Unit) :=
  .modify fun _ _ hm => { hm with known := hm.known.insert id answer }

theorem quiet_insertKnown (hid : inside id) (answer : Option GoType) :
    Quiet inside (fun _ => True)
      (modify fun m => { m with known := m.known.insert id answer } : Resolve Unit) :=
  .modify fun _ _ hm => { hm with known := hm.known.insert_left hid answer }

theorem alike_remember {compute compute' : Resolve (Option GoType)} (hid : ¬ inside id)
    (h : Alike inside Eq compute compute') :
    Alike inside Eq (Resolve.remember id compute) (Resolve.remember id compute') := by
  unfold Resolve.remember
  have hget : Alike inside (AgreeOutside inside) (get : Resolve Memory) (get : Resolve Memory) :=
    fun _ _ hm => ⟨hm, hm⟩
  refine hget.bind fun m m' hm => ?_
  rw [hm.known id hid]
  split
  · exact .pure rfl
  · refine h.bind fun answer answer' heq => ?_
    subst heq
    cases answer with
    | none => exact (alike_insertKnown id none).bind fun _ _ _ => .pure rfl
    | some type =>
      refine (alike_recordType id type).bind fun _ _ _ => ?_
      exact (alike_insertKnown id (some type)).bind fun _ _ _ => .pure rfl

theorem quiet_remember {compute : Resolve (Option GoType)} (hid : inside id)
    (h : Quiet inside (fun _ => True) compute) :
    Quiet inside (fun _ => True) (Resolve.remember id compute) := by
  unfold Resolve.remember
  have hget : Quiet inside (fun _ => True) (get : Resolve Memory) := fun _ _ hm => ⟨trivial, hm⟩
  refine hget.bind fun m _ => ?_
  split
  · exact .pure trivial
  · refine h.bind fun answer _ => ?_
    cases answer with
    | none => exact (quiet_insertKnown hid none).bind fun _ _ => .pure trivial
    | some type =>
      refine (quiet_recordType hid type).bind fun _ _ => ?_
      exact (quiet_insertKnown hid (some type)).bind fun _ _ => .pure trivial

end Rules

end Lintel.Go
