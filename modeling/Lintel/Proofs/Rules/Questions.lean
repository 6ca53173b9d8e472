import Lintel.Proofs.Except
import Lintel.Proofs.Tree.Grounded
import Lintel.Rules.Query

/-!
# Questions that are answered

On a tree whose kinds name lower nodes only, no question that a rule asks of it crashes:
every id that is followed is one that a kind names.
-/

namespace Lintel

theorem exists_gather {α β : Type} {f : α → Check (List β)} {as : List α}
    (h : ∀ a ∈ as, ∃ bs, f a = .ok bs) : ∃ bs, gather f as = .ok bs := by
  induction as with
  | nil => exact ⟨[], rfl⟩
  | cons a as ih =>
    refine exists_bind_eq_ok (h a List.mem_cons_self) fun _ _ => ?_
    exact exists_bind_eq_ok (ih fun b hb => h b (List.mem_cons_of_mem a hb)) fun _ _ => ⟨_, rfl⟩

@[simp] theorem gather_cons {α β : Type} (f : α → Check (List β)) (a : α) (as : List α) :
    gather f (a :: as) = do return (← f a) ++ (← gather f as) :=
  rfl

@[simp] theorem gather_singleton {α β : Type} (f : α → Check (List β)) (a : α) :
    gather f [a] = f a := by
  cases h : f a <;> simp [gather, h, bind, Except.bind, pure, Except.pure]

private theorem gather_append {α β : Type} (f : α → Check (List β)) (as bs : List α) :
    gather f (as ++ bs) = do return (← gather f as) ++ (← gather f bs) := by
  induction as with
  | nil => cases h : gather f bs <;> simp [gather, h, bind, Except.bind, pure, Except.pure]
  | cons a as ih => simp only [List.cons_append, gather_cons, ih, bind_assoc, pure_bind, List.append_assoc]

/-- What is asked of every entry of a list of lists is asked of one list after the other. -/
theorem gather_flatMap {α β γ : Type} (f : β → Check (List γ)) (g : α → List β) (as : List α) :
    gather f (as.flatMap g) = gather (fun a => gather f (g a)) as := by
  induction as with
  | nil => rfl
  | cons a as ih => rw [List.flatMap_cons, gather_append, gather_cons, ih]

theorem gather_congr {α β : Type} {f g : α → Check (List β)} {as : List α}
    (h : ∀ a ∈ as, f a = g a) : gather f as = gather g as := by
  induction as with
  | nil => rfl
  | cons a as ih =>
    rw [gather_cons, gather_cons, h a List.mem_cons_self,
      ih fun b hb => h b (List.mem_cons_of_mem a hb)]

/-- The results of a computation on every entry are blocks, one for every entry. -/
theorem gather_eq_ok_iff {α β : Type} {f : α → Check (List β)} {as : List α} {bs : List β} :
    gather f as = .ok bs ↔
      ∃ blocks, List.Forall₂ (fun a block => f a = .ok block) as blocks ∧ bs = blocks.flatten := by
  induction as generalizing bs with
  | nil => simp [gather, eq_comm]
  | cons a as ih =>
    simp only [gather_cons, bind_eq_ok, pure, Except.pure, Except.ok.injEq, ih,
      List.forall₂_cons_left_iff]
    constructor
    · rintro ⟨first, hfirst, others, ⟨blocks, hblocks, rfl⟩, rfl⟩
      exact ⟨first :: blocks, ⟨first, blocks, hfirst, hblocks, rfl⟩, rfl⟩
    · rintro ⟨_, ⟨first, blocks, hfirst, hblocks, rfl⟩, rfl⟩
      exact ⟨first, hfirst, blocks.flatten, ⟨blocks, hblocks, rfl⟩, rfl⟩

/-- Where every entry has a result, the results are those of the entries, in order. -/
theorem gather_eq_ok_flatMap {α β : Type} {f : α → Check (List β)} {g : α → List β} {as : List α}
    (h : ∀ a ∈ as, f a = .ok (g a)) : gather f as = .ok (as.flatMap g) := by
  rw [gather_eq_ok_iff]
  refine ⟨as.map g, ?_, List.flatMap_def⟩
  exact List.forall₂_map_right_iff.mpr (List.forall₂_same.mpr h)

/-- What all results for an entry have in common, all results have in common. -/
theorem gather_forall {α β : Type} {f : α → Check (List β)} {p : β → Prop} {as : List α}
    (h : ∀ a ∈ as, Yields (f a) fun bs => ∀ b ∈ bs, p b) :
    Yields (gather f as) fun bs => ∀ b ∈ bs, p b := by
  induction as with
  | nil => exact .pure (by simp)
  | cons a as ih =>
    refine .bind fun first hfirst => .bind fun others hothers => .pure ?_
    refine List.forall_mem_append.mpr ⟨h a List.mem_cons_self first hfirst, ?_⟩
    exact ih (fun b hb => h b (List.mem_cons_of_mem a hb)) others hothers

/-- The results of one kind, where each entry is known to have its own ones of that kind. -/
theorem filter_of_gather {α β : Type} {f : α → Check (List β)} {g : α → List β} {p : β → Bool}
    {as : List α} {bs : List β} (h : ∀ a ∈ as, Yields (f a) fun block => block.filter p = g a)
    (hbs : gather f as = .ok bs) : bs.filter p = as.flatMap g := by
  induction as generalizing bs with
  | nil =>
    obtain rfl := Except.ok.inj hbs
    rfl
  | cons a as ih =>
    obtain ⟨block, hblock, others, hothers, hsum⟩ : ∃ block, f a = .ok block ∧
        ∃ others, gather f as = .ok others ∧ block ++ others = bs := by
      simpa [bind_eq_ok, pure, Except.pure] using hbs
    rw [← hsum, List.filter_append, h a List.mem_cons_self block hblock,
      ih (fun b hb => h b (List.mem_cons_of_mem a hb)) hothers, List.flatMap_cons]

/-- Where the entries of a class have one result and the others have none, the results are those of
the entries of the class. -/
theorem flatMap_ite_singleton {α β : Type} (p : α → Prop) [DecidablePred p] (f : α → β)
    (as : List α) : (as.flatMap fun a => if p a then [f a] else []) = (as.filter p).map f := by
  induction as with
  | nil => rfl
  | cons a as ih =>
    rw [List.flatMap_cons, ih, List.filter_cons]
    by_cases h : p a
    · simp [h]
    · simp [h]

/-- Of the blocks of a list, those of the entries of a class are left when only what comes from
such entries is kept. -/
theorem exists_blocks_filterMap {α β γ : Type} {R : α → List β → Prop} {S : γ → List β → Prop}
    {f : α → Option γ} {p : β → Bool} {as : List α} {blocks : List (List β)}
    (h : List.Forall₂ R as blocks)
    (hsome : ∀ a block c, R a block → f a = some c → S c (block.filter p))
    (hnone : ∀ a block, R a block → f a = none → block.filter p = []) :
    ∃ kept, List.Forall₂ S (as.filterMap f) kept ∧ blocks.flatten.filter p = kept.flatten := by
  induction h with
  | nil => exact ⟨[], .nil, rfl⟩
  | @cons a block as blocks hr _ ih =>
    obtain ⟨kept, hkept, hfilter⟩ := ih
    rw [List.flatten_cons, List.filter_append, hfilter, List.filterMap_cons]
    cases hf : f a with
    | some c => exact ⟨block.filter p :: kept, .cons (hsome a block c hr hf) hkept, rfl⟩
    | none => exact ⟨kept, hkept, by rw [hnone a block hr hf, List.nil_append]⟩

/-- Where every entry of a class has one result of a kind, and no other entry has any, the results of
this kind are those of the entries of the class. -/
theorem forall₂_filter_flatten {α β : Type} {R : α → List β → Prop} {S : α → β → Prop} {q : α → Bool}
    {p : β → Bool} {as : List α} {blocks : List (List β)} (h : List.Forall₂ R as blocks)
    (hone : ∀ a block, R a block → q a = true → ∃ b, block.filter p = [b] ∧ S a b)
    (hnone : ∀ a block, R a block → q a = false → block.filter p = []) :
    List.Forall₂ S (as.filter q) (blocks.flatten.filter p) := by
  induction h with
  | nil => exact .nil
  | @cons a block as blocks hr _ ih =>
    rw [List.flatten_cons, List.filter_append, List.filter_cons]
    cases hq : q a with
    | true =>
      obtain ⟨b, hb, hs⟩ := hone a block hr hq
      rw [hb, if_pos rfl]
      exact .cons hs ih
    | false =>
      rw [hnone a block hr hq, if_neg Bool.false_ne_true]
      exact ih

theorem exists_select {α : Type} {test : α → Check Bool} {as : List α}
    (h : ∀ a ∈ as, ∃ b, test a = .ok b) : ∃ bs, select test as = .ok bs :=
  exists_gather fun a ha => exists_bind_eq_ok (h a ha) fun _ _ => ⟨_, rfl⟩

/-- A question comes to an end, and its answer says whether something is so. -/
def Decides (question : Check Bool) (p : Prop) : Prop :=
  ∃ b, question = .ok b ∧ (b = true ↔ p)

theorem Decides.anyM {α : Type} {test : α → Check Bool} {p : α → Prop} {as : List α}
    (h : ∀ a ∈ as, Decides (test a) (p a)) : Decides (as.anyM test) (∃ a ∈ as, p a) := by
  induction as with
  | nil => exact ⟨false, rfl, by simp⟩
  | cons a as ih =>
    obtain ⟨found, hfound, hiff⟩ := h a List.mem_cons_self
    rw [List.anyM, hfound]
    cases found with
    | true => exact ⟨true, rfl, by simp [← hiff]⟩
    | false =>
      obtain ⟨others, hothers, hrest⟩ := ih fun b hb => h b (List.mem_cons_of_mem a hb)
      have hnot : ¬ p a := fun ha => Bool.false_ne_true (hiff.mpr ha)
      exact ⟨others, hothers, by simp [hrest, hnot]⟩

/-- What is selected are the entries for which the answer is yes. -/
theorem Decides.select {α : Type} {test : α → Check Bool} {p : α → Prop} {as : List α}
    (h : ∀ a ∈ as, Decides (test a) (p a)) :
    ∃ chosen, select test as = .ok chosen ∧ ∀ a, a ∈ chosen ↔ a ∈ as ∧ p a := by
  induction as with
  | nil => exact ⟨[], rfl, by simp⟩
  | cons a as ih =>
    obtain ⟨b, hb, hiff⟩ := h a List.mem_cons_self
    obtain ⟨others, hothers, hrest⟩ := ih fun b hb => h b (List.mem_cons_of_mem a hb)
    refine ⟨(if b then [a] else []) ++ others, ?_, fun c => ?_⟩
    · rw [Lintel.select, gather_cons, hb]
      exact bind_eq_ok.mpr ⟨_, rfl, bind_eq_ok.mpr ⟨others, hothers, rfl⟩⟩
    · rw [List.mem_append, hrest, List.mem_cons]
      cases b with
      | true => grind
      | false => grind

namespace Tree

variable {t : Tree}

theorem Grounded.exists_follow (h : t.Grounded) (id ref : Nat) (href : ref ∈ (t.kind id).refs) :
    ∃ other, t.follow ref = .ok other :=
  ⟨ref, h.follow id href⟩

theorem Grounded.exists_followAll (h : t.Grounded) (id : Nat) (refs : List Nat)
    (hrefs : refs ⊆ (t.kind id).refs) : ∃ others, refs.mapM t.follow = .ok others :=
  exists_mapM_eq_ok_iff.mpr fun ref href => h.exists_follow id ref (hrefs href)

theorem Grounded.followAll_eq (h : t.Grounded) (id : Nat) {refs : List Nat}
    (hrefs : refs ⊆ (t.kind id).refs) : refs.mapM t.follow = .ok refs :=
  mapM_eq_ok_iff.mpr (List.forall₂_same.mpr fun _ href => h.follow id (hrefs href))

theorem Grounded.exists_followOption (h : t.Grounded) (id : Nat) {ref : Option Nat}
    (hrefs : ∀ r ∈ ref, r ∈ (t.kind id).refs) : ∃ other, t.followOption ref = .ok other := by
  cases ref with
  | none => exact ⟨none, rfl⟩
  | some r => exact exists_bind_eq_ok (h.exists_follow id r (hrefs r rfl)) fun _ _ => ⟨_, rfl⟩

/-! ### Calls -/

theorem Grounded.exists_calleeName? (h : t.Grounded) (call : Nat) :
    ∃ name, t.calleeName? call = .ok name := by
  unfold calleeName?
  split
  next callee args hkind =>
    refine exists_bind_eq_ok (h.exists_follow call callee (by simp [hkind, NodeKind.refs]))
      fun callee _ => ?_
    split
    · exact ⟨_, rfl⟩
    next operand field hselector =>
      have hfield := h.exists_follow callee field
        (by simp [hselector, NodeKind.refs])
      exact exists_bind_eq_ok hfield fun _ _ => ⟨_, rfl⟩
    · exact ⟨_, rfl⟩
  · exact ⟨_, rfl⟩

theorem Grounded.exists_isSelectorCall (h : t.Grounded) (call : Nat) :
    ∃ b, t.isSelectorCall call = .ok b := by
  unfold isSelectorCall
  split
  next callee args hkind =>
    have hcallee := h.exists_follow call callee (by simp [hkind, NodeKind.refs])
    exact exists_bind_eq_ok hcallee fun _ _ => ⟨_, rfl⟩
  · exact ⟨_, rfl⟩

theorem Grounded.exists_callArgs (h : t.Grounded) (call : Nat) :
    ∃ args, t.callArgs call = .ok args := by
  unfold callArgs
  split
  next callee args hkind =>
    apply h.exists_followAll call
    simp [hkind, NodeKind.refs]
  · exact ⟨_, rfl⟩

theorem Grounded.exists_calleeNames (h : t.Grounded) (id : Nat) :
    ∃ names, t.calleeNames id = .ok names := by
  have hnames := exists_mapM_eq_ok_iff.mpr fun call (_ : call ∈ t.calls id) =>
    h.exists_calleeName? call
  exact exists_bind_eq_ok hnames fun _ _ => ⟨_, rfl⟩

/-! ### Functions and their fields -/

theorem Grounded.exists_fieldTypes (h : t.Grounded) (list : Option Nat) :
    ∃ types, t.fieldTypes list = .ok types := by
  cases list with
  | none => exact ⟨[], rfl⟩
  | some list =>
    refine exists_gather fun field _ => ?_
    split
    next names type tag hkind =>
      have htype := h.exists_follow field type (by simp [hkind, NodeKind.refs])
      exact exists_bind_eq_ok htype fun _ _ => ⟨_, rfl⟩
    · exact ⟨_, rfl⟩

/-- What a function names among its parts, its kind names. -/
theorem refs_subset_of_funcParts? {id : Nat} {parts : FuncParts}
    (hparts : t.funcParts? id = some parts) : parts.refs ⊆ (t.kind id).refs := by
  rw [NodeKind.refs_of_funcParts? hparts]
  exact List.Subset.refl _

theorem Grounded.exists_resultTypes (h : t.Grounded) (func : Nat) :
    ∃ types, t.resultTypes func = .ok types := by
  have hresults : ∃ results, t.followOption ((t.funcParts? func).bind (·.results)) = .ok results := by
    apply h.exists_followOption func
    intro list hlist
    obtain ⟨parts, hparts, hlist⟩ := Option.bind_eq_some_iff.mp hlist
    exact refs_subset_of_funcParts? hparts (by simp [FuncParts.refs, hlist])
  exact exists_bind_eq_ok hresults fun list _ => h.exists_fieldTypes list

theorem Grounded.exists_body? (h : t.Grounded) (func : Nat) : ∃ body, t.body? func = .ok body := by
  apply h.exists_followOption func
  intro body hbody
  obtain ⟨parts, hparts, hbody⟩ := Option.bind_eq_some_iff.mp hbody
  exact refs_subset_of_funcParts? hparts (by simp [FuncParts.refs, hbody])

end Tree

end Lintel
