import Lintel.Proofs.Rules.Findings
import Lintel.Proofs.Rules.Questions

/-!
# Findings without facts

What a rule reports on a file about which nothing is known, against what it reports with
facts. Entities and tasks are not judged without facts. Of storage and logging some facts
excuse: methods that are declared elsewhere, and arguments that are known to be errors. What
is reported without facts is reported with them, unless a fact excuses it.
-/

namespace Lintel

def SourceUnit.bare (unit : SourceUnit) : SourceUnit :=
  { unit with facts := .empty }

def Pass.bare {ρ : Type} (pass : Pass ρ) : Pass ρ :=
  { pass with unit := pass.unit.bare }

/-! ### Computations with and without facts -/

/-- A result of the first computation comes with one of the second that has to do with it,
or the second fails, where it may. -/
def Carries {α β : Type} (mayFail : Prop) (R : α → β → Prop) (c : Check α) (c' : Check β) : Prop :=
  ∀ a, c = .ok a → (∃ b, c' = .ok b ∧ R a b) ∨ mayFail ∧ ∃ fault, c' = .error fault

/-- What is among the first is among the second, or is excused. -/
def KeepsUnless {α : Type} (excused : α → Prop) (as bs : List α) : Prop :=
  ∀ a ∈ as, a ∈ bs ∨ excused a

section Rules

variable {α β γ δ ι : Type} {mayFail : Prop} {R : α → β → Prop} {S : γ → δ → Prop}
  {c : Check α} {c' : Check β} {excused : α → Prop} {as bs as' bs' : List α}

namespace Carries

theorem same (c : Check α) : Carries mayFail Eq c c :=
  fun a ha => .inl ⟨a, ha, rfl⟩

theorem pure {a : α} {b : β} (h : R a b) : Carries mayFail R (.ok a) (.ok b) := by
  intro a' ha
  cases ha
  exact .inl ⟨b, rfl, h⟩

theorem bind {f : α → Check γ} {g : β → Check δ} (h : Carries mayFail R c c')
    (hf : ∀ a b, R a b → Carries mayFail S (f a) (g b)) :
    Carries mayFail S (c >>= f) (c' >>= g) := by
  intro r hr
  obtain ⟨a, ha, hfa⟩ := bind_eq_ok.mp hr
  rcases h a ha with ⟨b, rfl, hab⟩ | ⟨hfails, fault, rfl⟩
  · exact hf a b hab r hfa
  · exact .inr ⟨hfails, fault, rfl⟩

theorem mono {S : α → β → Prop} (h : Carries mayFail R c c') (hS : ∀ a b, R a b → S a b) :
    Carries mayFail S c c' := by
  intro a ha
  exact (h a ha).imp_left fun ⟨b, hb, hab⟩ => ⟨b, hb, hS a b hab⟩

/-- Both sides may begin with the same computation. -/
theorem bind_same {f : α → Check γ} {g : α → Check δ}
    (hf : ∀ a, c = .ok a → Carries mayFail S (f a) (g a)) :
    Carries mayFail S (c >>= f) (c >>= g) := by
  intro r hr
  obtain ⟨a, rfl, hfa⟩ := bind_eq_ok.mp hr
  exact hf a rfl r hfa

end Carries

theorem KeepsUnless.append (h : KeepsUnless excused as bs) (h' : KeepsUnless excused as' bs') :
    KeepsUnless excused (as ++ as') (bs ++ bs') := by
  intro a ha
  rcases List.mem_append.mp ha with ha | ha
  · exact (h a ha).imp_left (List.mem_append_left _)
  · exact (h' a ha).imp_left (List.mem_append_right _)

/-- Results that are joined have to do with each other as their parts do. -/
theorem Carries.gather {T : List α → List β → Prop} (hnil : T [] [])
    (happend : ∀ as bs as' bs', T as bs → T as' bs' → T (as ++ as') (bs ++ bs'))
    {f : ι → Check (List α)} {g : ι → Check (List β)} {xs : List ι}
    (h : ∀ x ∈ xs, Carries mayFail T (f x) (g x)) :
    Carries mayFail T (Lintel.gather f xs) (Lintel.gather g xs) := by
  induction xs with
  | nil => exact .pure hnil
  | cons x xs ih =>
    refine (h x List.mem_cons_self).bind fun as bs hfirst => ?_
    refine (ih fun y hy => h y (List.mem_cons_of_mem x hy)).bind fun as' bs' hrest => ?_
    exact .pure (happend as bs as' bs' hfirst hrest)

theorem Carries.gather_keeps {f g : ι → Check (List α)} {xs : List ι}
    (h : ∀ x ∈ xs, Carries mayFail (KeepsUnless excused) (f x) (g x)) :
    Carries mayFail (KeepsUnless excused) (Lintel.gather f xs) (Lintel.gather g xs) :=
  .gather (fun _ ha => .inl ha) (fun _ _ _ _ => .append) h

/-- What the second test selects is selected by the first, or is excused. -/
theorem Carries.select {excused : ι → Prop} {f g : ι → Check Bool} {xs : List ι}
    (h : ∀ x ∈ xs, Carries mayFail (fun b b' => b' = true → b = true ∨ excused x) (f x) (g x)) :
    Carries mayFail (fun as bs => KeepsUnless excused bs as) (Lintel.select f xs)
      (Lintel.select g xs) := by
  refine Carries.gather (fun _ ha => .inl ha) (fun _ _ _ _ => .append) fun x hx => ?_
  refine (h x hx).bind fun b b' hb => .pure ?_
  cases b' with
  | false => exact fun a ha => absurd ha List.not_mem_nil
  | true =>
    rintro a ha
    obtain rfl := List.mem_singleton.mp ha
    exact (hb rfl).imp_left fun hon => by rw [hon]; exact List.mem_singleton_self a

theorem Carries.anyM {f g : ι → Check Bool} {xs : List ι}
    (h : ∀ x ∈ xs, Carries mayFail (fun b b' => b = true → b' = true) (f x) (g x)) :
    Carries mayFail (fun b b' => b = true → b' = true) (xs.anyM f) (xs.anyM g) := by
  induction xs with
  | nil => exact .pure id
  | cons x xs ih =>
    rw [List.anyM, List.anyM]
    refine (h x List.mem_cons_self).bind fun b b' hb => ?_
    cases b with
    | true =>
      rw [hb rfl]
      exact .pure id
    | false =>
      cases b' with
      | true =>
        -- the second computation stops here, whatever the first goes on to find
        intro r _
        exact .inl ⟨true, rfl, fun _ => rfl⟩
      | false => exact ih fun y hy => h y (List.mem_cons_of_mem x hy)

end Rules

/-! ### What facts excuse -/

/-- A call that passes an argument known to be an error to `Log`. -/
def LogsKnownError (t : Tree) (facts : FactTable) (call : Nat) : Prop :=
  t.isSelectorCall call = .ok true ∧ t.calleeName? call = .ok (some "Log") ∧
    ∃ args, t.callArgs call = .ok args ∧ ∃ arg ∈ args, facts.isError arg = true

/-- A finding that a fact excuses: of a storage type that is known to begin transactions, or
of a function that logs an argument known to be an error. -/
inductive Excused (t : Tree) (facts : FactTable) (d : Diagnostic) : Prop
  | begins (decl : TypeDecl) (methods : MethodSet)
      (location : d.location = .ofSpan t.file (t.span decl.nameNode))
      (message : d.message =
        s!"storage type `{decl.name}` does not support transactions (missing `BeginTx`)")
      (known : (facts.typeOf? decl.nameNode).bind facts.methodSet? = some methods)
      (begins : methods.contains "BeginTx" = true)
  | logs (decl : FuncDecl) (body call : Nat)
      (location : d.location = .ofSpan t.file (t.span decl.node))
      (message : d.message = s!"log errors before returning them in `{decl.name}`")
      (inBody : t.body? decl.node = .ok (some body) ∧ call ∈ t.calls body)
      (known : LogsKnownError t facts call)

/-- What a rule reports without facts is excused, or is reported with facts, unless the rule
crashes on a tree that names nodes out of it. -/
def Rule.Keeps (rule : Rule Published) (pass : Pass Published) : Prop :=
  ∀ outcome, rule.run pass.bare = .ok outcome → ∀ d ∈ outcome.reported,
    Excused pass.tree pass.facts d ∨
      (∃ outcome', rule.run pass = .ok outcome' ∧ d ∈ outcome'.reported) ∨
      ¬ pass.tree.Grounded ∧ ∃ fault, rule.run pass = .error fault

theorem Rule.keeps_of_carries {rule : Rule Published} {pass : Pass Published} {mayFail : Prop}
    (h : Carries mayFail (fun o o' => KeepsUnless (Excused pass.tree pass.facts) o.reported
      o'.reported) (rule.run pass.bare) (rule.run pass))
    (hfail : mayFail → ¬ pass.tree.Grounded) : rule.Keeps pass := by
  intro outcome hrun d hd
  rcases h outcome hrun with ⟨outcome', hrun', hkeeps⟩ | ⟨hmay, hfault⟩
  · rcases hkeeps d hd with hd | hexcused
    · exact .inr (.inl ⟨outcome', hrun', hd⟩)
    · exact .inl hexcused
  · exact .inr (.inr ⟨hfail hmay, hfault⟩)

/-- A rule reports nothing without facts. -/
def Rule.NeedsFacts (rule : Rule Published) (pass : Pass Published) : Prop :=
  Yields (rule.run pass.bare) fun outcome => outcome.reported = []

variable {pass : Pass Published}

/-! ### Entities and tasks -/

theorem gather_nothing {α β : Type} {f : α → Check (List β)} {as : List α}
    (h : ∀ a ∈ as, Yields (f a) (· = [])) : Yields (gather f as) (· = []) := by
  induction as with
  | nil => exact .pure rfl
  | cons a as ih =>
    refine .bind fun first hfirst => .bind fun others hothers => .pure ?_
    rw [h a List.mem_cons_self first hfirst,
      ih (fun b hb => h b (List.mem_cons_of_mem a hb)) others hothers]
    rfl

private theorem checkEntity_bare (decl : TypeDecl) :
    Yields (checkEntity pass.bare decl) (· = []) := by
  unfold checkEntity
  refine .bind fun entity _ => ?_
  split
  · exact .pure rfl
  · exact .pure rfl

theorem domainLayering_needsFacts (severity : Severity) :
    (domainLayering severity).NeedsFacts pass :=
  .bind fun _ _ => .bind fun ds hds =>
    .pure (gather_nothing (fun decl _ => checkEntity_bare decl) ds hds)

private theorem checkTaskNode_bare (id : Nat) : Yields (checkTaskNode pass.bare id) (· = []) := by
  unfold checkTaskNode
  dsimp only
  split
  · exact .pure rfl
  · exact .pure rfl
  · split
    · refine gather_nothing fun pair _ => ?_
      unfold checkTarget
      refine .bind fun target _ => ?_
      split
      · exact .pure rfl
      · exact .pure rfl
    · exact .pure rfl
  · exact .pure rfl

theorem taskFields_needsFacts (severity : Severity) : (taskFields severity).NeedsFacts pass :=
  .bind fun ds hds => .pure (gather_nothing (fun id _ => checkTaskNode_bare id) ds hds)

/-! ### Storage -/

/-- A storage type that is seen to begin transactions without facts is seen to with them, and
the other way round unless its methods are known. -/
theorem beginsTransactions_carries (decls : Declarations) (decl : TypeDecl) :
    Carries False (fun b b' => (b = true → b' = true) ∧
        (b' = true → b = true ∨ (pass.methodSet? decl).any (·.contains "BeginTx") = true))
      (beginsTransactions pass.bare decls decl) (beginsTransactions pass decls decl) := by
  unfold beginsTransactions
  refine .bind_same fun declares _ => ?_
  split
  · exact .pure ⟨id, .inl⟩
  · have hbare : pass.bare.methodSet? decl = none := rfl
    rw [hbare]
    refine .pure ⟨fun hseen => ?_, fun hseen => ?_⟩
    · rw [Option.any_none, Bool.or_false] at hseen
      rw [hseen, Bool.true_or]
    · rw [Option.any_none, Bool.or_false]
      exact Bool.or_eq_true_iff.mp hseen

private theorem checkStorage_carries (decls : Declarations) (decl : TypeDecl) :
    Carries False (KeepsUnless (Excused pass.tree pass.facts)) (checkStorage pass.bare decls decl)
      (checkStorage pass decls decl) := by
  unfold checkStorage
  refine .bind_same fun wraps _ => ?_
  refine (beginsTransactions_carries decls decl).bind fun begins begins' hbegins => ?_
  refine .pure (KeepsUnless.append (fun d hd => .inl hd) ?_)
  cases begins with
  | true => exact fun d hd => absurd hd List.not_mem_nil
  | false =>
    cases begins' with
    | false => exact fun d hd => .inl hd
    | true =>
      intro d hd
      obtain rfl := List.mem_singleton.mp hd
      have hknown := (hbegins.2 rfl).resolve_left (by decide)
      cases hmethods : pass.methodSet? decl with
      | none =>
        rw [hmethods] at hknown
        cases hknown
      | some methods =>
        rw [hmethods] at hknown
        exact .inr (.begins decl methods rfl rfl hmethods hknown)

theorem storageShape_keeps (severity : Severity) : (storageShape severity).Keeps pass := by
  refine Rule.keeps_of_carries (.bind_same fun decls _ => ?_) False.elim
  exact (Carries.gather_keeps fun decl _ => checkStorage_carries decls decl).bind
    fun ds ds' hkeeps => .pure hkeeps

/-! ### Logging -/

section Logging

variable {t : Tree} {facts : FactTable} {mayFail : Prop}

private theorem isErrorType_mono (type : Nat) (h : isErrorType t .empty type = true) :
    isErrorType t facts type = true := by
  unfold isErrorType at h ⊢
  rw [Bool.or_eq_true_iff] at h ⊢
  exact h.imp_right fun herror => by cases herror

/-- More slots for errors are filled by as much at least. -/
theorem fillsErrorSlot_mono (t : Tree) {types : List Nat} {p q : Nat → Bool}
    (hpq : ∀ type, p type = true → q type = true) (results : List Nat)
    (h : fillsErrorSlot t (types.map p) results = true) :
    fillsErrorSlot t (types.map q) results = true := by
  have hsingle : ∀ result, fillsErrorSlot t (types.map p) [result] = true →
      fillsErrorSlot t (types.map q) [result] = true := by
    intro result h
    unfold fillsErrorSlot at h ⊢
    simp only [List.length_map] at h ⊢
    split
    · rename_i hlong
      rw [if_pos hlong, Bool.and_eq_true_iff, List.contains_iff_mem] at h
      obtain ⟨type, htype, hp⟩ := List.mem_map.mp h.1
      rw [Bool.and_eq_true_iff, List.contains_iff_mem]
      exact ⟨List.mem_map.mpr ⟨type, htype, hpq type hp⟩, h.2⟩
    · rename_i hshort
      rw [if_neg hshort, Bool.and_eq_true_iff] at h
      rw [Bool.and_eq_true_iff]
      refine ⟨?_, h.2⟩
      cases types with
      | nil => exact h.1
      | cons type types => exact hpq type h.1
  match results with
  | [] => exact h
  | [result] => exact hsingle result h
  | first :: second :: rest =>
    unfold fillsErrorSlot at h ⊢
    simp only [List.zip_map_left, List.any_map, List.any_eq_true, Function.comp_apply, Prod.map,
      id_eq, Bool.and_eq_true_iff] at h ⊢
    obtain ⟨pair, hmem, hp, hfilled⟩ := h
    exact ⟨pair, hmem, hpq pair.1 hp, hfilled⟩

private theorem yieldsError_carries (types : List Nat) (id : Nat) :
    Carries mayFail (fun b b' => b = true → b' = true)
      (yieldsError t .empty (types.map (isErrorType t .empty)) id)
      (yieldsError t facts (types.map (isErrorType t facts)) id) := by
  unfold yieldsError
  split
  · refine .bind_same fun results _ => .pure fun h => ?_
    rw [Bool.or_eq_true_iff] at h ⊢
    rcases h with herror | hfilled
    · obtain ⟨result, -, hresult⟩ := List.any_eq_true.mp herror
      -- without facts no result is known to be an error
      cases (Bool.and_eq_true_iff.mp hresult).2
    · exact .inr (fillsErrorSlot_mono t isErrorType_mono results hfilled)
  · exact .pure fun h => h

private theorem returnsError_carries (func body : Nat) :
    Carries mayFail (fun b b' => b = true → b' = true) (returnsError t .empty func body)
      (returnsError t facts func body) := by
  unfold returnsError
  refine .bind_same fun types _ => ?_
  exact Carries.anyM fun id _ => yieldsError_carries types id

/-- What logs an error with facts does so without them, or is known to. -/
theorem isErrorLogging_carries (call : Nat) :
    Carries mayFail (fun b b' => b' = true → b = true ∨ LogsKnownError t facts call)
      (isErrorLogging t .empty call) (isErrorLogging t facts call) := by
  unfold isErrorLogging
  refine .bind_same fun selector hselector => ?_
  split
  · rename_i hon
    refine .bind_same fun args hargs => .bind_same fun name hname => ?_
    split
    · exact .pure .inl
    · refine .pure fun hlogs => .inr ⟨?_, hname, args, hargs, List.any_eq_true.mp hlogs⟩
      rw [hselector, hon]
    · exact .pure .inl
  · exact .pure .inl

theorem exists_isErrorLogging (h : t.Grounded) (facts : FactTable) (call : Nat) :
    ∃ logs, isErrorLogging t facts call = .ok logs := by
  refine exists_bind_eq_ok (h.exists_isSelectorCall call) fun selector _ => ?_
  split
  · refine exists_bind_eq_ok (h.exists_callArgs call) fun args _ =>
      exists_bind_eq_ok (h.exists_calleeName? call) fun name _ => ?_
    split
    · exact ⟨_, rfl⟩
    · exact ⟨_, rfl⟩
    · exact ⟨_, rfl⟩
  · exact ⟨_, rfl⟩

end Logging

/-- Where nothing is reported without facts, all that is asked is that nothing crashes. -/
theorem nothing_carries {t : Tree} {excused : Diagnostic → Prop} {c' : Check (List Diagnostic)}
    (h : t.Grounded → ∃ ds, c' = .ok ds) :
    Carries (¬ t.Grounded) (KeepsUnless excused) (.ok []) c' := by
  intro ds hds
  cases hds
  cases hc : c' with
  | ok ds => exact .inl ⟨ds, rfl, fun d hd => absurd hd List.not_mem_nil⟩
  | error fault =>
    refine .inr ⟨fun hgrounded => ?_, fault, rfl⟩
    obtain ⟨ds, hds⟩ := h hgrounded
    rw [hc] at hds
    cases hds

private theorem checkUnlogged_carries (decl : FuncDecl) :
    Carries (¬ pass.tree.Grounded) (KeepsUnless (Excused pass.tree pass.facts))
      (checkUnlogged pass.bare decl) (checkUnlogged pass decl) := by
  unfold checkUnlogged
  refine .bind_same fun found hbody => ?_
  cases found with
  | none => exact .pure fun d hd => .inl hd
  | some body =>
    have hreturns : Carries (¬ pass.tree.Grounded) (fun b b' => b = true → b' = true)
        (returnsError pass.bare.tree pass.bare.facts decl.node body)
        (returnsError pass.tree pass.facts decl.node body) := returnsError_carries decl.node body
    refine hreturns.bind fun fails fails' hfails => ?_
    cases fails with
    | true =>
      rw [hfails rfl, if_pos rfl, if_pos rfl]
      have hselect : Carries (¬ pass.tree.Grounded)
          (fun as bs => KeepsUnless (fun call => call ∈ pass.tree.calls body ∧
            LogsKnownError pass.tree pass.facts call) bs as)
          (select (isErrorLogging pass.bare.tree pass.bare.facts) (pass.bare.tree.calls body))
          (select (isErrorLogging pass.tree pass.facts) (pass.tree.calls body)) :=
        .select fun call hcall => (isErrorLogging_carries call).mono fun b b' hlogs hon =>
          (hlogs hon).imp_right fun hknown => ⟨hcall, hknown⟩
      refine Carries.bind hselect fun logging logging' hlogging => ?_
      cases logging with
      | cons call logging => exact nothing_carries fun hgrounded => by split <;> exact ⟨_, rfl⟩
      | nil =>
        cases logging' with
        | nil => exact Carries.pure fun d hd => .inl hd
        | cons call logging' =>
          refine Carries.pure fun d hd => .inr ?_
          obtain rfl := List.mem_singleton.mp hd
          obtain ⟨hcall, hknown⟩ := (hlogging call List.mem_cons_self).resolve_left List.not_mem_nil
          exact .logs decl body call rfl rfl ⟨hbody, hcall⟩ hknown
    | false =>
      -- nothing is reported without facts, and with them the calls are looked through
      refine nothing_carries fun hgrounded => ?_
      split
      · refine exists_bind_eq_ok
          (exists_select fun call _ => exists_isErrorLogging hgrounded pass.facts call) fun _ _ => ?_
        split
        · exact ⟨_, rfl⟩
        · exact ⟨_, rfl⟩
      · exact ⟨_, rfl⟩

theorem structuredLogging_keeps (severity : Severity) : (structuredLogging severity).Keeps pass := by
  refine Rule.keeps_of_carries (.bind_same fun index _ => .bind_same fun decls _ => ?_) id
  refine .bind_same fun calls _ => ?_
  refine (Carries.gather_keeps fun decl _ => checkUnlogged_carries decl).bind
    fun returns returns' hreturns => .pure ?_
  exact KeepsUnless.append (fun d hd => .inl hd) hreturns

end Lintel
