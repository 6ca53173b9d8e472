import Lintel.Go.Grammar.Parser
import Lintel.Proofs.Go.Productions

/-!
# What parsers give

A parser gives a property if whatever it answers has it, on any tokens. Parsers that are put
together give what follows from what their parts give. A grammar is sound if its goals give
concrete syntax with the productions of the grammar, and types, parameter lists and blocks
where these are asked for.
-/

namespace Lintel.Go

namespace Parser

/-- Whatever a parser answers has a property. -/
def Gives {α : Type} (p : Parser α) (P : α → Prop) : Prop :=
  ∀ tokens a rest, p.run tokens = some (a, rest) → P a

section Rules

variable {α β : Type} {p q : Parser α} {f : α → Parser β} {P Q : α → Prop} {R : β → Prop} {a : α}

theorem Gives.mono (h : Gives p P) (hPQ : ∀ a, P a → Q a) : Gives p Q :=
  fun tokens a rest heq => hPQ a (h tokens a rest heq)

theorem Gives.pure (h : P a) : Gives (pure a) P := by
  intro tokens b rest heq
  obtain rfl := (Prod.mk.inj (Option.some.inj heq)).1
  exact h

theorem gives_failure : Gives (failure : Parser α) P :=
  fun _ _ _ heq => nomatch heq

theorem Gives.bind (h : Gives p P) (hf : ∀ a, P a → Gives (f a) R) : Gives (p >>= f) R := by
  intro tokens b rest heq
  rw [StateT.run_bind] at heq
  obtain ⟨⟨a, middle⟩, ha, hb⟩ := Option.bind_eq_some_iff.mp heq
  exact hf a (h tokens a middle ha) middle b rest hb

theorem Gives.after (hf : ∀ a, Gives (f a) R) : Gives (p >>= f) R :=
  .bind (P := fun _ => True) (fun _ _ _ _ => trivial) fun a _ => hf a

theorem Gives.orElse (hp : Gives p P) (hq : Gives q P) : Gives (p <|> q) P := by
  intro tokens a rest heq
  cases hrun : p.run tokens with
  | none =>
    have hleft : (p <|> q).run tokens = q.run tokens := by
      change (p.run tokens <|> q.run tokens) = _
      rw [hrun]
      rfl
    exact hq tokens a rest (hleft.symm.trans heq)
  | some r =>
    have hright : (p <|> q).run tokens = some r := by
      change (p.run tokens <|> q.run tokens) = _
      rw [hrun]
      rfl
    exact hp tokens a rest (hrun.trans (hright.symm.trans heq))

theorem Gives.ite {c : Prop} [Decidable c] (hp : Gives p P) (hq : Gives q P) :
    Gives (if c then p else q) P := by
  split
  · exact hp
  · exact hq

theorem gives_none : Gives (pure none : Parser (Option α)) fun o => ∀ a ∈ o, P a :=
  .pure (by simp)

theorem Gives.pure_some (h : P a) : Gives (Pure.pure (some a)) fun o => ∀ a ∈ o, P a :=
  .pure fun _ heq => Option.some.inj heq ▸ h

theorem Gives.attempt? (h : Gives p P) : Gives (attempt? p) fun o => ∀ a ∈ o, P a := by
  refine .orElse ?_ gives_none
  exact (map_eq_pure_bind some p).symm ▸ .bind h fun a ha => .pure_some ha

theorem Gives.iterateUpTo {step : α → Parser (Option α)}
    (hstep : ∀ a, P a → Gives (step a) fun o => ∀ b ∈ o, P b) :
    ∀ (n : Nat) (a : α), P a → Gives (iterateUpTo step n a) P
  | 0, _, ha => .pure ha
  | n + 1, a, ha => by
    refine .bind (hstep a ha) fun o ho => ?_
    cases o with
    | none => exact .pure ha
    | some b => exact iterateUpTo hstep n b (ho b rfl)

/-- What holds at first and is kept by every step holds at the end. -/
theorem Gives.iterate {step : α → Parser (Option α)} (ha : P a)
    (hstep : ∀ a, P a → Gives (step a) fun o => ∀ b ∈ o, P b) : Gives (iterate step a) P :=
  .after fun tokens => .iterateUpTo hstep (tokens.length + 1) a ha

end Rules

end Parser

/-! ### Nodes -/

namespace Concrete

variable {c : Concrete} {kind label : String} {children : List Concrete} {t : Token}

@[simp] theorem label_labelled (c : Concrete) : (c.labelled label).label = some label := by
  cases c
  rfl

@[simp] theorem kind_labelled (c : Concrete) : (c.labelled label).kind = c.kind := by
  cases c
  rfl

@[simp] theorem named_labelled (c : Concrete) : (c.labelled label).named = c.named := by
  cases c
  rfl

@[simp] theorem extra_labelled (c : Concrete) : (c.labelled label).extra = c.extra := by
  cases c
  rfl

@[simp] theorem grammatical_labelled : (c.labelled label).Grammatical ↔ c.Grammatical := by
  cases c
  rfl

@[simp] theorem kind_joining : (joining kind children).kind = kind := rfl

def AllGrammatical (cs : List Concrete) : Prop :=
  ∀ c ∈ cs, c.Grammatical

@[simp] theorem allGrammatical_nil : AllGrammatical [] :=
  List.forall_mem_nil _

@[simp] theorem allGrammatical_cons {cs : List Concrete} :
    AllGrammatical (c :: cs) ↔ c.Grammatical ∧ AllGrammatical cs :=
  List.forall_mem_cons

@[simp] theorem allGrammatical_append {cs others : List Concrete} :
    AllGrammatical (cs ++ others) ↔ AllGrammatical cs ∧ AllGrammatical others :=
  List.forall_mem_append

@[simp] theorem allGrammatical_map_labelled {cs : List Concrete} :
    AllGrammatical (cs.map (·.labelled label)) ↔ AllGrammatical cs := by
  simp [AllGrammatical]

theorem Grammatical.below (h : c.Grammatical) : AllGrammatical c.children :=
  (throughout_iff.mp h).2

theorem grammatical_joining_iff : (joining kind children).Grammatical ↔
    Production kind children ∧ AllGrammatical children :=
  throughout_iff

theorem grammatical_of_children_eq_nil (h : c.children = []) : c.Grammatical := by
  refine throughout_iff.mpr ⟨⟨?_, fun _ star rest hstar => ?_⟩, ?_⟩
  · simp [h]
  · rw [h] at hstar
    cases hstar
  · simp [h]

/-- The grammar asks nothing of the parts of most nodes. -/
theorem grammatical_joining (hkind : partsOf? kind = none)
    (h : AllGrammatical children) : (joining kind children).Grammatical := by
  refine grammatical_joining_iff.mpr ⟨⟨fun c _ _ kinds hkinds => ?_, ?_⟩, h⟩
  · rw [hkind] at hkinds
    cases hkinds
  · rintro rfl
    cases hkind

/-- A part of a node that is of a kind that its label asks for. -/
def Fills (kinds : Option String → List String) (c : Concrete) : Prop :=
  c.Grammatical ∧ (c.named = true → c.kind ∈ kinds c.label)

theorem grammatical_joining_parts {kinds : Option String → List String}
    (hkinds : partsOf? kind = some kinds) (hfield : kind ≠ "field_declaration")
    (h : ∀ c ∈ children, c.Fills kinds) : (joining kind children).Grammatical := by
  refine grammatical_joining_iff.mpr
    ⟨⟨fun c hc hkept others hothers => ?_, fun heq => absurd heq hfield⟩, fun c hc => (h c hc).1⟩
  obtain rfl := Option.some.inj (hkinds.symm.trans hothers)
  simp only [isKept, Bool.and_eq_true] at hkept
  exact (h c hc).2 hkept.1.1

theorem Grammatical.fills {kinds : Option String → List String} (h : c.Grammatical)
    (hkind : c.kind ∈ kinds (some label)) : (c.labelled label).Fills kinds :=
  ⟨by simpa using h, fun _ => by simpa using hkind⟩

def IsToken (c : Concrete) : Prop :=
  c.named = false ∧ c.children = []

theorem IsToken.grammatical (h : c.IsToken) : c.Grammatical :=
  grammatical_of_children_eq_nil h.2

theorem IsToken.fills {kinds : Option String → List String} (h : c.IsToken) : c.Fills kinds :=
  ⟨h.grammatical, fun hnamed => absurd (h.1.symm.trans hnamed) (by decide)⟩

@[simp] theorem isToken_leaf : (Parser.leaf t).IsToken := ⟨rfl, rfl⟩

@[simp] theorem grammatical_leaf : (Parser.leaf t).Grammatical :=
  isToken_leaf.grammatical

@[simp] theorem grammatical_namedLeaf : (Parser.namedLeaf kind t).Grammatical :=
  grammatical_of_children_eq_nil rfl

@[simp] theorem kind_namedLeaf : (Parser.namedLeaf kind t).kind = kind := rfl

end Concrete

/-! ### Tokens and lists -/

namespace Parser

open Concrete

section Tokens

variable {item : Parser Concrete} {inner : Parser (List Concrete)} {P : Concrete → Prop}
  {stops : Bool}

theorem gives_symbol (text : String) : Gives (symbol text) IsToken :=
  .after fun _ => .ite (.pure isToken_leaf) gives_failure

theorem gives_name (kind : String) : Gives (name kind) fun c => ∃ t, c = namedLeaf kind t :=
  .after fun t => .ite (.pure ⟨t, rfl⟩) gives_failure

theorem gives_terminator : Gives terminator IsToken := by
  refine .after fun tokens => ?_
  cases tokens with
  | nil => exact .pure ⟨rfl, rfl⟩
  | cons t rest =>
    dsimp only
    cases t.newline with
    | none => exact .ite (.after fun _ => .pure isToken_leaf) gives_failure
    | some offset => exact .after fun _ => .pure ⟨rfl, rfl⟩

def Items (P : Concrete → Prop) (items : List Concrete) : Prop :=
  ∀ c ∈ items, P c ∨ c.IsToken

theorem items_nil : Items P [] := by
  simp [Items]

theorem Items.append {items others : List Concrete} (h : Items P items) (hothers : Items P others) :
    Items P (items ++ others) :=
  List.forall_mem_append.mpr ⟨h, hothers⟩

theorem Items.fills {kinds : Option String → List String} {items : List Concrete}
    (h : Items (Fills kinds) items) : ∀ c ∈ items, c.Fills kinds :=
  fun c hc => (h c hc).elim id IsToken.fills

theorem Items.grammatical {items : List Concrete} (h : Items Grammatical items) :
    AllGrammatical items :=
  fun c hc => (h c hc).elim id IsToken.grammatical

/-- The first of items that are separated by commas is no comma. -/
theorem gives_commaSeparated (h : Gives item P) :
    Gives (commaSeparated item stops) fun items =>
      ∃ first rest, items = first :: rest ∧ P first ∧ Items P rest := by
  refine .bind h fun first hfirst => .iterate ⟨first, [], rfl, hfirst, items_nil⟩ ?_
  rintro _ ⟨first, rest, rfl, hfirst, hrest⟩
  refine .after fun _ => .ite ?_ gives_none
  exact .bind (gives_symbol ",") fun comma hcomma => .bind h fun c hc => .pure_some
    ⟨first, rest ++ [comma, c], rfl, hfirst, hrest.append (by simp [Items, hcomma, hc])⟩

theorem gives_commaSeparated_items (h : Gives item P) :
    Gives (commaSeparated item stops) (Items P) :=
  (gives_commaSeparated h).mono fun _ ⟨_, _, hitems, hfirst, hrest⟩ =>
    hitems ▸ List.forall_mem_cons.mpr ⟨.inl hfirst, hrest⟩

theorem gives_commaTerminated (h : Gives item P) (close : String) :
    Gives (commaTerminated item close) (Items P) := by
  refine .bind h fun first hfirst => .iterate (by simp [Items, hfirst]) fun items hitems => ?_
  refine .after fun _ => .ite ?_ gives_none
  exact .bind (gives_symbol ",") fun comma hcomma => .after fun _ => .ite
    (.pure_some (hitems.append (by simp [Items, hcomma])))
    (.bind h fun c hc => .pure_some (hitems.append (by simp [Items, hcomma, hc])))

theorem gives_separatedItems (h : Gives item P) (close : String) :
    Gives (separatedItems item close) (Items P) := by
  refine .after fun _ => .ite (.pure items_nil) ?_
  refine .bind h fun first hfirst => .iterate (by simp [Items, hfirst]) fun items hitems => ?_
  refine .bind (.attempt? gives_terminator) fun o ho => ?_
  cases o with
  | none => exact gives_none
  | some ending =>
    have hending := ho ending rfl
    exact .after fun _ => .ite (.pure_some (hitems.append (by simp [Items, hending])))
      (.bind h fun c hc => .pure_some (hitems.append (by simp [Items, hending, hc])))

theorem gives_terminatedItems (h : Gives item P) (close : String) :
    Gives (terminatedItems item close) (Items P) := by
  refine .iterate items_nil fun items hitems => .after fun _ => .ite gives_none ?_
  exact .bind h fun c hc => .bind gives_terminator fun ending hending =>
    .pure_some (hitems.append (by simp [Items, hending, hc]))

theorem gives_between (h : Gives inner (Items P)) (first last : String) :
    Gives (between first last inner) (Items P) := by
  refine .bind (gives_symbol first) fun a ha => .bind h fun middle hmiddle =>
    .bind (gives_symbol last) fun z hz => .pure ?_
  exact .append (List.forall_mem_cons.mpr ⟨.inr ha, hmiddle⟩) (by simp [Items, hz])

end Tokens

end Parser

/-! ### Sound grammars -/

/-- What is asked of the node that a goal answers with. -/
def Goal.Asks : Goal → Concrete → Prop
  | .type _, c => c.Grammatical ∧ c.kind ∈ typeKinds
  | .parameters, c => c.Grammatical ∧ c.kind = "parameter_list"
  | .block, c => c.Grammatical ∧ c.kind = "block"
  | _, c => c.Grammatical

/-- A grammar whose goals give what is asked of them. -/
def Grammar.Sound (g : Grammar) : Prop :=
  ∀ goal, (g goal).Gives goal.Asks

section Sound

variable {g : Grammar} (hg : g.Sound)

include hg

theorem Grammar.Sound.grammatical (goal : Goal) : (g goal).Gives Concrete.Grammatical := by
  refine (hg goal).mono fun c hc => ?_
  cases goal
  case type | parameters | block => exact hc.1
  all_goals exact hc

theorem Grammar.Sound.expressionList (place : Place) :
    (Parser.expressionList g place).Gives Concrete.Grammatical :=
  .bind (Parser.gives_commaSeparated_items (hg.grammatical _)) fun _ hitems =>
    .pure (Concrete.grammatical_joining rfl hitems.grammatical)

end Sound

end Lintel.Go
