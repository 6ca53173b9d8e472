import Lintel.Proofs.Go.Reached

/-!
# Literal numbers

A literal number stays a number behind signs and in parentheses. What is known of the type of such
an expression is the type of the literal, which is never that of a time.
-/

namespace Lintel.Go

/-- A literal number behind operators of a list, and in parentheses if these count. -/
inductive LiteralNumber (t : Tree) (ops : List String) (parens : Bool) : Nat → Prop
  | literal {id : Nat} {kind : LitKind} {text : String} :
      t.kind id = .basicLit kind text → kind ∈ [LitKind.int, .float, .rune] →
      LiteralNumber t ops parens id
  | unary {id operand : Nat} {op : String} :
      t.kind id = .unaryExpr op operand → op ∈ ops → LiteralNumber t ops parens operand →
      LiteralNumber t ops parens id
  | parenthesized {id inner : Nat} :
      parens = true → t.kind id = .other "parenthesized_expression" →
      (t.children id).head? = some inner → LiteralNumber t ops parens inner →
      LiteralNumber t ops parens id

def IsSigned (t : Tree) : Nat → Prop :=
  LiteralNumber t ["-", "+"] false

/-- A literal number under any nesting of parentheses and of the unary operators on numbers. -/
def IsNumber (t : Tree) : Nat → Prop :=
  LiteralNumber t ["-", "+", "^"] true

/-- A constant is declared without a type, as the value of an expression. -/
def DeclaresConstant (t : Tree) (name : String) (value : Nat) : Prop :=
  ∃ decl spec names values, t.tag decl = .constDecl ∧ spec ∈ t.children decl ∧
    t.kind spec = .valueSpec names none values ∧
    ∃ p ∈ names.zip values, t.ident? p.1 = some name ∧ p.2 = value

/-- An untyped numeric constant: a number, or the name of a constant that is one. -/
def IsUntypedNumber (t : Tree) (id : Nat) : Prop :=
  IsNumber t id ∨ ∃ name value, t.ident? id = some name ∧ DeclaresConstant t name value ∧
    IsNumber t value

def isLiteralUpTo (t : Tree) (ops : List String) (parens : Bool) : Nat → Nat → Bool
  | 0, _ => false
  | depth + 1, id =>
    match t.kind id with
    | .basicLit kind _ => [LitKind.int, .float, .rune].contains kind
    | .unaryExpr op operand => ops.contains op && isLiteralUpTo t ops parens depth operand
    | .other "parenthesized_expression" =>
      parens && (t.children id).head?.any (isLiteralUpTo t ops parens depth)
    | _ => false

theorem litType_ne_int64 (kind : LitKind) : litType kind ≠ .basic "int64" := by
  cases kind <;> decide

section Numbers

variable {t : Tree} {ops : List String} {parens : Bool} {id : Nat}

/-- A literal number has some number of nodes. -/
theorem literalNumber_iff_exists_upTo :
    LiteralNumber t ops parens id ↔ ∃ depth, isLiteralUpTo t ops parens depth id = true := by
  constructor
  · intro h
    induction h with
    | literal hkind hnumber => exact ⟨1, by simp only [isLiteralUpTo, hkind, List.contains_iff_mem, hnumber]⟩
    | unary hkind hop _ ih =>
      obtain ⟨depth, hdepth⟩ := ih
      exact ⟨depth + 1, by simp [isLiteralUpTo, hkind, hop, hdepth]⟩
    | parenthesized hparens hkind hhead _ ih =>
      obtain ⟨depth, hdepth⟩ := ih
      subst hparens
      exact ⟨depth + 1, by simp [isLiteralUpTo, hkind, hhead, hdepth]⟩
  · rintro ⟨depth, hdepth⟩
    induction depth generalizing id with
    | zero => cases hdepth
    | succ depth ih =>
      unfold isLiteralUpTo at hdepth
      split at hdepth
      · rename_i hkind
        exact .literal hkind (List.contains_iff_mem.mp hdepth)
      · rename_i hkind
        obtain ⟨hop, hoperand⟩ := Bool.and_eq_true_iff.mp hdepth
        exact .unary hkind (List.contains_iff_mem.mp hop) (ih hoperand)
      · rename_i hkind
        obtain ⟨hparens, hinner⟩ := Bool.and_eq_true_iff.mp hdepth
        obtain ⟨inner, hhead, hinner⟩ := (Option.any_eq_true _ _).mp hinner
        exact .parenthesized hparens hkind hhead (ih hinner)
      · cases hdepth

theorem LiteralNumber.ident?_eq_none (h : LiteralNumber t ops parens id) : t.ident? id = none := by
  cases h with
  | literal hkind | unary hkind | parenthesized _ hkind =>
    rw [Tree.ident?, hkind]
    rfl

theorem LiteralNumber.isAsked (h : LiteralNumber t ops parens id) : IsAsked t id := by
  cases h with
  | literal hkind | unary hkind | parenthesized _ hkind =>
    simp [IsAsked, Tree.tag, hkind, NodeKind.tag]

/-- An operator on numbers leaves the type of its operand. -/
theorem unaryType_of_mem {op : String} (hop : op ∈ ["-", "+", "^"]) (inner : Option GoType) :
    unaryType op inner = inner := by
  simp only [List.mem_cons, List.not_mem_nil, or_false] at hop
  rcases hop with rfl | rfl | rfl <;> rfl

/-- The type that is known of a number is the basic type of its literal. -/
theorem IsNumber.litType {s : Scope} {m : Memory} (h : IsNumber t id) (hs : Sound t s m)
    {answer : Option GoType} (hknown : m.known[id]? = some answer) :
    ∃ kind ∈ [LitKind.int, .float, .rune], answer = some (litType kind) := by
  induction h generalizing answer with
  | literal hkind hnumber =>
    have hexplained := hs.explained _ _ hknown
    simp only [Explained, hkind] at hexplained
    exact ⟨_, hnumber, hexplained⟩
  | unary hkind hop _ ih =>
    have hexplained := hs.explained _ _ hknown
    simp only [Explained, hkind] at hexplained
    obtain ⟨inner, hinner, rfl⟩ := hexplained
    obtain ⟨kind, hnumber, rfl⟩ := ih hinner
    exact ⟨kind, hnumber, unaryType_of_mem hop _⟩
  | parenthesized _ hkind hhead _ ih =>
    have hexplained := hs.explained _ _ hknown
    simp only [Explained, hkind, hhead] at hexplained
    exact ih hexplained

end Numbers

end Lintel.Go
