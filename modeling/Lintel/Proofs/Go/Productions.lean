import Lintel.Go.Lowering

/-!
# Productions of the grammar

What the grammar says of the children of a node where lowering counts on it: functions,
fields and pointer types have named parts of certain kinds under certain labels, and a star
that begins a field stands before the type that is embedded. Extra nodes stand anywhere but
at the beginning.
-/

namespace Lintel.Go

/-! ### Concrete syntax throughout -/

section Throughout

variable (P : String → Span → List Concrete → Prop)

mutual

/-- Every node has a property, which may be about its kind, its range and its children. -/
def Concrete.Throughout : Concrete → Prop
  | .node _ kind _ _ span children => P kind span children ∧ AllThroughout children

def AllThroughout : List Concrete → Prop
  | [] => True
  | c :: rest => c.Throughout ∧ AllThroughout rest

end

section Decidable

variable [∀ kind span children, Decidable (P kind span children)]

mutual

instance Concrete.decidableThroughout : (c : Concrete) → Decidable (c.Throughout P)
  | .node _ kind _ _ span children =>
    have := decidableAllThroughout children
    inferInstanceAs (Decidable (P kind span children ∧ AllThroughout P children))

instance decidableAllThroughout : (cs : List Concrete) → Decidable (AllThroughout P cs)
  | [] => .isTrue trivial
  | c :: rest =>
    have := c.decidableThroughout
    have := decidableAllThroughout rest
    inferInstanceAs (Decidable (c.Throughout P ∧ AllThroughout P rest))

end

end Decidable

variable {P} {c : Concrete} {cs : List Concrete}

private theorem allThroughout_iff : AllThroughout P cs ↔ ∀ c ∈ cs, c.Throughout P := by
  induction cs with
  | nil => simp [AllThroughout]
  | cons c rest ih => simp [AllThroughout, ih]

theorem Concrete.throughout_iff :
    c.Throughout P ↔ P c.kind c.span c.children ∧ ∀ child ∈ c.children, child.Throughout P := by
  cases c
  rw [Concrete.Throughout, allThroughout_iff]
  rfl

theorem throughout_true (c : Concrete) : c.Throughout fun _ _ _ => True := by
  induction c using Concrete.rec (motive_2 := fun cs => AllThroughout (fun _ _ _ => True) cs) with
  | node label kind named extra span children ih => exact ⟨trivial, ih⟩
  | nil => exact trivial
  | cons c rest hc hrest => exact ⟨hc, hrest⟩

end Throughout

/-! ### Named parts -/

/-- Whether lowering keeps a node, or what is below it. -/
def Concrete.isKept (c : Concrete) : Bool :=
  c.named && !c.extra && c.kind != "comment"

def typeKinds : List String :=
  ["type_identifier", "generic_type", "qualified_type", "pointer_type", "struct_type",
    "interface_type", "array_type", "slice_type", "map_type", "channel_type", "function_type",
    "negated_type", "parenthesized_type"]

def embeddedKinds : List String :=
  ["type_identifier", "generic_type", "qualified_type"]

def functionParts : Option String → List String
  | some "receiver" | some "parameters" => ["parameter_list"]
  | some "name" => ["identifier", "field_identifier"]
  | some "type_parameters" => ["type_parameter_list"]
  | some "result" => "parameter_list" :: typeKinds
  | some "body" => ["block"]
  | _ => []

def parameterParts : Option String → List String
  | some "name" => ["identifier"]
  | some "type" => typeKinds
  | _ => []

def fieldParts : Option String → List String
  | some "name" => ["field_identifier"]
  | some "type" => typeKinds
  | some "tag" => ["interpreted_string_literal", "raw_string_literal"]
  | _ => []

/-- The kinds that the named parts of functions, fields and pointer types can be of, by their
labels. -/
def partsOf? (kind : String) : Option (Option String → List String) :=
  match kind with
  | "function_declaration" | "method_declaration" | "func_literal" | "method_elem" | "method_spec"
  | "function_type" => some functionParts
  | "parameter_declaration" | "variadic_parameter_declaration" => some parameterParts
  | "field_declaration" => some fieldParts
  | "pointer_type" => some fun _ => typeKinds
  | _ => none

/-- A node of a kind can have a part with a label. -/
def IsPart (parent : String) (label : Option String) (kind : String) : Prop :=
  ∀ kinds ∈ partsOf? parent, kind ∈ kinds label

/-- What the grammar says of the children of a node: its parts are of the kinds that their
labels ask for, and a field that begins with a star has its type next. -/
structure Production (kind : String) (children : List Concrete) : Prop where
  parts : ∀ c ∈ children, c.isKept = true → IsPart kind c.label c.kind
  star : kind = "field_declaration" → ∀ star rest, children = star :: rest → star.kind = "*" →
    star.named = false ∧ ∃ type others, rest.filter (!·.extra) = type :: others ∧
      type.named = true ∧ type.label = some "type" ∧ type.kind ∈ embeddedKinds

/-- Concrete syntax in which the parts of nodes are as the grammar has them. -/
def Concrete.Grammatical : Concrete → Prop :=
  Throughout fun kind _ children => Production kind children

/-! ### What lowering sees of the parts -/

section Parts

variable {parent kind : String} {label : Option String} {children : List Concrete}

theorem isSpliced_eq_false_of_isPart {kinds : Option String → List String}
    (hkinds : partsOf? parent = some kinds) (h : IsPart parent label kind) :
    isSpliced parent kind = false := by
  have hkind := h kinds hkinds
  have hall : ∀ kind ∈ kinds label, isSpliced parent kind = false := by
    unfold partsOf? at hkinds
    split at hkinds <;> cases hkinds
    all_goals
      simp only [functionParts, parameterParts, fieldParts]
      try split
      all_goals decide
  exact hall kind hkind

end Parts

end Lintel.Go
