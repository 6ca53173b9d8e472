import Lintel.Rule.Basic

/-!
# The ids that kinds name

A tree is grounded if the kind of every node names lower nodes only, and contained if it names
nodes of the tree only. An id that such a kind names can be followed.
-/

namespace Lintel

def FuncParts.refs (parts : FuncParts) : List Nat :=
  parts.name.toList ++ parts.receiver.toList ++ [parts.params] ++ parts.results.toList
    ++ parts.body.toList

def NodeKind.refs : NodeKind → List Nat
  | .funcDecl parts | .funcLit parts => parts.refs
  | .typeSpec name type => [name, type]
  | .valueSpec names type values => names ++ type.toList ++ values
  | .field names type _ => names ++ [type]
  | .structType fields => [fields]
  | .interfaceType elems => elems
  | .methodSpec name params results => [name, params] ++ results.toList
  | .pointerType elem => [elem]
  | .funcType params results => [params] ++ results.toList
  | .returnStmt results => results
  | .assignStmt lhs rhs _ => lhs ++ rhs
  | .ifStmt init cond body orElse => init.toList ++ [cond, body] ++ orElse.toList
  | .callExpr callee args => callee :: args
  | .selectorExpr operand name => [operand, name]
  | .compositeLit type elements => type.toList ++ elements
  | .keyValue key value => [key, value]
  | .unaryExpr _ operand => [operand]
  | .file | .packageClause _ | .importDecl | .importSpec _ _ | .typeDecl | .constDecl | .varDecl
  | .fieldList | .block | .exprStmt | .ident _ | .basicLit _ _ | .other _ => []

theorem NodeKind.refs_of_funcParts? {kind : NodeKind} {parts : FuncParts}
    (h : kind.funcParts? = some parts) : kind.refs = parts.refs := by
  cases kind with
  | funcDecl other | funcLit other =>
    cases h
    rfl
  | _ => cases h

namespace Tree

variable {t : Tree} {id ref : Nat}

/-- The kind of every node names lower nodes only. -/
def Grounded (t : Tree) : Prop :=
  ∀ id, ∀ ref ∈ (t.kind id).refs, ref < id

def Contained (t : Tree) : Prop :=
  ∀ id, ∀ ref ∈ (t.kind id).refs, ref < t.size

theorem ident?_eq_some_iff {name : String} : t.ident? id = some name ↔ t.kind id = .ident name := by
  unfold ident? NodeKind.ident?
  cases t.kind id <;> simp

theorem kind_eq_file_of_size_le (h : t.size ≤ id) : t.kind id = .file := by
  have hnone : t.nodes[id]? = none := Array.getElem?_eq_none h
  rw [kind, node, hnone]
  rfl

theorem follow_eq_ok_iff {other : Nat} : t.follow id = .ok other ↔ id < t.size ∧ other = id := by
  unfold follow
  split
  · rename_i hlt
    simp [hlt, eq_comm]
  · rename_i hge
    simp [hge]

theorem lt_size_of_mem_refs (h : ref ∈ (t.kind id).refs) : id < t.size :=
  Nat.lt_of_not_le fun hge => by
    rw [kind_eq_file_of_size_le hge] at h
    cases h

theorem Contained.follow (h : t.Contained) (id : Nat) (href : ref ∈ (t.kind id).refs) :
    t.follow ref = .ok ref :=
  follow_eq_ok_iff.mpr ⟨h id ref href, rfl⟩

theorem contained_of_nodes (h : ∀ n ∈ t.nodes, ∀ ref ∈ n.kind.refs, ref < t.nodes.size) :
    t.Contained := by
  intro id ref href
  have hlt : id < t.nodes.size := lt_size_of_mem_refs href
  rw [kind, node, Array.getElem?_eq_getElem hlt] at href
  exact h _ (Array.getElem_mem hlt) ref href

theorem Grounded.contained (h : t.Grounded) : t.Contained :=
  fun id ref href => Nat.lt_trans (h id ref href) (lt_size_of_mem_refs href)

theorem Grounded.follow (h : t.Grounded) (id : Nat) (href : ref ∈ (t.kind id).refs) :
    t.follow ref = .ok ref :=
  h.contained.follow id href

end Tree

end Lintel
