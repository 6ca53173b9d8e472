import Lintel.Proofs.Text.Chars
import Lintel.Tree.Basic

/-!
# Names of types, and how they are written

A type has a name if it is an identifier, or one behind a package. Some rules read the name off the
source text instead, as what follows the last dot. The two are the same where the name is written
without gaps.
-/

namespace Lintel

open Lintel.Text

/-! ### Words -/

/-- A text that can be a name: there is something, and neither a dot nor a star. -/
structure IsWord (name : String) : Prop where
  ne_empty : name ≠ ""
  noDot : '.' ∉ name.toList
  noStar : '*' ∉ name.toList

instance (name : String) : Decidable (IsWord name) :=
  decidable_of_iff (name ≠ "" ∧ '.' ∉ name.toList ∧ '*' ∉ name.toList)
    ⟨fun ⟨hne, hdot, hstar⟩ => ⟨hne, hdot, hstar⟩, fun h => ⟨h.ne_empty, h.noDot, h.noStar⟩⟩

/-- What follows the last dot of a text, or all of it. -/
theorem lastPiece_dot_eq_iff {text word : String} :
    String.ofList (lastPiece (· == '.') text.toList) = word ↔
      '.' ∉ word.toList ∧ (text = word ∨ ∃ before, text = before ++ "." ++ word) := by
  have hdot : ".".toList = ['.'] := rfl
  have hplain : (∀ c ∈ word.toList, (c == '.') = false) ↔ '.' ∉ word.toList := by
    simp only [beq_eq_false_iff_ne, ne_eq]
    exact List.forall_mem_ne'
  rw [← String.toList_inj, String.toList_ofList, lastPiece_eq_iff, hplain]
  refine and_congr_right fun _ => or_congr String.toList_inj ?_
  constructor
  · rintro ⟨before, c, hc, htext⟩
    refine ⟨String.ofList before, String.toList_inj.mp ?_⟩
    simpa [hdot, eq_of_beq hc] using htext
  · rintro ⟨before, rfl⟩
    exact ⟨before.toList, '.', rfl, by simp [hdot]⟩

/-! ### Types -/

deriving instance DecidableEq for NodeKind

/-- A type has a name of its own, perhaps of another package. -/
inductive TypeNamed (t : Tree) (type : Nat) (name : String) : Prop
  | word (hkind : t.kind type = .ident name)
  | qualified {package field : Nat} (hkind : t.kind type = .selectorExpr package field)
      (hname : t.ident? field = some name)

/-- The name of a type is written without gaps. -/
inductive NameWritten (t : Tree) (type : Nat) (name : String) : Prop
  | word (hkind : t.kind type = .ident name) (hword : IsWord name) (htext : t.text type = name)
  | qualified {package field : Nat} (hkind : t.kind type = .selectorExpr package field)
      (hname : t.ident? field = some name) (hword : IsWord name)
      (htext : t.text type = t.text package ++ "." ++ name)

section Types

variable {t : Tree} {type : Nat} {name other : String}

theorem TypeNamed.unique (h : TypeNamed t type name) (hother : TypeNamed t type other) :
    name = other := by
  cases h with
  | word hkind =>
    cases hother with
    | word hkind' => exact NodeKind.ident.inj (hkind.symm.trans hkind')
    | qualified hkind' => cases hkind.symm.trans hkind'
  | qualified hkind hname =>
    cases hother with
    | word hkind' => cases hkind.symm.trans hkind'
    | qualified hkind' hname' =>
      obtain ⟨-, rfl⟩ := NodeKind.selectorExpr.inj (hkind.symm.trans hkind')
      exact Option.some.inj (hname.symm.trans hname')

theorem NameWritten.typeNamed (h : NameWritten t type name) : TypeNamed t type name := by
  cases h with
  | word hkind => exact .word hkind
  | qualified hkind hname => exact .qualified hkind hname

theorem NameWritten.isWord (h : NameWritten t type name) : IsWord name := by
  cases h with
  | word _ hword => exact hword
  | qualified _ _ hword => exact hword

/-- A name that is written without gaps is what follows the last dot. -/
theorem NameWritten.lastPiece_eq (h : NameWritten t type name) :
    String.ofList (lastPiece (· == '.') (t.text type).toList) = name := by
  refine lastPiece_dot_eq_iff.mpr ⟨h.isWord.noDot, ?_⟩
  cases h with
  | word _ _ htext => exact .inl htext
  | qualified _ _ _ htext => exact .inr ⟨_, htext⟩

def isWrittenName (t : Tree) (type : Nat) (name : String) : Bool :=
  match t.kind type with
  | .ident word => word == name && t.text type == name
  | .selectorExpr package field =>
    t.ident? field == some name && t.text type == t.text package ++ "." ++ name
  | _ => false

private theorem nameWritten_iff :
    NameWritten t type name ↔ IsWord name ∧ isWrittenName t type name = true := by
  constructor
  · intro h
    refine ⟨h.isWord, ?_⟩
    cases h with
    | word hkind _ htext => simp [isWrittenName, hkind, htext]
    | qualified hkind hname _ htext => simp [isWrittenName, hkind, hname, htext]
  · rintro ⟨hword, htest⟩
    unfold isWrittenName at htest
    split at htest
    · rename_i word hkind
      obtain ⟨rfl, htext⟩ : word = name ∧ t.text type = name := by simpa using htest
      exact .word hkind hword htext
    · rename_i package field hkind
      obtain ⟨hname, htext⟩ : t.ident? field = some name ∧
          t.text type = t.text package ++ "." ++ name := by simpa using htest
      exact .qualified hkind hname hword htext
    · cases htest

instance (t : Tree) (type : Nat) (name : String) : Decidable (NameWritten t type name) :=
  decidable_of_iff _ nameWritten_iff.symm

end Types

end Lintel
