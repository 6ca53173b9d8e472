import Std.Data.TreeMap
import Lintel.Search
import Lintel.Tree.Node

/-!
# Facts about a file

What is known about the types in a file: the type of a node, the methods of a named
type, and the package that a node refers to. A missing fact means that nothing is
known; it never counts as a violation.
-/

namespace Lintel

/-- A type, as far as it is resolved. A named type without a package is predeclared. -/
inductive GoType where
  | basic (name : String)
  | named (package : Option String) (name : String)
  | pointer (elem : GoType)
  | slice (elem : GoType)
  deriving DecidableEq, Repr, Inhabited

namespace GoType

def error : GoType :=
  .named none "error"

def isError : GoType → Bool
  | .named none name => name == "error"
  | _ => false

def isInt64 : GoType → Bool
  | .basic name => name == "int64"
  | _ => false

def stripPointers : GoType → GoType
  | .pointer elem => elem.stripPointers
  | other => other

def name? (t : GoType) : Option String :=
  match t.stripPointers with
  | .named _ name => some name
  | _ => none

def methodSetKey? (t : GoType) : Option String :=
  match t.stripPointers with
  | .named (some package) name => some (package ++ "." ++ name)
  | .named none name => some name
  | _ => none

def display : GoType → String
  | .basic name => name
  | .named (some package) name => package ++ "." ++ name
  | .named none name => name
  | .pointer elem => "*" ++ elem.display
  | .slice elem => "[]" ++ elem.display

end GoType

inductive Receiver where
  | value
  | pointer
  deriving DecidableEq, Repr

def Receiver.text : Receiver → String
  | .value => "value"
  | .pointer => "pointer"

structure Method where
  name : String
  receiver : Receiver
  deriving DecidableEq, Repr

/-- Methods by name, in ascending order of their names. -/
structure MethodSet where
  methods : Array Method
  deriving DecidableEq, Repr

namespace MethodSet

def empty : MethodSet :=
  ⟨#[]⟩

/-- Where a method of a name is, or where it belongs. -/
def slot (set : MethodSet) (name : String) : Slot :=
  search set.methods fun m => compareOfLessAndEq m.name name

/-- Adds a method, in place of one that has its name. -/
def insert (set : MethodSet) (method : Method) : MethodSet :=
  match set.slot method.name with
  | .found i => ⟨set.methods.setIfInBounds i method⟩
  | .gap i => ⟨set.methods.insertIdxIfInBounds i method⟩

def get? (set : MethodSet) (name : String) : Option Method :=
  match set.slot name with
  | .found i => set.methods[i]?
  | .gap _ => none

def contains (set : MethodSet) (name : String) : Bool :=
  (set.get? name).isSome

def size (set : MethodSet) : Nat :=
  set.methods.size

def toList (set : MethodSet) : List Method :=
  set.methods.toList

end MethodSet

structure FactTable where
  types : Std.TreeMap Nat GoType
  methodSets : Std.TreeMap String MethodSet
  packages : Std.TreeMap Nat String
  unitPackage : Option String

namespace FactTable

def empty : FactTable :=
  ⟨∅, ∅, ∅, none⟩

instance : Inhabited FactTable := ⟨empty⟩

def setUnitPackage (facts : FactTable) (path : String) : FactTable :=
  { facts with unitPackage := some path }

def recordType (facts : FactTable) (node : Nat) (type : GoType) : FactTable :=
  { facts with types := facts.types.insert node type }

def recordPackage (facts : FactTable) (node : Nat) (path : String) : FactTable :=
  { facts with packages := facts.packages.insert node path }

def updateMethods (facts : FactTable) (type : GoType) (update : MethodSet → MethodSet) :
    FactTable :=
  match type.methodSetKey? with
  | some key =>
    { facts with
      methodSets := facts.methodSets.insert key (update (facts.methodSets.getD key .empty)) }
  | none => facts

/-- Makes a named type known, without adding a method. -/
def declareType (facts : FactTable) (type : GoType) : FactTable :=
  facts.updateMethods type id

def recordMethod (facts : FactTable) (type : GoType) (method : Method) : FactTable :=
  facts.updateMethods type (·.insert method)

def typedNodes (facts : FactTable) : Nat :=
  facts.types.size

def typeOf? (facts : FactTable) (node : Nat) : Option GoType :=
  facts.types[node]?

def methodSet? (facts : FactTable) (type : GoType) : Option MethodSet :=
  type.methodSetKey?.bind fun key => facts.methodSets[key]?

/-- The package that a node refers to; by default it is that of the file. -/
def packagePath? (facts : FactTable) (node : Nat) : Option String :=
  facts.packages[node]?.or facts.unitPackage

def isError (facts : FactTable) (node : Nat) : Bool :=
  (facts.typeOf? node).any (·.isError)

end FactTable

end Lintel
