import Lintel.Proofs.Facts.Methods

/-!
# What a table of facts remembers

A table that is filled step by step answers every question by the steps alone: for a node, by
the last step that wrote something for it, and for a named type, by the methods recorded for
its package and name. Methods are kept under one text for both. As a name holds no dot, the
text tells the package from the name, whatever dots the package holds.
-/

namespace Lintel

/-! ### Named types -/

namespace GoType

def identity? (t : GoType) : Option (Option String × String) :=
  match t.stripPointers with
  | .named package name => some (package, name)
  | _ => none

def Undotted (t : GoType) : Prop :=
  ∀ name, t.name? = some name → '.' ∉ name.toList

/-- The text under which the methods of a type of a package and a name are kept. -/
def keyOf : Option String × String → String
  | (some package, name) => package ++ "." ++ name
  | (none, name) => name

private theorem methodSetKey?_eq_map (t : GoType) : t.methodSetKey? = t.identity?.map keyOf := by
  unfold methodSetKey? identity?
  cases t.stripPointers with
  | named package name =>
    cases package with
    | none => rfl
    | some path => rfl
  | _ => rfl

private theorem name?_eq_map (t : GoType) : t.name? = t.identity?.map (·.2) := by
  unfold name? identity?
  cases t.stripPointers with
  | _ => rfl

/-- A list is cut in one way at the last of some entries. -/
theorem append_cons_inj_of_last {α : Type} {c : α} {front back front' back' : List α}
    (hback : c ∉ back) (hback' : c ∉ back') (h : front ++ c :: back = front' ++ c :: back') :
    front = front' ∧ back = back' := by
  rcases List.append_eq_append_iff.mp h with ⟨between, rfl, hrest⟩ | ⟨between, rfl, hrest⟩
  · cases between with
    | nil => exact ⟨(List.append_nil _).symm, (List.cons.inj hrest).2⟩
    | cons a between =>
      obtain ⟨-, rfl⟩ := List.cons.inj hrest
      exact absurd (List.mem_append_right _ List.mem_cons_self) hback
  · cases between with
    | nil => exact ⟨List.append_nil _, (List.cons.inj hrest).2.symm⟩
    | cons a between =>
      obtain ⟨-, rfl⟩ := List.cons.inj hrest
      exact absurd (List.mem_append_right _ List.mem_cons_self) hback'

/-- The text tells the package and the name. -/
theorem keyOf_inj {id other : Option String × String} (hid : '.' ∉ id.2.toList)
    (hother : '.' ∉ other.2.toList) : keyOf id = keyOf other ↔ id = other := by
  refine ⟨fun h => ?_, congrArg keyOf⟩
  have hlist := congrArg String.toList h
  obtain ⟨package, name⟩ := id
  obtain ⟨path, word⟩ := other
  cases package with
  | none =>
    cases path with
    | none => exact congrArg (none, ·) h
    | some path =>
      simp only [keyOf, String.toList_append] at hlist
      exact absurd (by simp [hlist]) hid
  | some package =>
    cases path with
    | none =>
      simp only [keyOf, String.toList_append] at hlist
      exact absurd (by simp [← hlist]) hother
    | some path =>
      have hcut : package.toList ++ '.' :: name.toList = path.toList ++ '.' :: word.toList := by
        simpa [keyOf] using hlist
      obtain ⟨hpackage, hname⟩ := append_cons_inj_of_last hid hother hcut
      obtain rfl : package = path := String.toList_inj.mp hpackage
      obtain rfl : name = word := String.toList_inj.mp hname
      rfl

end GoType

/-! ### Steps -/

/-- One thing that a table is told. -/
inductive FactStep where
  | unitPackage (path : String)
  | nodeType (node : Nat) (type : GoType)
  | nodePackage (node : Nat) (path : String)
  | declared (type : GoType)
  | method (type : GoType) (added : Method)

namespace FactStep

def type? : FactStep → Option GoType
  | .declared type | .method type _ => some type
  | _ => none

def subject? (step : FactStep) : Option (Option String × String) :=
  step.type?.bind (·.identity?)

/-- The method that a step adds to the type of a package and a name. -/
def methodFor? (id : Option String × String) : FactStep → Option Method
  | .method type added => if type.identity? = some id then some added else none
  | _ => none

def receiverFor? (id : Option String × String) (name : String) (step : FactStep) :
    Option Receiver :=
  (step.methodFor? id).bind fun added => if added.name = name then some added.receiver else none

def typeFor? (node : Nat) : FactStep → Option GoType
  | .nodeType other type => if other = node then some type else none
  | _ => none

def packageFor? (node : Nat) : FactStep → Option String
  | .nodePackage other path => if other = node then some path else none
  | _ => none

def unitPackage? : FactStep → Option String
  | .unitPackage path => some path
  | _ => none

end FactStep

namespace FactTable

/-- The table after one more step. -/
def tell (facts : FactTable) : FactStep → FactTable
  | .unitPackage path => facts.setUnitPackage path
  | .nodeType node type => facts.recordType node type
  | .nodePackage node path => facts.recordPackage node path
  | .declared type => facts.declareType type
  | .method type added => facts.recordMethod type added

/-- The table that is told some steps, and nothing before. -/
def ofSteps (steps : List FactStep) : FactTable :=
  steps.foldl tell .empty

@[simp] theorem ofSteps_append_singleton (steps : List FactStep) (step : FactStep) :
    ofSteps (steps ++ [step]) = (ofSteps steps).tell step :=
  List.foldl_concat ..

/-! ### Methods -/

variable {facts : FactTable} {type other : GoType} {id : Option String × String}
  {steps : List FactStep} {step : FactStep}

private theorem methodSet?_eq_none (facts : FactTable) (h : type.identity? = none) :
    facts.methodSet? type = none := by
  rw [methodSet?, type.methodSetKey?_eq_map, h]
  rfl

/-- What is changed for one type is seen by all that have its package and name, and by no
other. -/
theorem methodSet?_updateMethods_of_identity {update : MethodSet → MethodSet}
    (htype : type.Undotted) (hother : other.Undotted) (hid : other.identity? = some id) :
    (facts.updateMethods type update).methodSet? other =
      if type.identity? = some id then some (update ((facts.methodSet? other).getD .empty))
      else facts.methodSet? other := by
  have hkey : other.methodSetKey? = some (GoType.keyOf id) := by
    rw [other.methodSetKey?_eq_map, hid]
    rfl
  have hdot : '.' ∉ id.2.toList := hother id.2 (by rw [other.name?_eq_map, hid]; rfl)
  rw [methodSet?_updateMethods_of_key hkey, type.methodSetKey?_eq_map]
  cases hsubject : type.identity? with
  | none => rfl
  | some subject =>
    have hsubjectDot : '.' ∉ subject.2.toList :=
      htype subject.2 (by rw [type.name?_eq_map, hsubject]; rfl)
    simp only [Option.map_some, Option.some.injEq, GoType.keyOf_inj hsubjectDot hdot]

private theorem methodSet?_tell (hstep : ∀ t, step.type? = some t → t.Undotted)
    (h : type.Undotted) (hid : type.identity? = some id) :
    (facts.tell step).methodSet? type =
      if step.subject? = some id then
        some (((step.methodFor? id).toList).foldl .insert ((facts.methodSet? type).getD .empty))
      else facts.methodSet? type := by
  cases step with
  | unitPackage path => rfl
  | nodeType node type => rfl
  | nodePackage node path => rfl
  | declared other =>
    rw [tell, declareType, methodSet?_updateMethods_of_identity (hstep other rfl) h hid]
    rfl
  | method other added =>
    rw [tell, recordMethod, methodSet?_updateMethods_of_identity (hstep other rfl) h hid]
    simp only [FactStep.subject?, FactStep.type?, FactStep.methodFor?, Option.bind_some]
    split
    · rfl
    · rfl

def methodsFor (steps : List FactStep) (id : Option String × String) : List Method :=
  steps.filterMap (·.methodFor? id)

private theorem methodsFor_append (steps others : List FactStep) (id : Option String × String) :
    methodsFor (steps ++ others) id = methodsFor steps id ++ methodsFor others id :=
  List.filterMap_append

@[simp] private theorem methodsFor_singleton (step : FactStep) (id : Option String × String) :
    methodsFor [step] id = (step.methodFor? id).toList := by
  rw [methodsFor, List.filterMap_cons]
  cases step.methodFor? id <;> rfl

private theorem methodsFor_eq_nil (h : some id ∉ steps.map FactStep.subject?) :
    methodsFor steps id = [] := by
  refine List.filterMap_eq_nil_iff.mpr fun step hstep => ?_
  cases step with
  | method type added =>
    refine if_neg fun hid => h (List.mem_map.mpr ⟨_, hstep, ?_⟩)
    exact hid
  | _ => rfl

/-- The methods of a name are those of the receivers that the steps record for it. -/
theorem filter_methodsFor (steps : List FactStep) (id : Option String × String) (name : String) :
    (methodsFor steps id).filter (·.name == name) =
      (steps.filterMap (·.receiverFor? id name)).map (Method.mk name) := by
  rw [methodsFor, List.filter_filterMap, List.map_filterMap]
  refine List.filterMap_congr fun step _ => ?_
  unfold FactStep.receiverFor?
  cases step.methodFor? id with
  | none => rfl
  | some added =>
    obtain ⟨word, receiver⟩ := added
    by_cases h : word = name
    · subst h
      simp
    · simp [h]

/-- A type is known if some step was about its package and name, and then has the methods
that the steps added to it. -/
theorem methodSet?_ofSteps (hsteps : ∀ step ∈ steps, ∀ t, step.type? = some t → t.Undotted)
    (h : type.Undotted) (hid : type.identity? = some id) :
    (ofSteps steps).methodSet? type =
      if some id ∈ steps.map FactStep.subject? then some (.ofList (methodsFor steps id))
      else none := by
  induction steps using List.reverseRecOn with
  | nil => simp [ofSteps, methodSet?, empty]
  | append_singleton steps step ih =>
    obtain ⟨hsteps, hstep⟩ := List.forall_mem_append.mp hsteps
    have hset : ((ofSteps steps).methodSet? type).getD .empty = .ofList (methodsFor steps id) := by
      rw [ih hsteps]
      split
      · rfl
      · rename_i hnone
        rw [methodsFor_eq_nil hnone]
        rfl
    rw [ofSteps_append_singleton, methodSet?_tell (hstep step List.mem_cons_self) h hid, hset,
      ih hsteps, methodsFor_append, List.map_append, List.map_singleton]
    by_cases hsubject : step.subject? = some id
    · rw [if_pos hsubject, if_pos (by simp [hsubject]), methodsFor_singleton, MethodSet.ofList,
        ← List.foldl_append]
      rfl
    · have hnone : methodsFor [step] id = [] := methodsFor_eq_nil (by simpa using Ne.symm hsubject)
      rw [if_neg hsubject, hnone, List.append_nil]
      simp only [List.mem_append, List.mem_singleton, Ne.symm hsubject, or_false]

/-! ### Nodes -/

/-- A question that each step answers anew, or leaves as it was, has the last answer. -/
theorem ofSteps_latest {α : Type} (look : FactTable → Option α) {answer : FactStep → Option α}
    (hempty : look .empty = none)
    (htell : ∀ facts step, look (facts.tell step) = (answer step).or (look facts))
    (steps : List FactStep) : look (ofSteps steps) = (steps.filterMap answer).getLast? := by
  induction steps using List.reverseRecOn with
  | nil => exact hempty
  | append_singleton steps step ih =>
    rw [ofSteps_append_singleton, htell, ih, List.filterMap_append, List.getLast?_append,
      List.filterMap_cons]
    cases answer step <;> rfl

@[simp] theorem packages_updateMethods (facts : FactTable) (type : GoType)
    (update : MethodSet → MethodSet) :
    (facts.updateMethods type update).packages = facts.packages := by
  unfold updateMethods
  split <;> rfl

@[simp] theorem unitPackage_updateMethods (facts : FactTable) (type : GoType)
    (update : MethodSet → MethodSet) :
    (facts.updateMethods type update).unitPackage = facts.unitPackage := by
  unfold updateMethods
  split <;> rfl

@[simp] private theorem typeOf?_tell (facts : FactTable) (step : FactStep) (node : Nat) :
    (facts.tell step).typeOf? node = (step.typeFor? node).or (facts.typeOf? node) := by
  cases step with
  | nodeType other type =>
    by_cases h : other = node
    · simp [tell, recordType, typeOf?, FactStep.typeFor?, h]
    · simp [tell, recordType, typeOf?, FactStep.typeFor?, h, Std.TreeMap.getElem?_insert]
  | declared type => simp [tell, declareType, typeOf?, FactStep.typeFor?]
  | method type added => simp [tell, recordMethod, typeOf?, FactStep.typeFor?]
  | _ => rfl

private theorem packages_tell (facts : FactTable) (step : FactStep) (node : Nat) :
    (facts.tell step).packages[node]? = (step.packageFor? node).or facts.packages[node]? := by
  cases step with
  | nodePackage other path =>
    by_cases h : other = node
    · simp [tell, recordPackage, FactStep.packageFor?, h]
    · simp [tell, recordPackage, FactStep.packageFor?, h, Std.TreeMap.getElem?_insert]
  | declared type => simp [tell, declareType, FactStep.packageFor?]
  | method type added => simp [tell, recordMethod, FactStep.packageFor?]
  | _ => rfl

@[simp] private theorem unitPackage_tell (facts : FactTable) (step : FactStep) :
    (facts.tell step).unitPackage = step.unitPackage?.or facts.unitPackage := by
  cases step with
  | declared type => simp [tell, declareType, FactStep.unitPackage?]
  | method type added => simp [tell, recordMethod, FactStep.unitPackage?]
  | _ => rfl

private theorem typeOf?_ofSteps (steps : List FactStep) (node : Nat) :
    (ofSteps steps).typeOf? node = (steps.filterMap (·.typeFor? node)).getLast? :=
  ofSteps_latest (·.typeOf? node) (by simp [typeOf?, empty])
    (fun facts step => facts.typeOf?_tell step node) steps

private theorem packagePath?_ofSteps (steps : List FactStep) (node : Nat) :
    (ofSteps steps).packagePath? node =
      ((steps.filterMap (·.packageFor? node)).getLast?).or
        (steps.filterMap (·.unitPackage?)).getLast? := by
  have hpackages := ofSteps_latest (·.packages[node]?) (by simp [empty])
    (fun facts step => facts.packages_tell step node) steps
  have hunit := ofSteps_latest (·.unitPackage) rfl unitPackage_tell steps
  rw [packagePath?, hpackages, hunit]

/-- A table that was told some steps answers by the package and the name of a type, seen
through pointers, and by the last step that is about what is asked. -/
theorem lookups_ofSteps (hsteps : ∀ step ∈ steps, ∀ t, step.type? = some t → t.Undotted)
    (h : type.Undotted) :
    (((ofSteps steps).methodSet? type).isSome = true ↔
      ∃ step ∈ steps, ∃ id, step.subject? = some id ∧ type.identity? = some id) ∧
    (∀ id set, type.identity? = some id → (ofSteps steps).methodSet? type = some set →
      set.Ascending ∧ ∀ name,
        set.get? name = (steps.filterMap (·.receiverFor? id name)).getLast?.map (Method.mk name)) ∧
    (∀ step, (∀ t, step.type? = some t → t.Undotted) →
      (∀ id, step.subject? = some id → type.identity? ≠ some id) →
        (ofSteps (steps ++ [step])).methodSet? type = (ofSteps steps).methodSet? type) ∧
    (∀ name elem, (ofSteps steps).methodSet? (.basic name) = none ∧
      (ofSteps steps).methodSet? (.slice elem) = none) ∧
    ∀ node, (ofSteps steps).typeOf? node = (steps.filterMap (·.typeFor? node)).getLast? ∧
      (ofSteps steps).packagePath? node =
        ((steps.filterMap (·.packageFor? node)).getLast?).or
          (steps.filterMap (·.unitPackage?)).getLast? := by
  refine ⟨?_, fun id set hid hset => ?_, fun step hstep hother => ?_, fun name elem => ?_,
    fun node => ⟨typeOf?_ofSteps steps node, packagePath?_ofSteps steps node⟩⟩
  · cases hid : type.identity? with
    | none => simp [methodSet?_eq_none _ hid]
    | some id =>
      rw [methodSet?_ofSteps hsteps h hid]
      simp
  · rw [methodSet?_ofSteps hsteps h hid] at hset
    split at hset
    · cases hset
      refine ⟨MethodSet.ascending_ofList _, fun name => ?_⟩
      rw [MethodSet.get?_ofList, filter_methodsFor, List.getLast?_map]
    · cases hset
  · cases hid : type.identity? with
    | none => rw [methodSet?_eq_none _ hid, methodSet?_eq_none _ hid]
    | some id =>
      rw [ofSteps_append_singleton, methodSet?_tell hstep h hid,
        if_neg fun hsubject => hother id hsubject hid]
  · exact ⟨methodSet?_eq_none _ rfl, methodSet?_eq_none _ rfl⟩

/-- Steps about types of one name, of no package and of packages of which one goes on where the
other ends. -/
def storeSteps : List FactStep :=
  [.unitPackage "app", .declared (.named (some "app") "Store"),
    .method (.pointer (.named (some "app.v2") "Store")) ⟨"Run", .value⟩,
    .method (.named none "Store") ⟨"Stop", .value⟩,
    .method (.named (some "app.v2") "Store") ⟨"Run", .pointer⟩, .unitPackage "app.v2"]

theorem lookups_storeSteps :
    (∀ step ∈ storeSteps, ∀ t, step.type? = some t → t.Undotted) ∧
    (GoType.pointer (.named (some "app.v2") "Store")).Undotted ∧
    ∃ set, (ofSteps storeSteps).methodSet? (.pointer (.named (some "app.v2") "Store")) = some set ∧
      set.get? "Run" = some ⟨"Run", .pointer⟩ ∧ set.get? "Stop" = none ∧
      (ofSteps storeSteps).packagePath? 0 = some "app.v2" := by
  have hstore : ∀ t : GoType, t.name? = some "Store" → t.Undotted := fun t ht name hname => by
    obtain rfl := Option.some.inj (ht.symm.trans hname)
    decide
  have hsteps : ∀ step ∈ storeSteps, ∀ t, step.type? = some t → t.Undotted := by
    intro step hstep t ht
    refine hstore t ?_
    simp only [storeSteps, List.mem_cons, List.not_mem_nil, or_false] at hstep
    rcases hstep with rfl | rfl | rfl | rfl | rfl | rfl <;> cases ht <;> rfl
  have htype : (GoType.pointer (.named (some "app.v2") "Store")).Undotted := hstore _ rfl
  obtain ⟨hknown, hmethods, -, -, hnode⟩ := lookups_ofSteps hsteps htype
  obtain ⟨set, hset⟩ := Option.isSome_iff_exists.mp
    (hknown.mpr ⟨_, List.mem_of_getElem? (i := 2) rfl, _, rfl, rfl⟩)
  obtain ⟨-, hget⟩ := hmethods _ set rfl hset
  refine ⟨hsteps, htype, set, hset, (hget "Run").trans ?_, (hget "Stop").trans ?_,
    (hnode 0).2.trans ?_⟩
  · decide
  · decide
  · decide

end FactTable

end Lintel
