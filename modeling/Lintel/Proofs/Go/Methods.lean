import Lintel.Go.Frontend
import Lintel.Proofs.Facts.Methods
import Lintel.Proofs.Go.Leads
import Lintel.Proofs.Go.Linked
import Lintel.Proofs.Rules.Declarations
import Lintel.Proofs.Rules.Indexes

/-!
# The methods of the types of a package

The table of a file knows the types that the file declares at its top and the types for
which some file of the package declares a method. Siblings are recorded before the file, and
the file in its order, so for each name the last method of the file counts, or else the last
of the siblings. What the file has a share in is what the index of declarations lists, and if
no method is declared twice it does not matter which file declares it.
-/

namespace Lintel

open Go

def FuncDecl.method? (decl : FuncDecl) : Option (String × Method) :=
  decl.receiver.map fun receiver => (receiver.1, ⟨decl.name, receiver.2⟩)

namespace Go

/-! ### Declarations -/

def declaredName? (t : Tree) (spec : Nat) : Option String :=
  match t.kind spec with
  | .typeSpec name _ => t.ident? name
  | _ => none

def declaredIn (t : Tree) (decl : Nat) : List String :=
  match t.kind decl with
  | .typeDecl => (t.children decl).filterMap (declaredName? t)
  | _ => []

def declaredTypes (t : Tree) : List String :=
  (t.children t.root).flatMap (declaredIn t)

def declaredMethod? (t : Tree) (decl : Nat) : Option (String × Method) :=
  match t.kind decl with
  | .funcDecl parts => do
    let name ← t.ident? (← parts.name)
    let (base, receiver) ← receiverBase? t (← parts.receiver)
    some (base, ⟨name, receiver⟩)
  | _ => none

private theorem receiverMethods_eq_filterMap (t : Tree) :
    receiverMethods t = (t.children t.root).filterMap (declaredMethod? t) :=
  rfl

section Reading

variable {t : Tree} {s : Scope} {id : Nat} {package : Option String} {declared : List String}
  {entries : List (String × Method)}

private theorem closed_everything (t : Tree) : Closed t fun _ => True :=
  ⟨fun _ _ _ _ => trivial, fun _ _ _ _ => trivial⟩

/-- Quiet computations leave the methods as they are. -/
theorem leads_of_quiet {α : Type} {c : Resolve α} {S : α → Prop}
    (h : Quiet (fun _ => True) S c) :
    Leads (·.facts.Holds package declared entries) c fun a m =>
      S a ∧ m.facts.Holds package declared entries := by
  refine h.leads fun m m' hagree hholds base => ?_
  rw [← hholds base, FactTable.methodSet?, FactTable.methodSet?, hagree.methodSets]

private theorem quiet_readImport (t : Tree) (s : Scope) (spec : Nat) :
    Quiet (fun _ => True) (fun s' => s'.package = s.package) (readImport t s spec) := by
  unfold readImport
  split
  · refine (quiet_recordPackage trivial _).bind fun _ _ => ?_
    refine (Quiet.forIn fun child _ _ => ?_).bind fun _ _ => ?_
    · split
      · exact (quiet_recordPackage trivial _).bind fun _ _ => .pure trivial
      · exact .pure trivial
    · split <;> exact .pure rfl
  · exact .pure rfl

private theorem quiet_readFields (t : Tree) (s : Scope) (spec : Nat) :
    Quiet (fun _ => True) (fun s' => s'.package = s.package) (readFields t s spec) := by
  have hfield : ∀ table field, Quiet (fun _ => True) (fun _ => True) (readField t s table field) := by
    intro table field
    unfold readField
    split
    · split
      · exact .pure trivial
      · refine Quiet.foldlM (fun name _ table _ => ?_) trivial
        split
        · exact .pure trivial
        · exact (quiet_recordType trivial _).bind fun _ _ => .pure trivial
    · exact .pure trivial
  unfold readFields
  split
  · split
    · exact (Quiet.foldlM (fun field _ table _ => hfield table field) trivial).bind
        fun _ _ => .pure rfl
    · exact .pure rfl
  · exact .pure rfl

private theorem readTypeName_leads (hs : s.package = package) :
    Leads (·.facts.Holds package declared entries) (readTypeName t s id) fun s' m =>
      s'.package = package ∧
        m.facts.Holds package (declared ++ (declaredName? t id).toList) entries := by
  unfold readTypeName
  cases hkind : t.kind id with
  | typeSpec name type =>
    have hdeclared : declaredName? t id = t.ident? name := by rw [declaredName?, hkind]
    rw [hdeclared]
    dsimp only
    cases t.ident? name with
    | none =>
      refine .pure fun m hm => ⟨hs, ?_⟩
      simpa using hm
    | some word =>
      refine Leads.bind (Leads.note fun m hm => ?_) fun _ => .pure fun m hm => ⟨hs, hm⟩
      rw [Scope.localType, hs]
      exact hm.declareType word
  | _ =>
    have hdeclared : declaredName? t id = none := by rw [declaredName?, hkind]
    refine .pure fun m hm => ⟨hs, ?_⟩
    simpa [hdeclared] using hm

private theorem readNames_leads (hs : s.package = package) :
    Leads (·.facts.Holds package declared entries) (readNames t s id) fun s' m =>
      s'.package = package ∧ m.facts.Holds package (declared ++ declaredIn t id) entries := by
  unfold readNames
  cases hkind : t.kind id with
  | importDecl =>
    have hdeclared : declaredIn t id = [] := by rw [declaredIn, hkind]
    have hquiet : Quiet (fun _ => True) (fun s' => s'.package = package)
        ((t.children id).foldlM (readImport t) s) :=
      .foldlM (fun spec _ s hs => (quiet_readImport t s spec).mono fun _ _ h => h.trans hs) hs
    rw [hdeclared, List.append_nil]
    exact leads_of_quiet hquiet
  | typeDecl =>
    have hdeclared : declaredIn t id = (t.children id).filterMap (declaredName? t) := by
      rw [declaredIn, hkind]
    rw [hdeclared]
    refine (Leads.foldlM (I := fun done (s : Scope) m => s.package = package ∧
      m.facts.Holds package (declared ++ done.filterMap (declaredName? t)) entries)
      (fun done spec _ _ s m ⟨hs, hm⟩ => ?_) s).weaken fun m hm => ⟨hs, by simpa using hm⟩
    rw [List.filterMap_append, ← List.append_assoc]
    exact readTypeName_leads hs m hm
  | _ =>
    have hdeclared : declaredIn t id = [] := by rw [declaredIn, hkind]
    refine .pure fun m hm => ⟨hs, ?_⟩
    simpa [hdeclared] using hm

private theorem readSignature_leads {parts : FuncParts} (hkind : t.kind id = .funcDecl parts)
    (hs : s.package = package) :
    Leads (·.facts.Holds package declared entries) (readSignature t s parts) fun s' m =>
      s'.package = package ∧
        m.facts.Holds package declared (entries ++ (declaredMethod? t id).toList) := by
  have hmethod : declaredMethod? t id = (parts.name.bind t.ident?).bind fun name =>
      (parts.receiver.bind (receiverBase? t)).bind fun found =>
        some (found.1, ⟨name, found.2⟩) := by
    rw [declaredMethod?, hkind]
    dsimp only
    cases parts.name <;> cases parts.receiver <;> rfl
  have hkeep : declaredMethod? t id = none → ∀ (s' : Scope) (m : Memory), s'.package = package →
      m.facts.Holds package declared entries → s'.package = package ∧
        m.facts.Holds package declared (entries ++ (declaredMethod? t id).toList) := by
    intro hnone s' m hs' hm
    rw [hnone]
    exact ⟨hs', by simpa using hm⟩
  unfold readSignature
  cases hname : parts.name.bind t.ident? with
  | none =>
    exact .pure fun m hm => hkeep (by simp [hmethod, hname]) _ m hs hm
  | some name =>
    dsimp only
    cases hreceiver : parts.receiver with
    | none =>
      exact .pure fun m hm => hkeep (by simp [hmethod, hreceiver]) _ m hs hm
    | some list =>
      dsimp only
      cases hbase : receiverBase? t list with
      | none =>
        exact .pure fun m hm => hkeep (by simp [hmethod, hreceiver, hbase]) _ m hs hm
      | some found =>
        obtain ⟨base, receiver⟩ := found
        have hsome : declaredMethod? t id = some (base, ⟨name, receiver⟩) := by
          simp [hmethod, hname, hreceiver, hbase]
        rw [hsome]
        refine Leads.bind (Leads.note fun m hm => ?_) fun _ => .pure fun m hm => ⟨hs, hm⟩
        rw [Scope.localType, hs]
        exact hm.recordMethod base ⟨name, receiver⟩

private theorem readShapes_leads (hs : s.package = package) :
    Leads (·.facts.Holds package declared entries) (readShapes t s id) fun s' m =>
      s'.package = package ∧
        m.facts.Holds package declared (entries ++ (declaredMethod? t id).toList) := by
  unfold readShapes
  cases hkind : t.kind id with
  | typeDecl =>
    have hnone : declaredMethod? t id = none := by rw [declaredMethod?, hkind]
    have hquiet : Quiet (fun _ => True) (fun s' => s'.package = package)
        ((t.children id).foldlM (readFields t) s) :=
      .foldlM (fun spec _ s hs => (quiet_readFields t s spec).mono fun _ _ h => h.trans hs) hs
    rw [hnone, Option.toList_none, List.append_nil]
    exact leads_of_quiet hquiet
  | funcDecl parts => exact readSignature_leads hkind hs
  | _ =>
    have hnone : declaredMethod? t id = none := by rw [declaredMethod?, hkind]
    refine .pure fun m hm => ⟨hs, ?_⟩
    simpa [hnone] using hm

/-- Reading a file makes its types and its methods known and leaves the others as they are. -/
theorem resolveFile_leads (t : Tree) (package : Option String)
    (siblings : List (String × Method)) :
    Leads (·.facts.Holds package [] siblings) (resolveFile t package) fun _ m =>
      m.facts.Holds package (declaredTypes t) (siblings ++ receiverMethods t) := by
  have hnames : Leads (·.facts.Holds package [] siblings)
      ((t.children t.root).foldlM (readNames t) (Scope.empty package)) fun s m =>
        s.package = package ∧ m.facts.Holds package (declaredTypes t) siblings := by
    refine (Leads.foldlM (I := fun done (s : Scope) m => s.package = package ∧
      m.facts.Holds package (done.flatMap (declaredIn t)) siblings)
      (fun done decl _ _ s m ⟨hs, hm⟩ => ?_) _).weaken fun m hm => ⟨rfl, hm⟩
    rw [List.flatMap_append, List.flatMap_singleton]
    exact readNames_leads hs m hm
  have hshapes : ∀ s : Scope, s.package = package →
      Leads (·.facts.Holds package (declaredTypes t) siblings)
        ((t.children t.root).foldlM (readShapes t) s) fun _ m =>
          m.facts.Holds package (declaredTypes t) (siblings ++ receiverMethods t) := by
    intro s hs
    refine ((Leads.foldlM (I := fun done (s : Scope) m => s.package = package ∧
      m.facts.Holds package (declaredTypes t) (siblings ++ done.filterMap (declaredMethod? t)))
      (fun done decl _ _ s m ⟨hs, hm⟩ => ?_) s).weaken fun m hm => ⟨hs, by simpa using hm⟩).mono
        fun _ _ hm => hm.2
    rw [List.filterMap_append, ← List.append_assoc]
    exact readShapes_leads hs m hm
  have hbodies : ∀ s, Quiet (fun _ => True) (fun _ => True) (do
      let s ← (t.children t.root).foldlM (readValues t) s
      (t.children t.root).forM (resolveFunction t s)) := fun s =>
    (Quiet.foldlM (fun decl _ s _ => quiet_readValues (closed_everything t) s trivial) trivial).bind
      fun s _ => .forM fun decl _ => quiet_resolveFunction (closed_everything t) s trivial
  have hrest := fun s hs => (hshapes s hs).bind fun s =>
    (leads_of_quiet (hbodies s)).mono fun _ _ hm => hm.2
  exact hnames.bind fun s m ⟨hs, hm⟩ => hrest s hs m hm

end Reading

/-! ### Files -/

section Files

variable {t : Tree} {package : Option String} {siblings : List (String × Method)}
  {base name : String}

/-- The methods of a type are those of the siblings and after them those of the file. -/
theorem methodSet?_resolve_eq (t : Tree) (package : Option String)
    (siblings : List (String × Method)) (base : String) :
    (resolve t package siblings).methodSet? (.named package base) =
      if base ∈ declaredTypes t ∨ base ∈ (siblings ++ receiverMethods t).map (·.1) then
        some (.ofList (methodsOfBase (siblings ++ receiverMethods t) base))
      else
        none := by
  have hempty : ({ FactTable.empty with unitPackage := package } : FactTable).Holds package [] [] :=
    FactTable.holds_nil rfl package
  exact resolveFile_leads t package siblings ⟨_, ∅⟩ (hempty.foldl_recordMethod siblings) base

/-- The last entry for a method of a type. -/
def lastMethod? (entries : List (String × Method)) (base name : String) : Option Method :=
  (entries.filter fun entry => entry.1 == base && entry.2.name == name).getLast?.map (·.2)

private theorem getLast?_methodsOfBase (entries : List (String × Method)) (base name : String) :
    ((methodsOfBase entries base).filter (·.name == name)).getLast? =
      lastMethod? entries base name := by
  rw [methodsOfBase, List.filter_map, List.getLast?_map, List.filter_filter, lastMethod?]
  simp only [Function.comp_def, Bool.and_comm]

def namedBase? (t : Tree) (node : Nat) (receiver : Receiver) : Option (String × Receiver) :=
  ((t.ident? node).or ((t.children node).head?.bind t.ident?)).map fun name => (name, receiver)

private theorem namedBase?_eq (t : Tree) (node : Nat) (receiver : Receiver) :
    namedBase? t node receiver =
      (match t.ident? node with
      | some base => some (base, receiver)
      | none => do
        let base ← t.ident? (← (t.children node).head?)
        some (base, receiver)) := by
  rw [namedBase?]
  cases t.ident? node with
  | some base => rfl
  | none =>
    cases (t.children node).head? with
    | none => rfl
    | some first =>
      dsimp only [Option.bind_eq_bind, Option.bind_some, Option.none_or]
      cases t.ident? first with
      | none => rfl
      | some base => rfl

private theorem receiverBase?_of_field {list field type : Nat} {names : List Nat}
    {tag : Option String}
    (hfirst : (t.children list).head? = some field) (hkind : t.kind field = .field names type tag) :
    receiverBase? t list =
      match t.kind type with
      | .pointerType elem => namedBase? t elem .pointer
      | _ => namedBase? t type .value := by
  unfold receiverBase?
  rw [hfirst, Option.bind_eq_bind, Option.bind_some, hkind]
  dsimp only
  cases t.kind type with
  | pointerType elem => exact (namedBase?_eq t elem .pointer).symm
  | _ => exact (namedBase?_eq t type .value).symm

private theorem receiver?_eq {list : Nat} {found : Option (String × Receiver)}
    (h : t.receiver? list = .ok found) : found = receiverBase? t list := by
  unfold Tree.receiver? at h
  cases hfirst : (t.children list).head? with
  | none =>
    rw [hfirst] at h
    cases h
    simp [receiverBase?, hfirst]
  | some field =>
    rw [hfirst, Option.map_some] at h
    cases hkind : t.kind field with
    | field names type tag =>
      rw [receiverBase?_of_field hfirst hkind]
      rw [hkind] at h
      obtain ⟨followed, htype, hbase⟩ := bind_eq_ok.mp h
      obtain rfl := (Tree.follow_eq_ok_iff.mp htype).2
      dsimp only at hbase ⊢
      cases hpointer : t.kind followed with
      | pointerType elem =>
        rw [hpointer] at hbase
        obtain ⟨base, helem, hname⟩ := bind_eq_ok.mp hbase
        obtain rfl := (Tree.follow_eq_ok_iff.mp helem).2
        cases hname
        rfl
      | _ =>
        rw [hpointer] at hbase
        cases hbase
        rfl
    | _ =>
      rw [hkind] at h
      cases h
      simp [receiverBase?, hfirst, hkind]

/-- The index of declarations sees the same method in a declaration. -/
theorem funcDecl?_method {decl : Nat} {found : Option FuncDecl} (htag : t.tag decl = .funcDecl)
    (h : t.funcDecl? decl = .ok found) :
    found.bind FuncDecl.method? = declaredMethod? t decl ∧ ∀ f ∈ found, f.node = decl := by
  cases hkind : t.kind decl with
  | funcDecl parts =>
    unfold Tree.funcDecl? at h
    rw [declaredMethod?, hkind]
    rw [hkind] at h
    dsimp only [NodeKind.funcParts?] at h ⊢
    cases hname : parts.name with
    | none =>
      rw [hname] at h
      cases h
      exact ⟨rfl, by simp⟩
    | some name =>
      rw [hname] at h
      obtain ⟨followed, hfollow, hrest⟩ := bind_eq_ok.mp h
      obtain rfl := (Tree.follow_eq_ok_iff.mp hfollow).2
      cases hword : t.ident? followed with
      | none =>
        rw [hword] at hrest
        cases hrest
        simp [hword]
      | some word =>
        rw [hword] at hrest
        cases hreceiver : parts.receiver with
        | none =>
          rw [hreceiver] at hrest
          cases hrest
          simp [FuncDecl.method?]
        | some list =>
          rw [hreceiver] at hrest
          obtain ⟨followedList, hlist, hfunc⟩ := bind_eq_ok.mp hrest
          obtain rfl := (Tree.follow_eq_ok_iff.mp hlist).2
          obtain ⟨receiver, hbase, hfunc⟩ := bind_eq_ok.mp hfunc
          obtain rfl := receiver?_eq hbase
          cases hfunc
          cases hbase : receiverBase? t followedList with
          | none => simp [hbase, FuncDecl.method?]
          | some base => simp [hword, hbase, FuncDecl.method?]
  | _ =>
    rw [Tree.tag, hkind] at htag
    cases htag

private theorem filterMap_method?_of_forall₂ {ids : List Nat} {found : List (Option FuncDecl)}
    (h : List.Forall₂ (fun id decl => t.funcDecl? id = .ok decl) ids found)
    (htags : ∀ id ∈ ids, t.tag id = .funcDecl) (base : String) :
    (((found.filterMap id).filter fun decl => decl.receiver.any fun r => r.1 == base).filter
        (·.node ∈ t.children t.root)).filterMap FuncDecl.method? =
      ((ids.filter (· ∈ t.children t.root)).filterMap (declaredMethod? t)).filter
        (·.1 == base) := by
  induction h with
  | nil => rfl
  | @cons id found ids rest hfound _ ih =>
    have hih := ih fun id hid => htags id (List.mem_cons_of_mem _ hid)
    obtain ⟨hmethod, hnode⟩ := funcDecl?_method (htags id List.mem_cons_self) hfound
    by_cases htop : id ∈ t.children t.root
    · cases found with
      | none =>
        have hnone : declaredMethod? t id = none := hmethod.symm
        simpa [htop, hnone] using hih
      | some decl =>
        obtain rfl := hnode decl rfl
        rw [Option.bind_some] at hmethod
        cases hreceiver : decl.receiver with
        | none =>
          have hnone : declaredMethod? t decl.node = none := by
            rw [← hmethod, FuncDecl.method?, hreceiver, Option.map_none]
          simpa [htop, hnone, hreceiver] using hih
        | some receiver =>
          have hsome : declaredMethod? t decl.node = some (receiver.1, ⟨decl.name, receiver.2⟩) := by
            rw [← hmethod, FuncDecl.method?, hreceiver, Option.map_some]
          by_cases hbase : receiver.1 = base
          · simpa [htop, hsome, hreceiver, hbase, hmethod] using hih
          · simpa [htop, hsome, hreceiver, hbase] using hih
    · cases found with
      | none => simpa [htop] using hih
      | some decl =>
        obtain rfl := hnode decl rfl
        cases hany : decl.receiver.any fun r => r.1 == base with
        | false => simpa [htop, hany] using hih
        | true => simpa [htop, hany] using hih

/-- What the index of declarations lists for the top-level methods of a type is the share of
the file in the methods of that type. -/
theorem methodsOf_ofIndex {decls : Declarations}
    (h : Declarations.ofIndex t (.ofTree t) = .ok decls) (base : String) :
    ((decls.methodsOf base).filter (·.node ∈ t.children t.root)).filterMap FuncDecl.method? =
      (receiverMethods t).filter (·.1 == base) := by
  obtain ⟨found, hfound, hfuncs⟩ := funcs_ofIndex h
  have hlisted := filterMap_method?_of_forall₂ hfound
    (fun id hid => beq_iff_eq.mp (List.mem_filter.mp hid).2) base
  have htop : ((t.preorder t.root).filter fun id => t.tag id == .funcDecl).filter
      (· ∈ t.children t.root) = (t.children t.root).filter fun id => t.tag id == .funcDecl := by
    rw [List.filter_comm, t.preorder_filter_children]
  have hmethods : ((t.children t.root).filter fun id => t.tag id == .funcDecl).filterMap
      (declaredMethod? t) = receiverMethods t := by
    rw [receiverMethods_eq_filterMap, List.filterMap_filter]
    refine List.filterMap_congr fun decl _ => ?_
    cases hkind : t.kind decl with
    | funcDecl parts => simp [Tree.tag, hkind, NodeKind.tag]
    | _ => simp [Tree.tag, hkind, NodeKind.tag, declaredMethod?]
  rw [Declarations.methodsOf, hfuncs, hlisted, htop, hmethods]

private theorem methodSet?_resolve_of_perm {t' : Tree} {siblings' : List (String × Method)}
    (hdeclared : base ∈ declaredTypes t) (hdeclared' : base ∈ declaredTypes t')
    (hperm : (receiverMethods t ++ siblings).Perm (receiverMethods t' ++ siblings'))
    (hnodup : ((receiverMethods t ++ siblings).map fun entry => (entry.1, entry.2.name)).Nodup) :
    (resolve t' package siblings').methodSet? (.named package base) =
      (resolve t package siblings).methodSet? (.named package base) := by
  have hrecorded : (siblings ++ receiverMethods t).Perm (siblings' ++ receiverMethods t') :=
    List.perm_append_comm.trans (hperm.trans List.perm_append_comm)
  have hbase : (methodsOfBase (siblings ++ receiverMethods t) base).Perm
      (methodsOfBase (siblings' ++ receiverMethods t') base) := (hrecorded.filter _).map _
  have hnames : ((siblings ++ receiverMethods t).map fun entry => (entry.1, entry.2.name)).Nodup :=
    (List.perm_append_comm.map _).nodup_iff.mp hnodup
  rw [methodSet?_resolve_eq, methodSet?_resolve_eq, if_pos (.inl hdeclared'),
    if_pos (.inl hdeclared), MethodSet.ofList_eq_of_perm hbase (nodup_methodsOfBase base hnames)]

/-- A type of the package is known if the file declares it or some file declares a method of
it, and each of its methods is the last that the file declares under that name, or else the
last among the siblings. The share of the file is what the index of declarations lists, and
methods that are declared once may be declared by any file. -/
theorem resolve_methods (t : Tree) (package : Option String) (siblings : List (String × Method))
    (base : String) :
    (((resolve t package siblings).methodSet? (.named package base)).isSome ↔
      base ∈ declaredTypes t ∨ base ∈ (receiverMethods t ++ siblings).map (·.1)) ∧
    (∀ set, (resolve t package siblings).methodSet? (.named package base) = some set →
      set.Ascending ∧ ∀ name, set.get? name =
        (lastMethod? (receiverMethods t) base name).or (lastMethod? siblings base name)) ∧
    (∀ decls, Declarations.ofIndex t (.ofTree t) = .ok decls →
      ((decls.methodsOf base).filter (·.node ∈ t.children t.root)).filterMap FuncDecl.method? =
        (receiverMethods t).filter (·.1 == base)) ∧
    (t.Grounded → ∃ decls, Declarations.ofIndex t (.ofTree t) = .ok decls) ∧
    (∀ (t' : Tree) (siblings' : List (String × Method)),
      base ∈ declaredTypes t → base ∈ declaredTypes t' →
      (receiverMethods t ++ siblings).Perm (receiverMethods t' ++ siblings') →
      ((receiverMethods t ++ siblings).map fun entry => (entry.1, entry.2.name)).Nodup →
        (resolve t' package siblings').methodSet? (.named package base) =
          (resolve t package siblings).methodSet? (.named package base)) := by
  refine ⟨?_, fun set hset => ?_, fun decls hdecls => methodsOf_ofIndex hdecls base,
    fun hgrounded => exists_ofIndex hgrounded _, fun t' siblings' => methodSet?_resolve_of_perm⟩
  · rw [methodSet?_resolve_eq]
    simp only [List.map_append, List.mem_append, Option.isSome_ite, or_comm]
  · rw [methodSet?_resolve_eq] at hset
    split at hset
    · obtain rfl := Option.some.inj hset
      refine ⟨MethodSet.ascending_ofList _, fun name => ?_⟩
      rw [MethodSet.get?_ofList, methodsOfBase_append, List.filter_append, List.getLast?_append,
        getLast?_methodsOfBase, getLast?_methodsOfBase]
    · cases hset

end Files

def typeWithMethods (more : String) : SourceFile :=
  .ofText "a.go"
    ("package a\n\ntype T struct\x7b\x7d\n\nfunc (t *T) Get() \x7b\x7d\n" ++ more) ""

/-- The method `Put` may be declared by the file of its type or by another one. -/
theorem resolve_methods_typeWithMethods :
    ∃ t t', parse (typeWithMethods "\nfunc (t T) Put() \x7b\x7d\n") = .ok t ∧
      parse (typeWithMethods "") = .ok t' ∧
      (∃ set, (resolve t (some "example.com/a") []).methodSet? (.named (some "example.com/a") "T") =
        some set ∧ set.get? "Get" = some ⟨"Get", .pointer⟩ ∧
          set.get? "Put" = some ⟨"Put", .value⟩) ∧
      (∃ decls, Declarations.ofIndex t (.ofTree t) = .ok decls ∧
        ((decls.methodsOf "T").filter (·.node ∈ t.children t.root)).filterMap FuncDecl.method? =
          [("T", ⟨"Get", .pointer⟩), ("T", ⟨"Put", .value⟩)]) ∧
      (resolve t' (some "example.com/a") [("T", ⟨"Put", .value⟩)]).methodSet?
          (.named (some "example.com/a") "T") =
        (resolve t (some "example.com/a") []).methodSet? (.named (some "example.com/a") "T") := by
  have hread : (parse (typeWithMethods "\nfunc (t T) Put() \x7b\x7d\n")).toOption.map (fun t =>
      decide (declaredTypes t = ["T"] ∧
        receiverMethods t = [("T", ⟨"Get", .pointer⟩), ("T", ⟨"Put", .value⟩)])) = some true := by
    decide +kernel
  have hread' : (parse (typeWithMethods "")).toOption.map (fun t =>
      decide (declaredTypes t = ["T"] ∧ receiverMethods t = [("T", ⟨"Get", .pointer⟩)])) =
        some true := by
    decide +kernel
  obtain ⟨t, hok, hdecide⟩ := Option.map_eq_some_iff.mp hread
  obtain ⟨htypes, hmethods⟩ := of_decide_eq_true hdecide
  obtain ⟨t', hok', hdecide'⟩ := Option.map_eq_some_iff.mp hread'
  obtain ⟨htypes', hmethods'⟩ := of_decide_eq_true hdecide'
  obtain ⟨hknown, hset, hlisted, hserved, hmoved⟩ :=
    resolve_methods t (some "example.com/a") [] "T"
  have hgrounded : t.Grounded := grounded_of_parseWith (toOption_eq_some_iff.mp hok)
  refine ⟨t, t', toOption_eq_some_iff.mp hok, toOption_eq_some_iff.mp hok', ?_, ?_, ?_⟩
  · obtain ⟨set, hsome⟩ := Option.isSome_iff_exists.mp (hknown.mpr (.inl (by simp [htypes])))
    refine ⟨set, hsome, ?_, ?_⟩
    · rw [(hset set hsome).2, hmethods]
      rfl
    · rw [(hset set hsome).2, hmethods]
      rfl
  · obtain ⟨decls, hdecls⟩ := hserved hgrounded
    refine ⟨decls, hdecls, ?_⟩
    rw [hlisted decls hdecls, hmethods]
    rfl
  · refine hmoved t' _ (by simp [htypes]) (by simp [htypes']) ?_ ?_
    · rw [hmethods, hmethods']
      rfl
    · rw [hmethods]
      decide

end Go

end Lintel
