import Lintel.Go.Frontend
import Lintel.Proofs.Except
import Lintel.Proofs.Go.Links
import Lintel.Proofs.Go.Scope

/-!
# Files with an emptied scope

What the declarations of a file say does not depend on what is in a block or a function
literal, so a file is resolved alike with the scope and without its contents, as long as no
name that the scope binds is used after it in its function. The condition is needed: a name
that is declared anew in a block and used after it gets the type that it has in the block.
-/

namespace Lintel.Go

/-! ### Reading declarations -/

section Reading

variable {t : Tree} {scope id : Nat} (hlinked : t.Linked) (hscope : t.IsScope scope)

include hlinked hscope

private theorem receiverBase?_hollow {list : Nat} (hlist : list ∉ t.descendants scope)
    (hne : list ≠ scope) :
    receiverBase? (t.hollow scope) list = receiverBase? t list := by
  unfold receiverBase?
  rw [Tree.children_hollow]
  refine Option.bind_congr fun field hfield => ?_
  have hfieldOut :=
    Tree.not_mem_descendants_of_mem_children hne hlist (List.mem_of_mem_head? hfield)
  rw [Tree.kind_hollow hfieldOut]
  split
  · rename_i names type tag hkind
    have htype : type ∉ t.descendants scope := hscope.not_mem_of_mem_refs hlinked hfieldOut hkind
      (by simp [NodeKind.tag]) (List.mem_append_right _ List.mem_cons_self)
    have htypeNe : type ≠ scope := hscope.ne_of_tag
      ((hlinked field).types type (by rw [hkind]; exact List.mem_cons_self))
    rw [Tree.kind_hollow htype]
    split
    rename_i node kind hnode
    have hnodeOut : node ∉ t.descendants scope ∧ node ≠ scope := by
      split at hnode
      · rename_i elem helem
        obtain ⟨rfl, -⟩ := Prod.mk.inj hnode
        exact ⟨hscope.not_mem_of_mem_refs hlinked htype helem (by simp [NodeKind.tag])
            List.mem_cons_self,
          hscope.ne_of_tag ((hlinked type).types elem (by rw [helem]; exact List.mem_cons_self))⟩
      · obtain ⟨rfl, -⟩ := Prod.mk.inj hnode
        exact ⟨htype, htypeNe⟩
    rw [Tree.ident?_hollow hnodeOut.1, Tree.children_hollow]
    split
    · rfl
    · refine Option.bind_congr fun child hchild => ?_
      rw [Tree.ident?_hollow (Tree.not_mem_descendants_of_mem_children hnodeOut.2 hnodeOut.1
        (List.mem_of_mem_head? hchild))]
  · rfl

private theorem fieldListTypes_hollow (s : Scope) {list : Option Nat}
    (hlist : ∀ l ∈ list, l ∉ t.descendants scope ∧ l ≠ scope) :
    fieldListTypes (t.hollow scope) s list = fieldListTypes t s list := by
  cases list with
  | none => rfl
  | some l =>
    obtain ⟨hout, hne⟩ := hlist l rfl
    rw [fieldListTypes, fieldListTypes, Tree.children_hollow]
    refine List.flatMap_congr fun field hfield => ?_
    have hfieldOut := Tree.not_mem_descendants_of_mem_children hne hout hfield
    rw [Tree.kind_hollow hfieldOut]
    split
    · rename_i names type tag hkind
      rw [typeExpr_hollow hlinked hscope s (hscope.not_mem_of_mem_refs hlinked hfieldOut hkind
        (by simp [NodeKind.tag]) (List.mem_append_right _ List.mem_cons_self))]
    · rfl

omit hlinked in
private theorem readImport_hollow (s : Scope) (h : id ∉ t.descendants scope) :
    readImport (t.hollow scope) s id = readImport t s id := by
  unfold readImport
  rw [Tree.kind_hollow h, Tree.children_hollow]
  split
  · rename_i path localName hkind
    have hne := hscope.ne_of_kind hkind (by simp [NodeKind.tag])
    refine bind_congr fun _ => ?_
    rw [List.forIn_eq_foldlM, List.forIn_eq_foldlM]
    refine congrArg (ForInStep.value <$> · >>= _) (foldlM_congr (fun child hchild _ => ?_) _)
    rw [Tree.ident?_hollow (Tree.not_mem_descendants_of_mem_children hne h hchild)]
  · rfl

private theorem readTypeName_hollow (s : Scope) (h : id ∉ t.descendants scope) :
    readTypeName (t.hollow scope) s id = readTypeName t s id := by
  unfold readTypeName
  rw [Tree.kind_hollow h]
  split
  · rename_i name type hkind
    rw [Tree.ident?_hollow (hscope.not_mem_of_mem_refs hlinked h hkind (by simp [NodeKind.tag])
      List.mem_cons_self)]
  · rfl

private theorem readField_hollow (s : Scope) (table : Env) (h : id ∉ t.descendants scope) :
    readField (t.hollow scope) s table id = readField t s table id := by
  unfold readField
  rw [Tree.kind_hollow h]
  split
  · rename_i names type tag hkind
    have hparts : ∀ part ∈ names ++ [type], part ∉ t.descendants scope := fun part hpart =>
      hscope.not_mem_of_mem_refs hlinked h hkind (by simp [NodeKind.tag]) hpart
    rw [typeExpr_hollow hlinked hscope s (hparts type (List.mem_append_right _ List.mem_cons_self))]
    split
    · rfl
    · refine foldlM_congr (fun name hname table => ?_) _
      rw [Tree.ident?_hollow (hparts name (List.mem_append_left _ hname))]
  · rfl

private theorem readFields_hollow (s : Scope) (h : id ∉ t.descendants scope) :
    readFields (t.hollow scope) s id = readFields t s id := by
  unfold readFields
  rw [Tree.kind_hollow h]
  split
  · rename_i name type hkind
    have hparts : ∀ part ∈ [name, type], part ∉ t.descendants scope := fun part hpart =>
      hscope.not_mem_of_mem_refs hlinked h hkind (by simp [NodeKind.tag]) hpart
    have htype := hparts type (List.mem_cons_of_mem _ List.mem_cons_self)
    rw [Tree.ident?_hollow (hparts name List.mem_cons_self), Tree.kind_hollow htype]
    split
    · rename_i fields _ hstruct
      have hfields : fields ∉ t.descendants scope :=
        hscope.not_mem_of_mem_refs hlinked htype hstruct (by simp [NodeKind.tag]) List.mem_cons_self
      have hne := hscope.ne_of_mem_lists hlinked hstruct List.mem_cons_self
      rw [Tree.children_hollow]
      refine congrArg (· >>= _) (foldlM_congr (fun field hfield table => ?_) ∅)
      exact readField_hollow hlinked hscope s table
        (Tree.not_mem_descendants_of_mem_children hne hfields hfield)
    · rfl
  · rfl

private theorem readSignature_hollow (s : Scope) {parts : FuncParts} (h : id ∉ t.descendants scope)
    (hkind : t.kind id = .funcDecl parts) :
    readSignature (t.hollow scope) s parts = readSignature t s parts := by
  have hrefs : ∀ ref ∈ parts.refs, ref ∉ t.descendants scope := fun ref href =>
    hscope.not_mem_of_mem_refs hlinked h hkind (by simp [NodeKind.tag]) href
  have hlists : ∀ l ∈ (NodeKind.funcDecl parts).lists, l ∉ t.descendants scope ∧ l ≠ scope :=
    fun l hl => ⟨hrefs l (NodeKind.lists_subset_refs _ hl), hscope.ne_of_mem_lists hlinked hkind hl⟩
  have hname : parts.name.bind (t.hollow scope).ident? = parts.name.bind t.ident? :=
    Option.bind_congr fun name hname =>
      Tree.ident?_hollow (hrefs name (by simp [FuncParts.refs, hname]))
  unfold readSignature
  rw [hname]
  split
  · rfl
  · rw [fieldListTypes_hollow hlinked hscope s fun l hl =>
      hlists l (by simp [NodeKind.lists, Option.mem_def.mp hl])]
    dsimp only
    split
    · rfl
    · rename_i list hreceiver
      obtain ⟨hout, hne⟩ := hlists list (by simp [NodeKind.lists, hreceiver])
      rw [receiverBase?_hollow hlinked hscope hout hne]

end Reading

/-! ### Functions and values -/

section Declarations

variable {t : Tree} {s : Scope} {scope decl : Nat} (hlinked : t.Linked) (hscope : t.IsScope scope)

include hlinked hscope

/-- Parameters and results outside the scope, as long as no name is hidden. -/
theorem alike_bindLists (s : Scope) {id : Nat} (hid : id ∉ t.descendants scope) {kind : NodeKind}
    (hkind : t.kind id = kind) (htag : kind.tag ≠ .block ∧ kind.tag ≠ .funcLit)
    {list : Option Nat} (hlist : ∀ l ∈ list, l ∈ kind.lists) (env : Env) :
    Alike (· ∈ t.descendants scope) Eq (bindFields t s env list)
      (bindFields (t.hollow scope) s env list) := by
  have houtside : ∀ l ∈ list, Outside t scope (fun _ => False) l ∧ l ≠ scope := fun l hl =>
    ⟨outside_of_not_mem (hscope.not_mem_of_mem_refs hlinked hid hkind htag
      (kind.lists_subset_refs (hlist l hl))), hscope.ne_of_mem_lists hlinked hkind (hlist l hl)⟩
  exact (alike_bindFields hlinked hscope s houtside (.refl env)).eq_of_envAgree

private theorem alike_resolveFunction (s : Scope) (hdecl : decl ∈ t.children t.root)
    (hlater : ∀ name ∈ usedAfter t scope, name ∉ boundIn t scope) :
    Alike (· ∈ t.descendants scope) (fun _ _ => True) (resolveFunction t s decl)
      (resolveFunction (t.hollow scope) s decl) := by
  have hout := hscope.not_mem_of_mem_root_children hdecl
  unfold resolveFunction
  rw [Tree.kind_hollow hout]
  split
  · rename_i parts hkind
    have hbind := fun list (hlist : ∀ l ∈ list, l ∈ (NodeKind.funcDecl parts).lists) env =>
      alike_bindLists hlinked hscope s hout hkind (by simp [NodeKind.tag]) hlist env
    refine (hbind parts.receiver (fun l hl => ?_) ∅).bind fun env env' heq => ?_
    · simp [NodeKind.lists, Option.mem_def.mp hl]
    subst heq
    refine (hbind (some parts.params) (fun l hl => ?_) env).bind fun env env' heq => ?_
    · simp [NodeKind.lists, ← Option.some.inj hl]
    subst heq
    refine (hbind parts.results (fun l hl => ?_) env).bind fun env env' heq => ?_
    · simp [NodeKind.lists, Option.mem_def.mp hl]
    subst heq
    split
    · exact .pure trivial
    · rename_i body hbody
      have href : body ∈ (NodeKind.funcDecl parts).refs := by
        simp [NodeKind.refs, FuncParts.refs, hbody]
      have hchild : body ∈ t.children decl := (hlinked decl).refs (by rw [hkind]; exact href)
      refine (alike_walkBody hlinked hscope s env
        (hscope.not_mem_of_mem_refs hlinked hout hkind (by simp [NodeKind.tag]) href)
        (.tail (.single hdecl) hchild) fun id hid name hname => ?_).bind fun _ _ _ => .pure trivial
      refine hlater name (List.mem_flatMap.mpr ⟨decl, hdecl, ?_⟩)
      rw [hkind]
      simp only [hbody, Option.toList_some, List.flatMap_singleton]
      exact List.mem_filterMap.mpr ⟨id, hid, hname⟩
  · exact .pure trivial

private theorem alike_readValues (s : Scope) (hdecl : decl ∈ t.children t.root) :
    Alike (· ∈ t.descendants scope) Eq (readValues t s decl)
      (readValues (t.hollow scope) s decl) := by
  have hout := hscope.not_mem_of_mem_root_children hdecl
  have hspecs : ∀ inner : Scope, t.tag decl ≠ .block ∧ t.tag decl ≠ .funcLit → ∀ env,
      Alike (· ∈ t.descendants scope) Eq
      ((t.children decl).foldlM (fun env spec => do
        let env ← bindSpec t inner env spec
        walkAll t (fun _ node => do let _ ← exprType t inner env node; return ()) () spec
        return env) env)
      ((t.children decl).foldlM (fun env spec => do
        let env ← bindSpec (t.hollow scope) inner env spec
        walkAll (t.hollow scope)
          (fun _ node => do let _ ← exprType (t.hollow scope) inner env node; return ()) () spec
        return env) env) := by
    intro inner htag env
    refine Alike.foldlM (fun spec hspec env env' heq => ?_) rfl
    subst heq
    have hspecOut := Tree.not_mem_descendants_of_mem_children (hscope.ne_of_tag htag) hout hspec
    have hbind := alike_bindSpec hlinked hscope inner (outside_of_not_mem hspecOut) (.refl env)
    refine hbind.eq_of_envAgree.bind fun env env' heq => ?_
    subst heq
    rw [walkAll_eq_foldlM, walkAll_eq_foldlM, Tree.preorder_hollow]
    refine (Alike.foldlM (R := fun _ _ => True) (fun node hnode _ _ _ => ?_) trivial).bind
      fun _ _ _ => .pure rfl
    by_cases hinside : node ∈ t.descendants scope
    · have hquiet := (quiet_exprType (closed_descendants hlinked) inner env hinside).alike
        (quiet_exprType (closed_hollow t scope) inner env hinside)
      exact hquiet.bind fun _ _ _ => .pure trivial
    · exact (alike_exprType hlinked hscope inner (.refl env) (outside_of_not_mem hinside)).bind
        fun _ _ _ => .pure trivial
  unfold readValues
  rw [Tree.kind_hollow hout, Tree.children_hollow]
  split
  · rename_i hkind
    refine (hspecs _ (by simp [Tree.tag, hkind, NodeKind.tag]) _).bind fun env env' heq => ?_
    exact .pure (by rw [heq])
  · rename_i hkind
    refine (hspecs _ (by simp [Tree.tag, hkind, NodeKind.tag]) _).bind fun env env' heq => ?_
    exact .pure (by rw [heq])
  · exact .pure rfl

end Declarations
/-! ### Files -/

section Files

variable {t : Tree} {scope : Nat} (hlinked : t.Linked) (hscope : t.IsScope scope)

include hlinked hscope

private theorem readNames_hollow (s : Scope) {decl : Nat} (hdecl : decl ∈ t.children t.root) :
    readNames (t.hollow scope) s decl = readNames t s decl := by
  have hout := hscope.not_mem_of_mem_root_children hdecl
  have hspec : ∀ kind, t.kind decl = kind → kind.tag ≠ .block ∧ kind.tag ≠ .funcLit →
      ∀ spec ∈ t.children decl, spec ∉ t.descendants scope := fun kind hkind htag spec hspec =>
    Tree.not_mem_descendants_of_mem_children (hscope.ne_of_kind hkind htag) hout hspec
  unfold readNames
  rw [Tree.kind_hollow hout, Tree.children_hollow]
  split
  · rename_i hkind
    exact foldlM_congr (fun spec hmem s => readImport_hollow hscope s
      (hspec _ hkind (by simp [NodeKind.tag]) spec hmem)) s
  · rename_i hkind
    exact foldlM_congr (fun spec hmem s => readTypeName_hollow hlinked hscope s
      (hspec _ hkind (by simp [NodeKind.tag]) spec hmem)) s
  · rfl

private theorem readShapes_hollow (s : Scope) {decl : Nat} (hdecl : decl ∈ t.children t.root) :
    readShapes (t.hollow scope) s decl = readShapes t s decl := by
  have hout := hscope.not_mem_of_mem_root_children hdecl
  unfold readShapes
  rw [Tree.kind_hollow hout, Tree.children_hollow]
  split
  · rename_i hkind
    exact foldlM_congr (fun spec hspec s => readFields_hollow hlinked hscope s
      (Tree.not_mem_descendants_of_mem_children
        (hscope.ne_of_kind hkind (by simp [NodeKind.tag])) hout hspec)) s
  · rename_i parts hkind
    exact readSignature_hollow hlinked hscope s hout hkind
  · rfl

/-- A file is resolved alike from one memory. -/
theorem agree_resolveFile (package : Option String)
    (hlater : ∀ name ∈ usedAfter t scope, name ∉ boundIn t scope) (m : Memory) :
    AgreeOutside (· ∈ t.descendants scope) ((resolveFile t package).run m).2
      ((resolveFile (t.hollow scope) package).run m).2 := by
  have hread : ∀ s, Alike (· ∈ t.descendants scope) (fun _ _ => True)
      ((t.children t.root).foldlM (readValues t) s >>= fun s =>
        (t.children t.root).forM (resolveFunction t s))
      ((t.children t.root).foldlM (readValues (t.hollow scope)) s >>= fun s =>
        (t.children t.root).forM (resolveFunction (t.hollow scope) s)) := by
    intro s
    refine (Alike.foldlM (R := Eq) (fun decl hdecl s s' heq => ?_) rfl).bind fun s s' heq => ?_
    · subst heq
      exact alike_readValues hlinked hscope s hdecl
    · subst heq
      exact .forM fun decl hdecl => alike_resolveFunction hlinked hscope s hdecl hlater
  have hnames : (t.children t.root).foldlM (readNames (t.hollow scope)) (Scope.empty package) =
      (t.children t.root).foldlM (readNames t) (Scope.empty package) :=
    foldlM_congr (fun decl hdecl s => readNames_hollow hlinked hscope s hdecl) _
  have hshapes : ∀ s, (t.children t.root).foldlM (readShapes (t.hollow scope)) s =
      (t.children t.root).foldlM (readShapes t) s := fun s =>
    foldlM_congr (fun decl hdecl s => readShapes_hollow hlinked hscope s hdecl) s
  unfold resolveFile
  simp only [Tree.root_hollow, Tree.children_hollow, hnames, hshapes]
  exact agree_run_bind _ hread m

/-- Where no name that a block or a function literal binds is used after it in its function,
the nodes outside have the types and the packages that they have if the scope is empty. -/
theorem resolve_hollow (package : Option String) (siblings : List (String × Method))
    (hlater : ∀ name ∈ usedAfter t scope, name ∉ boundIn t scope) :
    ∀ id ∉ t.descendants scope,
      (resolve t package siblings).typeOf? id =
        (resolve (t.hollow scope) package siblings).typeOf? id ∧
      (resolve t package siblings).packagePath? id =
        (resolve (t.hollow scope) package siblings).packagePath? id := by
  intro id hid
  have hagree := agree_resolveFile hlinked hscope package hlater
  unfold resolve FactTable.typeOf? FactTable.packagePath?
  refine ⟨(hagree _).types id hid, ?_⟩
  rw [(hagree _).packages id hid, (hagree _).unitPackage]

end Files

/-- A function with a block that declares a name, and after it one that is read from `x`. -/
def nestedBlock (name : String) : SourceFile :=
  let block := "\x7b\n\t\t" ++ name ++ " := \"s\"\n\t\t_ = " ++ name ++ "\n\t\x7d\n"
  .ofText "a.go"
    ("package a\n\nfunc f() \x7b\n\tx := 1\n\t" ++ block ++ "\ty := x\n\t_ = y\n\x7d\n") ""

theorem resolve_hollow_nestedBlock :
    ∃ t, parse (nestedBlock "z") = .ok t ∧ t.Linked ∧ t.IsScope 13 ∧
      (∀ name ∈ usedAfter t 13, name ∉ boundIn t 13) ∧ 14 ∉ t.descendants 13 ∧
      (resolve t (some "example.com/a") []).typeOf? 14 =
        (resolve (t.hollow 13) (some "example.com/a") []).typeOf? 14 := by
  have hread : (parse (nestedBlock "z")).toOption.map (fun t =>
      decide (t.IsScope 13 ∧ (∀ name ∈ usedAfter t 13, name ∉ boundIn t 13) ∧
        14 ∉ t.descendants 13)) = some true := by decide +kernel
  obtain ⟨t, hsome, hdecide⟩ := Option.map_eq_some_iff.mp hread
  obtain ⟨hscope, hlater, hout⟩ := of_decide_eq_true hdecide
  have hok : parse (nestedBlock "z") = .ok t := toOption_eq_some_iff.mp hsome
  have hlinked : t.Linked := linked_of_parse hok
  exact ⟨t, hok, hlinked, hscope, hlater, hout,
    (resolve_hollow hlinked hscope (some "example.com/a") [] hlater 14 hout).1⟩

/-- Declared in the block, `x` keeps the type that it has there, and `y` gets it. -/
theorem resolve_nestedBlock_shadowing :
    ∃ t, parse (nestedBlock "x") = .ok t ∧ t.Linked ∧ t.IsScope 13 ∧ 14 ∉ t.descendants 13 ∧
      (resolve t (some "example.com/a") []).typeOf? 14 = some (.basic "string") ∧
      (resolve (t.hollow 13) (some "example.com/a") []).typeOf? 14 = some (.basic "int") := by
  have hread : (parse (nestedBlock "x")).toOption.map (fun t =>
      decide (t.IsScope 13 ∧ 14 ∉ t.descendants 13 ∧
        (resolve t (some "example.com/a") []).typeOf? 14 = some (.basic "string") ∧
        (resolve (t.hollow 13) (some "example.com/a") []).typeOf? 14 = some (.basic "int"))) =
      some true := by decide +kernel
  obtain ⟨t, hsome, hdecide⟩ := Option.map_eq_some_iff.mp hread
  have hok : parse (nestedBlock "x") = .ok t := toOption_eq_some_iff.mp hsome
  exact ⟨t, hok, linked_of_parse hok, of_decide_eq_true hdecide⟩

end Lintel.Go
