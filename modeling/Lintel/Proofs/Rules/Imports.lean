import Lintel.Proofs.Go.Imports
import Lintel.Proofs.Go.Order
import Lintel.Proofs.Rules.Declarations
import Lintel.Proofs.Rules.Questions
import Lintel.Proofs.Rules.Style
import Mathlib.Data.List.Chain

/-!
# The order of imports

Each import is compared with the one before it, over all declarations of imports of a file. An import
is late if its class is below that of its neighbour. Where none is late the classes ascend, so that
the imports stand in three groups: standard, third-party and internal ones.
-/

namespace Lintel

open Lintel.Text

/-! ### Classes -/

/-- A path contains the prefix of the module, if there is a module. -/
def MentionsModule (path : String) (module : Option String) : Prop :=
  ∃ m ∈ module, m.toList <:+: path.toList

/-- The class of the imports with a path. -/
inductive ClassOf (path : String) (module : Option String) : ImportClass → Prop
  | internal (h : MentionsModule path module) : ClassOf path module .internal
  | thirdParty (h : ¬ MentionsModule path module) (hdot : '.' ∈ path.toList) :
    ClassOf path module .thirdParty
  | standard (h : ¬ MentionsModule path module) (hdot : '.' ∉ path.toList) :
    ClassOf path module .standard

private theorem mentions_dot_iff {path : String} :
    mentions "." path = true ↔ '.' ∈ path.toList := by
  rw [mentions_iff]
  constructor
  · rintro ⟨before, tail, htext⟩
    rw [← htext]
    simp
  · intro hmem
    obtain ⟨before, tail, htext⟩ := List.append_of_mem hmem
    exact ⟨before, tail, by rw [htext]; simp⟩

private theorem classOf_ofPath (path : String) (module : Option String) :
    ClassOf path module (.ofPath path module) := by
  have hmodule : (module.any fun m => mentions m path) = true ↔ MentionsModule path module := by
    cases module <;> simp [MentionsModule, mentions_iff]
  unfold ImportClass.ofPath
  split
  · rename_i h
    exact .internal (hmodule.mp h)
  · rename_i h
    split
    · rename_i hdot
      exact .thirdParty (fun hmentions => h (hmodule.mpr hmentions)) (mentions_dot_iff.mp hdot)
    · rename_i hdot
      exact .standard (fun hmentions => h (hmodule.mpr hmentions))
        fun hmem => hdot (mentions_dot_iff.mpr hmem)

theorem ClassOf.eq_ofPath {path : String} {module : Option String} {c : ImportClass}
    (h : ClassOf path module c) : ImportClass.ofPath path module = c := by
  have hpath := classOf_ofPath path module
  generalize ImportClass.ofPath path module = other at hpath
  cases h with
  | internal hmodule =>
    cases hpath with
    | internal => rfl
    | thirdParty hnot | standard hnot => exact absurd hmodule hnot
  | thirdParty hnot hdot =>
    cases hpath with
    | internal hmodule => exact absurd hmodule hnot
    | thirdParty => rfl
    | standard _ hno => exact absurd hdot hno
  | standard hnot hno =>
    cases hpath with
    | internal hmodule => exact absurd hmodule hnot
    | thirdParty _ hdot => exact absurd hdot hno
    | standard => rfl

/-! ### Imports of a file -/

/-- An import of a tree with its path and its class. -/
structure ClassedImport (t : Tree) (module : Option String) where
  node : Nat
  path : String
  group : ImportClass
  written : ∃ localName, t.kind node = .importSpec path localName
  classed : ClassOf path module group

/-- Some imports are all of a tree that is read from concrete syntax, in their order in the
source: they are those of the syntax in document order, one by one. -/
structure ListsImports {t : Tree} {module : Option String} (file : SourceFile) (root : Go.Concrete)
    (imports : List (ClassedImport t module)) : Prop where
  complete : ∀ id path localName, t.kind id = .importSpec path localName →
    ∃ i ∈ imports, i.node = id
  visited : (imports.map (·.node)).Sublist (t.preorder t.root)
  written : imports.map (fun i => (t.span i.node, i.path)) =
    root.keptNodes.filterMap (Go.Concrete.import? file)
  ascending : root.Ordered →
    imports.Pairwise fun a b => (t.span a.node).start ≤ (t.span b.node).start

section Lists

variable {t : Tree} {module : Option String} {imports : List (ClassedImport t module)}

theorem importPaths_ofTree (t : Tree) : importPaths t (.ofTree t) =
    (t.preorder t.root).filterMap fun id => (t.node id).import?.map fun found => (id, found.2) := by
  rw [importPaths, NodeIndex.nodes_ofTree, List.filterMap_filter]
  refine List.filterMap_congr fun id _ => ?_
  unfold Node.import? Tree.tag Tree.kind
  cases (t.node id).kind <;> rfl

private theorem mem_importPaths_iff {id : Nat} {path : String} :
    (id, path) ∈ importPaths t (.ofTree t) ↔
      ∃ localName, t.kind id = .importSpec path localName := by
  rw [importPaths_ofTree, List.mem_filterMap]
  constructor
  · rintro ⟨other, -, hother⟩
    obtain ⟨found, hfound, hsame⟩ := Option.map_eq_some_iff.mp hother
    obtain ⟨rfl, rfl⟩ := Prod.mk.inj hsame
    exact (Node.import?_eq_some_iff.mp hfound).2
  · rintro ⟨localName, hkind⟩
    have hfound : (t.node id).import? = some (t.span id, path) :=
      Node.import?_eq_some_iff.mpr ⟨rfl, localName, hkind⟩
    exact ⟨id, Tree.mem_preorder_root (by simp [hkind]), by rw [hfound]; rfl⟩

private theorem map_importPaths (t : Tree) :
    (importPaths t (.ofTree t)).map (fun p => (t.span p.1, p.2)) = t.imports t.root := by
  rw [importPaths_ofTree, List.map_filterMap, Tree.imports]
  refine List.filterMap_congr fun id _ => ?_
  cases hfound : (t.node id).import? with
  | none => rfl
  | some found =>
    have hspan : t.span id = found.1 := (Node.import?_eq_some_iff.mp hfound).1
    rw [Option.map_some, Option.map_some, hspan]

private theorem exists_classedImports (t : Tree) (module : Option String) :
    ∃ imports : List (ClassedImport t module),
      imports.map (fun i => (i.node, i.path)) = importPaths t (.ofTree t) := by
  refine ⟨(importPaths t (.ofTree t)).pmap (fun p h => ⟨p.1, p.2, .ofPath p.2 module, h,
    classOf_ofPath p.2 module⟩) fun p hp => mem_importPaths_iff.mp hp, ?_⟩
  rw [List.map_pmap]
  exact List.pmap_eq_self.mpr fun _ _ => rfl

private theorem listsImports {read : String → Option Go.Concrete} {file : SourceFile}
    (hread : Go.parseWith read file = .ok t)
    (h : imports.map (fun i => (i.node, i.path)) = importPaths t (.ofTree t)) :
    ∃ root, read file.content = some root ∧ ListsImports file root imports := by
  obtain ⟨root, hroot, hnodes, himports⟩ := Go.imports_of_parseWith hread
  have hvisited : (imports.map (·.node)).Sublist (t.preorder t.root) := by
    have hids : imports.map (·.node) = (importPaths t (.ofTree t)).map (·.1) := by
      rw [← h, List.map_map]
      rfl
    rw [hids, importPaths_ofTree]
    refine map_filterMap_sublist (fun id p hp => ?_) _
    obtain ⟨found, -, rfl⟩ := Option.map_eq_some_iff.mp hp
    rfl
  have hwritten : imports.map (fun i => (t.span i.node, i.path)) =
      root.keptNodes.filterMap (Go.Concrete.import? file) := by
    rw [← himports, ← map_importPaths, ← h, List.map_map]
    rfl
  refine ⟨root, hroot, fun id path localName hkind => ?_, hvisited, hwritten, fun hordered => ?_⟩
  · have hmem : (id, path) ∈ imports.map (fun i => (i.node, i.path)) :=
      h ▸ mem_importPaths_iff.mpr ⟨localName, hkind⟩
    obtain ⟨i, hi, hsame⟩ := List.mem_map.mp hmem
    exact ⟨i, hi, (Prod.mk.inj hsame).1⟩
  · have hstarts : (root.keptNodes.filterMap (Go.Concrete.import? file)).Pairwise
        fun a b => a.1.start ≤ b.1.start := by
      refine List.pairwise_filterMap.mpr (hordered.pairwise_keptNodes.imp ?_)
      intro a b hab found hfound other hother
      rwa [Go.Concrete.span_of_import? hfound, Go.Concrete.span_of_import? hother]
    rw [← hwritten] at hstarts
    rwa [List.pairwise_map] at hstarts

end Lists

/-! ### Neighbours -/

section Neighbours

variable {α : Type} {as : List α} {a b : α}

private theorem mem_zip_tail_iff :
    (a, b) ∈ as.zip as.tail ↔ ∃ before after, as = before ++ a :: b :: after := by
  induction as with
  | nil => simp
  | cons first rest ih =>
    cases rest with
    | nil =>
      refine iff_of_false (by simp) fun ⟨before, after, hsplit⟩ => ?_
      have hlength := congrArg List.length hsplit
      simp only [List.length_cons, List.length_nil, List.length_append] at hlength
      omega
    | cons second rest =>
      rw [List.tail_cons] at ih
      rw [List.tail_cons, List.zip_cons_cons, List.mem_cons, ih]
      constructor
      · rintro (heq | ⟨before, after, hrest⟩)
        · obtain ⟨rfl, rfl⟩ := Prod.mk.inj heq
          exact ⟨[], rest, rfl⟩
        · exact ⟨first :: before, after, by rw [hrest]; rfl⟩
      · rintro ⟨before, after, hsplit⟩
        cases before with
        | nil =>
          obtain ⟨hfirst, hrest⟩ := List.cons.inj hsplit
          exact .inl (Prod.ext hfirst.symm (List.cons.inj hrest).1.symm)
        | cons other before => exact .inr ⟨before, after, (List.cons.inj hsplit).2⟩

private theorem map_snd_zip_tail (as : List α) : (as.zip as.tail).map (·.2) = as.tail :=
  List.map_snd_zip (by simp)

/-- If no entry is below the one before it, then none is below any before it. -/
theorem filter_zip_tail_eq_nil_iff (rank : α → Nat) :
    (as.zip as.tail).filter (fun p => rank p.2 < rank p.1) = [] ↔
      as.Pairwise fun a b => rank a ≤ rank b := by
  have hchain : (as.zip as.tail).filter (fun p => rank p.2 < rank p.1) = [] ↔
      as.IsChain fun a b => rank a ≤ rank b := by
    rw [List.filter_eq_nil_iff, List.isChain_iff_forall_rel_of_append_cons_cons]
    constructor
    · intro h a b before after hsplit
      simpa using h (a, b) (mem_zip_tail_iff.mpr ⟨before, after, hsplit⟩)
    · rintro h ⟨a, b⟩ hp
      obtain ⟨before, after, hsplit⟩ := mem_zip_tail_iff.mp hp
      simpa using h hsplit
  have htrans : IsTrans α fun a b => rank a ≤ rank b := ⟨fun _ _ _ => Nat.le_trans⟩
  exact hchain.trans List.isChain_iff_pairwise

end Neighbours

/-! ### Late imports -/

section Late

variable {t : Tree} {module : Option String} {imports : List (ClassedImport t module)}

/-- The imports stand in three groups. -/
def Grouped (imports : List (ClassedImport t module)) : Prop :=
  ∃ standard thirdParty internal, imports = standard ++ (thirdParty ++ internal) ∧
    (∀ i ∈ standard, i.group = .standard) ∧ (∀ i ∈ thirdParty, i.group = .thirdParty) ∧
      ∀ i ∈ internal, i.group = .internal

private theorem grouped_iff :
    Grouped imports ↔ imports.Pairwise fun a b => a.group.rank ≤ b.group.rank := by
  constructor
  · rintro ⟨standard, thirdParty, internal, rfl, hstandard, hthird, hinternal⟩
    have hsame : ∀ {c : ImportClass} {is : List (ClassedImport t module)},
        (∀ i ∈ is, i.group = c) → is.Pairwise fun a b => a.group.rank ≤ b.group.rank := by
      intro c is h
      refine List.pairwise_of_forall_mem_list fun a ha b hb => ?_
      rw [h a ha, h b hb]
    rw [List.pairwise_append, List.pairwise_append]
    refine ⟨hsame hstandard, ⟨hsame hthird, hsame hinternal, fun a ha b hb => ?_⟩,
      fun a ha b hb => ?_⟩
    · rw [hthird a ha, hinternal b hb]
      decide
    · rw [hstandard a ha]
      exact Nat.zero_le _
  · intro h
    induction imports with
    | nil => exact ⟨[], [], [], rfl, by simp, by simp, by simp⟩
    | cons i imports ih =>
      obtain ⟨hfirst, hrest⟩ := List.pairwise_cons.mp h
      obtain ⟨standard, thirdParty, internal, rfl, hstandard, hthird, hinternal⟩ := ih hrest
      -- no import of a lower class comes after this one
      have hnone : ∀ {c : ImportClass} {is : List (ClassedImport t module)},
          is ⊆ standard ++ (thirdParty ++ internal) → (∀ j ∈ is, j.group = c) →
            c.rank < i.group.rank → is = [] := by
        intro c is hsub hgroup hlt
        refine List.eq_nil_iff_forall_not_mem.mpr fun j hj => ?_
        have hle := hfirst j (hsub hj)
        rw [hgroup j hj] at hle
        omega
      have hinStandard : standard ⊆ standard ++ (thirdParty ++ internal) :=
        List.subset_append_left _ _
      have hinThird : thirdParty ⊆ standard ++ (thirdParty ++ internal) :=
        List.Subset.trans (List.subset_append_left _ _) (List.subset_append_right _ _)
      cases hgroup : i.group with
      | standard =>
        exact ⟨i :: standard, thirdParty, internal, rfl,
          List.forall_mem_cons.mpr ⟨hgroup, hstandard⟩, hthird, hinternal⟩
      | thirdParty =>
        obtain rfl := hnone hinStandard hstandard (by rw [hgroup]; decide)
        exact ⟨[], i :: thirdParty, internal, rfl, by simp,
          List.forall_mem_cons.mpr ⟨hgroup, hthird⟩, hinternal⟩
      | internal =>
        obtain rfl := hnone hinStandard hstandard (by rw [hgroup]; decide)
        obtain rfl := hnone hinThird hthird (by rw [hgroup]; decide)
        exact ⟨[], [], i :: internal, rfl, by simp, by simp,
          List.forall_mem_cons.mpr ⟨hgroup, hinternal⟩⟩

/-- The pairs of neighbours of which the second is late. -/
def latePairs (imports : List (ClassedImport t module)) :
    List (ClassedImport t module × ClassedImport t module) :=
  (imports.zip imports.tail).filter fun p => p.2.group.rank < p.1.group.rank

private theorem mem_latePairs_iff {earlier later : ClassedImport t module} :
    (earlier, later) ∈ latePairs imports ↔
      (∃ before after, imports = before ++ earlier :: later :: after) ∧
        later.group.rank < earlier.group.rank := by
  rw [latePairs, List.mem_filter, mem_zip_tail_iff, decide_eq_true_eq]

private theorem latePairs_eq_nil_iff :
    latePairs imports = [] ↔ imports.Pairwise fun a b => a.group.rank ≤ b.group.rank :=
  filter_zip_tail_eq_nil_iff (fun i : ClassedImport t module => i.group.rank)

private theorem latePairs_sublist (imports : List (ClassedImport t module)) :
    ((latePairs imports).map (·.2)).Sublist imports := by
  have hsnd := map_snd_zip_tail imports
  have hlate : ((latePairs imports).map (·.2)).Sublist ((imports.zip imports.tail).map (·.2)) :=
    List.filter_sublist.map _
  rw [hsnd] at hlate
  exact hlate.trans (List.tail_sublist imports)

end Late

def lateFinding (pass : Pass Published)
    (p : ClassedImport pass.tree pass.unit.module × ClassedImport pass.tree pass.unit.module) :
    Diagnostic :=
  pass.finding (pass.tree.span p.2.node)
    s!"{p.2.group.label} import \"{p.2.path}\" should come before {p.1.group.label} imports"

section Reports

variable {pass : Pass Published} {imports : List (ClassedImport pass.tree pass.unit.module)}

private theorem checkImportPair_eq (earlier later : ClassedImport pass.tree pass.unit.module) :
    checkImportPair pass (earlier.node, earlier.path) (later.node, later.path) =
      if later.group.rank < earlier.group.rank then [lateFinding pass (earlier, later)] else [] := by
  unfold checkImportPair
  simp only [earlier.classed.eq_ofPath, later.classed.eq_ofPath]
  rfl

private theorem checkImports_eq
    (h : imports.map (fun i => (i.node, i.path)) = importPaths pass.tree (.ofTree pass.tree)) :
    checkImports pass (.ofTree pass.tree) = (latePairs imports).map (lateFinding pass) := by
  unfold checkImports
  dsimp only
  rw [← h, ← List.map_tail, List.zip_map, List.flatMap_map, latePairs, ← flatMap_ite_singleton]
  exact List.flatMap_congr fun p _ => checkImportPair_eq p.1 p.2

end Reports

/-- Of the imports of a file that is read, over all its declarations and in their order in the
source, exactly those are reported whose class is below that of the import just before, unless a
comment silences the rule there. In a file without such comments none is reported if and only if the classes
ascend, that is, if the imports stand in three groups. -/
theorem styleLimits_imports {read : String → Option Go.Concrete} {file : SourceFile}
    {pass : Pass Published} (hread : Go.parseWith read file = .ok pass.tree) (limits : StyleLimits)
    (severity : Severity)
    (hsupplied : Supplied pass.tree (styleLimits limits severity).requires pass.results) :
    ∃ (root : Go.Concrete) (imports : List (ClassedImport pass.tree pass.unit.module))
      (late : List (ClassedImport pass.tree pass.unit.module ×
        ClassedImport pass.tree pass.unit.module)) (ds : List Diagnostic),
      read file.content = some root ∧ ListsImports file root imports ∧
      (∀ earlier later, (earlier, later) ∈ late ↔
        (∃ before after, imports = before ++ earlier :: later :: after) ∧
          later.group.rank < earlier.group.rank) ∧
      (late.map (·.2)).Sublist imports ∧
      (styleLimits limits severity).run pass = .ok (.report ds) ∧
      ds.filter (Diagnostic.beginsWith importWords) = late.map (lateFinding pass) ∧
      (pass.heard ds).filter (Diagnostic.beginsWith importWords) =
        (late.filter fun p => pass.hears p.2.node).map (lateFinding pass) ∧
      (HasNoDirective pass.file.content →
        (pass.heard ds).filter (Diagnostic.beginsWith importWords) = late.map (lateFinding pass) ∧
        ((pass.heard ds).filter (Diagnostic.beginsWith importWords) = [] ↔
          imports.Pairwise fun a b => a.group.rank ≤ b.group.rank) ∧
        ((pass.heard ds).filter (Diagnostic.beginsWith importWords) = [] ↔ Grouped imports)) := by
  have hgrounded : pass.tree.Grounded := Go.grounded_of_parseWith hread
  obtain ⟨decls, report, -, hrun⟩ := exists_styleReport hgrounded limits severity hsupplied
  obtain ⟨imports, himports⟩ := exists_classedImports pass.tree pass.unit.module
  obtain ⟨root, hroot, hlists⟩ := listsImports hread himports
  have hreported : report.diagnostics.filter (Diagnostic.beginsWith importWords) =
      (latePairs imports).map (lateFinding pass) := by
    rw [report.filter_importWords, checkImports_eq himports]
  have hheard : (pass.heard report.diagnostics).filter (Diagnostic.beginsWith importWords) =
      ((latePairs imports).filter fun p => pass.hears p.2.node).map (lateFinding pass) := by
    rw [Pass.filter_heard, hreported]
    exact Pass.heard_map fun p _ => rfl
  refine ⟨root, imports, latePairs imports, report.diagnostics, hroot, hlists,
    fun earlier later => mem_latePairs_iff, latePairs_sublist imports, hrun, hreported, hheard,
    fun hquiet => ?_⟩
  have hall : (latePairs imports).filter (fun p => pass.hears p.2.node) = latePairs imports :=
    List.filter_eq_self.mpr fun p _ => Pass.hears_of_hasNoDirective hquiet p.2.node
  rw [hheard, hall, List.map_eq_nil_iff, grouped_iff]
  exact ⟨rfl, latePairs_eq_nil_iff, latePairs_eq_nil_iff⟩

/-- Imports alone and in a group, all four kinds of steps between classes among them. -/
def mixedImports : SourceFile :=
  .ofText "a.go" ("package a\n\nimport \"fmt\"\n\nimport (\n\t\"example.com/app/db\"\n" ++
    "\t\"github.com/x/y\"\n\tz \"os\"\n\t. \"net/http\"\n)\n") ""

def modulePass (t : Tree) (decls : Declarations) : Pass Published :=
  ⟨⟨t, Go.resolve t (some "a") [], some "example.com/app"⟩, (styleLimits .standard).info,
    indexResults t decls⟩

theorem styleLimits_imports_mixedImports : ∃ t decls, Go.parse mixedImports = .ok t ∧
    HasNoDirective mixedImports.content ∧
    ∃ (imports : List (ClassedImport t (some "example.com/app"))) (ds : List Diagnostic),
      (styleLimits .standard).run (modulePass t decls) = .ok (.report ds) ∧
      imports.map (·.path) = ["fmt", "example.com/app/db", "github.com/x/y", "os", "net/http"] ∧
      imports.map (·.group) = [.standard, .internal, .thirdParty, .standard, .standard] ∧
      (((modulePass t decls).heard ds).filter (Diagnostic.beginsWith importWords)).map (·.message) =
        ["third-party import \"github.com/x/y\" should come before internal imports",
          "standard library import \"os\" should come before third-party imports"] ∧
      ¬ Grouped imports := by
  have hread : ((Go.parse mixedImports).toOption.bind fun t =>
      (Declarations.ofIndex t (.ofTree t)).toOption.bind fun decls =>
        ((styleLimits .standard).run (modulePass t decls)).toOption.map fun outcome =>
          decide ((((modulePass t decls).heard outcome.reported).filter
              (Diagnostic.beginsWith importWords)).map (·.message) =
            ["third-party import \"github.com/x/y\" should come before internal imports",
              "standard library import \"os\" should come before third-party imports"])) =
      some true := by
    decide +kernel
  have hsyntax : (Go.Concrete.ofText? mixedImports.content).map (fun root =>
      (root.keptNodes.filterMap (Go.Concrete.import? mixedImports)).map (·.2)) =
        some ["fmt", "example.com/app/db", "github.com/x/y", "os", "net/http"] := by
    decide +kernel
  have hquiet : HasNoDirective mixedImports.content := by
    unfold HasNoDirective
    decide +kernel
  obtain ⟨t, decls, outcome, hparse, -, hdecls, hrun, hdecide⟩ := exists_of_read hread
  have hmessages := of_decide_eq_true hdecide
  obtain ⟨root, imports, late, ds, hroot, hlists, -, -, hds, -, -, hheard⟩ :=
    @styleLimits_imports Go.Concrete.ofText? mixedImports (modulePass t decls) hparse .standard
      .warning (supplied_indexResults hdecls (List.Subset.refl _))
  obtain rfl := Except.ok.inj (hrun.symm.trans hds)
  obtain ⟨-, -, hfile, -⟩ := Go.exists_root_of_parseWith hparse
  have hpaths : imports.map (·.path) =
      ["fmt", "example.com/app/db", "github.com/x/y", "os", "net/http"] := by
    have hwritten := congrArg (List.map (·.2)) hlists.written
    rw [hroot] at hsyntax
    rw [List.map_map] at hwritten
    exact hwritten.trans (Option.some.inj hsyntax)
  have hgroups : imports.map (·.group) =
      (imports.map (·.path)).map fun path => .ofPath path (some "example.com/app") := by
    rw [List.map_map]
    exact List.map_congr_left fun i _ => i.classed.eq_ofPath.symm
  rw [hpaths] at hgroups
  refine ⟨t, decls, hparse, hquiet, imports, ds, hds, hpaths, hgroups.trans (by decide +kernel),
    hmessages, fun hgrouped => ?_⟩
  have hnone := (hheard (by rw [← hfile] at hquiet; exact hquiet)).2.2.mpr hgrouped
  have hno := congrArg (List.map (·.message)) hnone
  exact List.cons_ne_nil _ _ (hmessages.symm.trans hno)

end Lintel
