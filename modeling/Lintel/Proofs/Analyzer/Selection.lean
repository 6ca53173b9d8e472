import Lintel.Go.Frontend
import Lintel.Proofs.Go.Linked
import Lintel.Proofs.Rules.Indexes

/-!
# Choosing among the rules of the catalog

A preset, a list of names to retain and a configuration choose rules of the catalog.
What a chosen rule has to say does not depend on the choice of the others.
-/

namespace Lintel

open Lintel.Pattern

namespace Config

def allEnabled (config : Config) : Config :=
  { config with rules := config.rules.map fun entry => (entry.1, { entry.2 with enabled := some true }) }

variable (config : Config) (name : String)

theorem rule?_allEnabled :
    config.allEnabled.rule? name =
      (config.rule? name).map fun rule => { rule with enabled := some true } := by
  simp only [rule?, allEnabled]
  induction config.rules with
  | nil => rfl
  | cons entry rest ih =>
    rw [List.map_cons, List.lookup_cons, List.lookup_cons, ih]
    split
    · rfl
    · rfl

@[simp] private theorem isEnabled_allEnabled : config.allEnabled.isEnabled name = true := by
  rw [isEnabled, rule?_allEnabled]
  cases config.rule? name with
  | none => rfl
  | some rule => rfl

@[simp] private theorem severity?_allEnabled :
    config.allEnabled.severity? name = config.severity? name := by
  rw [severity?, severity?, rule?_allEnabled]
  cases config.rule? name with
  | none => rfl
  | some rule => rfl

end Config

theorem declared_catalog (severity : Severity) (limits : StyleLimits) :
    Registry.Declared [] (catalog severity limits) :=
  of_decide_eq_true rfl

theorem Preset.rules_eq_filter (preset : Preset) (limits : StyleLimits) :
    preset.rules limits = (catalog .warning limits).filter fun rule =>
      (preset.rules limits).names.contains rule.name := by
  cases preset with
  | recommended => rfl
  | architecture => rfl
  | minimal => rfl

/-- The rules of a preset, with the limits of a configuration, that are retained for some
names. -/
def Preset.retained (preset : Preset) (config : Config) (requested : List String) :
    Registry Published :=
  ((preset.configured config).retainWithPrerequisites requested).1

def Config.limits (config : Config) : StyleLimits :=
  ((config.rule? "style-limits").map StyleLimits.ofConfig).getD .standard

@[simp] theorem Config.limits_allEnabled (config : Config) :
    config.allEnabled.limits = config.limits := by
  rw [limits, limits, rule?_allEnabled]
  cases config.rule? "style-limits" with
  | none => rfl
  | some rule => rfl

@[simp] theorem Preset.recommended_configured_allEnabled (config : Config) :
    Preset.recommended.configured config.allEnabled = catalog .warning config.limits := by
  rw [← config.limits_allEnabled]
  rfl

/-- The rules that others build on. -/
def indexNames : List String :=
  [treeIndex.name, declIndex.name]

theorem requires_subset_indexNames {severity : Severity} {limits : StyleLimits} :
    ∀ rule ∈ catalog severity limits, ∀ d ∈ rule.requires, d ∈ indexNames :=
  of_decide_eq_true rfl

private theorem serves_of_mem_catalog {severity : Severity} {limits : StyleLimits}
    {unit : SourceUnit}
    (h : unit.tree.Grounded) {rule : Rule Published} (hrule : rule ∈ catalog severity limits)
    (hname : rule.name ∈ indexNames) : rule.Serves unit IsIndex := by
  have hdeclared := declared_catalog severity limits
  have htree : treeIndex ∈ catalog severity limits := List.mem_cons_self
  have hdecl : declIndex ∈ catalog severity limits := List.mem_cons_of_mem _ List.mem_cons_self
  simp only [indexNames, List.mem_cons, List.not_mem_nil, or_false] at hname
  rcases hname with hname | hname
  · rw [hdeclared.eq_of_name_eq hrule htree hname]
    exact treeIndex_serves unit
  · rw [hdeclared.eq_of_name_eq hrule hdecl hname]
    exact declIndex_serves h

theorem reports_of_mem_catalog {severity : Severity} {limits : StyleLimits} :
    ∀ rule ∈ catalog severity limits, rule.ReportsAsItself := by
  intro rule hrule unit results outcome houtcome d hd
  obtain ⟨id, message, help, fixes, rfl, -⟩ := finds_of_mem_catalog rule hrule outcome houtcome d hd
  rfl

theorem Preset.declared_rules (preset : Preset) (limits : StyleLimits) :
    Registry.Declared [] (preset.rules limits) := by
  rw [preset.rules_eq_filter]
  refine (declared_catalog .warning limits).filter fun rule hrule _ d hd => ?_
  have hindex := requires_subset_indexNames rule hrule d hd
  simp only [indexNames, List.mem_cons, List.not_mem_nil, or_false] at hindex
  rcases hindex with rfl | rfl
  · simp [Preset.rules, Registry.names]
  · simp [Preset.rules, Registry.names]

theorem Preset.declared_retained (preset : Preset) (config : Config) (requested : List String) :
    Registry.Declared [] (preset.retained config requested) :=
  (preset.declared_rules config.limits).retain requested

theorem Preset.rules_sublist (preset : Preset) (limits : StyleLimits) :
    (preset.rules limits).Sublist (catalog .warning limits) := by
  rw [preset.rules_eq_filter]
  exact List.filter_sublist

theorem Preset.retained_sublist (preset : Preset) (config : Config) (requested : List String) :
    (preset.retained config requested).Sublist (catalog .warning config.limits) :=
  List.filter_sublist.trans (preset.rules_sublist config.limits)

private theorem filter_eq_of_sublist {α : Type} {as bs : List α} {p : α → Bool} (h : as.Sublist bs)
    (hnodup : bs.Nodup) (hp : ∀ b ∈ bs, p b = true → b ∈ as) : as.filter p = bs.filter p := by
  refine (h.filter p).eq_of_length_le (List.subperm_of_subset (hnodup.filter p) ?_).length_le
  intro b hb
  obtain ⟨hb, hpb⟩ := List.mem_filter.mp hb
  exact List.mem_filter.mpr ⟨hp b hb hpb, hpb⟩

private theorem mem_of_needed {severity : Severity} {limits : StyleLimits}
    {kept : Registry Published}
    {enabled needed : String → Bool} (hkept : kept.Sublist (catalog severity limits))
    (h : kept.Supports enabled needed) {rule : Rule Published}
    (hrule : rule ∈ catalog severity limits) (hneeded : needed rule.name = true) : rule ∈ kept := by
  obtain ⟨other, hother, hname⟩ := List.mem_map.mp (h.known rule.name hneeded)
  rwa [(declared_catalog severity limits).eq_of_name_eq hrule (hkept.subset hother) hname.symm]

/-- A choice of rules of the catalog leaves out what the others do not need. -/
theorem separable_catalog {severity : Severity} {limits : StyleLimits} {unit : SourceUnit}
    (hgrounded : unit.tree.Grounded) {kept : Registry Published} {enabled needed : String → Bool}
    (hkept : kept.Sublist (catalog severity limits)) (h : kept.Supports enabled needed) :
    Analyzer.Separable unit IsIndex indexNames.contains
      (fun name => kept.names.contains name && enabled name) needed (catalog severity limits) := by
  refine ⟨reads_of_mem_catalog, reports_of_mem_catalog, fun rule hrule d hd => ?_,
    fun rule hrule hname => ?_, fun rule _ hon => ?_, fun rule hrule hneeded => ?_,
    fun rule hrule hneeded hoff => ?_⟩
  · exact List.contains_iff_mem.mpr (requires_subset_indexNames rule hrule d hd)
  · exact serves_of_mem_catalog hgrounded hrule (List.contains_iff_mem.mp hname)
  · obtain ⟨hname, hon⟩ := Bool.and_eq_true_iff.mp hon
    exact h.chosen rule.name (List.contains_iff_mem.mp hname) hon
  · exact h.closed rule (mem_of_needed hkept h hrule hneeded) hneeded
  · rcases h.reason rule.name hneeded with hon | ⟨other, hother, -, hrequires⟩
    · have hname := List.contains_iff_mem.mpr (h.known rule.name hneeded)
      rw [hname, hon] at hoff
      cases hoff
    · exact List.contains_iff_mem.mpr
        (requires_subset_indexNames other (hkept.subset hother) rule.name hrequires)

theorem build_of_graph {registry : Registry Published} {g : PassGraph Published} {config : Config}
    {exclude : List String} {globs : List Glob} (hg : registry.build = .ok g)
    (hglobs : (exclude ++ config.analyzer.exclude).mapM Glob.ofText = .ok globs) :
    Analyzer.build registry config exclude = .ok ⟨g, g.schedule config.isEnabled, globs, config⟩ := by
  rw [Analyzer.build, hg, hglobs]
  rfl

private theorem steps_eq_of_supports {severity : Severity} {limits : StyleLimits}
    {kept : Registry Published} {enabled needed : String → Bool}
    (hkept : kept.Sublist (catalog severity limits)) (h : kept.Supports enabled needed) :
    (kept.filter fun rule => needed rule.name).map (fun rule => (rule, !enabled rule.name)) =
      ((catalog severity limits).filter fun rule => needed rule.name).map
        fun rule => (rule, !(kept.names.contains rule.name && enabled rule.name)) := by
  have hnodup : (catalog severity limits).Nodup := (declared_catalog severity limits).nodup.of_map _
  have hfilter := filter_eq_of_sublist hkept hnodup (p := fun rule => needed rule.name)
    fun rule hrule hneeded => mem_of_needed hkept h hrule hneeded
  rw [← hfilter]
  refine List.map_congr_left fun rule hrule => ?_
  have hname : kept.names.contains rule.name = true :=
    List.contains_iff_mem.mpr (h.known rule.name (List.mem_filter.mp hrule).2)
  rw [hname, Bool.true_and]

private theorem steps_eq_of_allEnabled {r : Registry Published} {config : Config}
    {needed : String → Bool} (h : r.Supports config.allEnabled.isEnabled needed) :
    (r.filter fun rule => needed rule.name).map
        (fun rule => (rule, !config.allEnabled.isEnabled rule.name)) = r.map (·, false) := by
  have hall : (r.filter fun rule => needed rule.name) = r :=
    List.filter_eq_self.mpr fun rule hrule =>
      h.chosen rule.name (List.mem_map_of_mem hrule) (config.isEnabled_allEnabled rule.name)
  rw [hall]
  exact List.map_congr_left fun rule _ => by rw [config.isEnabled_allEnabled, Bool.not_true]

/-- What the retained and enabled rules of a preset say of a unit is what they say among
all rules of the catalog. -/
theorem runUnit_retained (preset : Preset) (config : Config) (requested exclude : List String)
    {globs : List Glob} (hglobs : (exclude ++ config.analyzer.exclude).mapM Glob.ofText = .ok globs)
    (unit : SourceUnit) (hgrounded : unit.tree.Grounded) :
    ∃ a full,
      Analyzer.build (preset.retained config requested) config exclude = .ok a ∧
      Analyzer.build (Preset.recommended.configured config.allEnabled) config.allEnabled exclude =
        .ok full ∧
      (a.runUnit unit).diagnostics = (full.runUnit unit).diagnostics.filter fun d =>
        (preset.retained config requested).names.contains d.rule && config.isEnabled d.rule := by
  have hkept := preset.retained_sublist config requested
  have hcatalog := declared_catalog .warning config.limits
  obtain ⟨g, needed, hg, hsupports, hsteps⟩ :=
    (preset.declared_retained config requested).exists_schedule config.isEnabled
  obtain ⟨gfull, all, hgfull, hsupportsfull, hstepsfull⟩ :=
    hcatalog.exists_schedule config.allEnabled.isEnabled
  refine ⟨_, ⟨gfull, gfull.schedule config.allEnabled.isEnabled, globs, config.allEnabled⟩,
    build_of_graph hg hglobs, ?_, ?_⟩
  · rw [Preset.recommended_configured_allEnabled]
    exact build_of_graph hgfull hglobs
  · rw [Analyzer.runUnit, Analyzer.runUnit, Analyzer.runSteps_eq_runList,
      Analyzer.runSteps_eq_runList, hsteps, hstepsfull, steps_eq_of_allEnabled hsupportsfull,
      steps_eq_of_supports hkept hsupports]
    exact Analyzer.runList_filter (separable_catalog hgrounded hkept hsupports) hcatalog
      (fun name => (config.severity?_allEnabled name).symm)
      ⟨fun _ _ => rfl, fun name hname => absurd hname List.not_mem_nil⟩

/-- A file with a package name that should be small and an interface that has neither the name nor
the place of one. -/
def clockFile : SourceFile :=
  .ofText "clock.go" "package Sample\n\ntype clock interface\x7b\x7d\n" ""

/-- A configuration that takes style for an error and leaves out the place of interfaces. -/
def styleConfig : Config :=
  ⟨none, {}, [("style-limits", ⟨none, some .error, []⟩),
    ("interface-location", ⟨some false, none, []⟩)]⟩

/-- Of four diagnostics two are left: one rule is not of the preset, and one is of it but not
enabled. -/
theorem runUnit_retained_clockFile :
    (∃ globs, styleConfig.analyzer.exclude.mapM Glob.ofText = .ok globs) ∧
    ∃ t, Go.parse clockFile = .ok t ∧ t.Grounded ∧
    ∃ a full,
      Analyzer.build (Preset.minimal.retained styleConfig ["interface-location", "style-limits"])
        styleConfig [] = .ok a ∧
      Analyzer.build (Preset.recommended.configured styleConfig.allEnabled) styleConfig.allEnabled
        [] = .ok full ∧
      (a.runUnit ⟨t, .empty, none⟩).diagnostics =
        (full.runUnit ⟨t, .empty, none⟩).diagnostics.filter (fun d =>
          (Preset.minimal.retained styleConfig ["interface-location", "style-limits"]).names.contains
            d.rule && styleConfig.isEnabled d.rule) ∧
      (full.runUnit ⟨t, .empty, none⟩).diagnostics.map (·.rule) =
        ["interface-contract", "interface-location", "style-limits", "style-limits"] ∧
      (a.runUnit ⟨t, .empty, none⟩).diagnostics.map (·.rule) = ["style-limits", "style-limits"] := by
  have hruns : ((Go.parse clockFile).toOption.bind fun t =>
      (Analyzer.build (catalog .warning .standard) styleConfig.allEnabled []).toOption.map fun full =>
        (full.runUnit ⟨t, .empty, none⟩).diagnostics.map (·.rule)) =
      some ["interface-contract", "interface-location", "style-limits", "style-limits"] := by
    decide +kernel
  have hnames : (Preset.minimal.retained styleConfig ["interface-location", "style-limits"]).names =
      ["tree-index", "decl-index", "interface-location", "style-limits"] := by
    rw [Preset.retained, Registry.retainWithPrerequisites_eq]
    decide +kernel
  have hcatalog : Preset.recommended.configured styleConfig.allEnabled = catalog .warning .standard :=
    Preset.recommended_configured_allEnabled styleConfig
  have hglobs : ∃ globs, styleConfig.analyzer.exclude.mapM Glob.ofText = .ok globs := ⟨_, rfl⟩
  obtain ⟨globs, hglobs⟩ := hglobs
  obtain ⟨t, ht, hruns⟩ := Option.bind_eq_some_iff.mp hruns
  have hparse := toOption_eq_some_iff.mp ht
  have hgrounded : t.Grounded := Go.grounded_of_parseWith hparse
  obtain ⟨a, full, ha, hfull, heq⟩ := runUnit_retained .minimal styleConfig
    ["interface-location", "style-limits"] [] hglobs ⟨t, .empty, none⟩ hgrounded
  rw [← hcatalog, hfull] at hruns
  have hrules : (full.runUnit ⟨t, .empty, none⟩).diagnostics.map (·.rule) =
      ["interface-contract", "interface-location", "style-limits", "style-limits"] :=
    Option.some.inj hruns
  refine ⟨⟨globs, hglobs⟩, t, hparse, hgrounded, a, full, ha, hfull, heq, hrules, ?_⟩
  have hkept : (a.runUnit ⟨t, .empty, none⟩).diagnostics.map (·.rule) =
      ((full.runUnit ⟨t, .empty, none⟩).diagnostics.map (·.rule)).filter fun name =>
        (Preset.minimal.retained styleConfig ["interface-location", "style-limits"]).names.contains
          name && styleConfig.isEnabled name := by
    rw [heq, List.filter_map]
    rfl
  rw [hkept, hrules, hnames]
  rfl

end Lintel
