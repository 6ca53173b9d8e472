import Lintel.Command.Fix
import Lintel.Proofs.Analyzer.Selection
import Lintel.Proofs.Edit.Plan
import Lintel.Proofs.Go.Lowering

/-!
# The fixes of a run can be applied

Rules compute the offsets of their edits from the ranges of nodes. In a tree that was
read from the text those ranges fit it, so that all edits do, and what a plan has taken
can be applied as long as the file is unchanged.
-/

namespace Lintel

open Lintel.Text

variable {text : String} {t : Tree} {span : Span} {fix : Fix} {unit : SourceUnit}

theorem MendsNode.fits (h : ArenaPlaced text t.nodes) (hfix : MendsNode t span fix) :
    ∀ e ∈ fix.edits, e.fits text = true := by
  obtain ⟨id, replacement, hedits⟩ := hfix
  have hfits := h.span_fits id
  rcases hedits with hedits | hedits
  · rw [hedits, List.forall_mem_singleton]
    exact TextEdit.fits_iff.mpr ⟨hfits.start, hfits.stop⟩
  · rw [hedits, List.forall_mem_singleton]
    exact TextEdit.fits_iff.mpr ⟨hfits.stop, hfits.stop⟩

/-- An insertion between the braces of a range. -/
structure InsertsWithin (text : String) (body : Span) (e : TextEdit) : Prop where
  insertion : e.stop = e.start
  after : body.start < e.start
  before : e.start < body.stop
  fits : e.fits text = true

private theorem insertsWithin_insert {body : Span} {offset : Nat} {replacement : String}
    (h : body.Braced text) (hlow : body.inner.start ≤ offset) (hhigh : offset ≤ body.inner.stop)
    (hoffset : isBoundary text offset = true) :
    InsertsWithin text body (.insert offset replacement) := by
  have hwide := h.wide
  simp only [Span.inner] at hlow hhigh
  refine ⟨rfl, ?_, ?_, TextEdit.fits_iff.mpr ⟨hoffset, hoffset⟩⟩
  · simp only [TextEdit.insert]
    omega
  · simp only [TextEdit.insert]
    omega

/-- What middleware is mended with stands between the braces of its body. -/
theorem MendsBody.within (h : ArenaPlaced text t.nodes) (hfix : MendsBody t span fix) :
    ∃ func body, span = t.span func ∧ t.body? func = .ok (some body) ∧
      (t.span body).Braced text ∧ ∀ e ∈ fix.edits, InsertsWithin text (t.span body) e := by
  obtain ⟨func, body, offset, replacement, hspan, hbody, hedits, hoffset⟩ := hfix
  have htag := h.body_block hbody
  have hbraced := h.span_braced htag
  have hwide := hbraced.wide
  refine ⟨func, body, hspan, hbody, hbraced, ?_⟩
  rw [hedits, List.forall_mem_singleton]
  rcases hoffset with rfl | ⟨last, hlast, rfl⟩ | rfl
  · refine insertsWithin_insert hbraced (Nat.le_refl _) ?_ (isBoundary_of_slice? hbraced.opening).2
    simp only [Span.inner]
    omega
  · obtain ⟨hlow, hhigh⟩ := Span.contains_iff.mp (h.inner_contains_return htag hlast)
    have hfits := h.span_fits last
    exact insertsWithin_insert hbraced hlow (Nat.le_trans hfits.forward hhigh) hfits.start
  · refine insertsWithin_insert hbraced ?_ (Nat.le_refl _) (isBoundary_of_slice? hbraced.closing).1
    simp only [Span.inner]
    omega

theorem Mends.fits (h : ArenaPlaced text t.nodes) (hfix : Mends t span fix) :
    ∀ e ∈ fix.edits, e.fits text = true := by
  rcases hfix with hfix | hfix
  · obtain ⟨func, body, -, -, -, hwithin⟩ := hfix.within h
    exact fun e he => (hwithin e he).fits
  · exact hfix.fits h

/-! ### What rules attach -/

/-- A rule of the catalog, at any severity and with any limits. -/
def Rule.BuiltIn (rule : Rule Published) : Prop :=
  ∃ severity limits, rule ∈ catalog severity limits

/-- A diagnostic about a unit whose fixes fit the file; those of middleware stand between
the braces of the body of the function that the diagnostic is about. -/
structure Diagnostic.Mendable (unit : SourceUnit) (d : Diagnostic) : Prop where
  fits : ∀ fix ∈ d.fixes, ∀ e ∈ fix.edits, e.fits unit.file.content = true
  within : d.rule = "middleware-chain" → ∀ fix ∈ d.fixes, ∃ func body,
    d.location = .ofSpan unit.file (unit.tree.span func) ∧
      unit.tree.body? func = .ok (some body) ∧
      (unit.tree.span body).Braced unit.file.content ∧
      ∀ e ∈ fix.edits, InsertsWithin unit.file.content (unit.tree.span body) e

/-- A rule of the catalog mends what it may, and middleware only in bodies. -/
theorem Rule.BuiltIn.finds {rule : Rule Published} {pass : Pass Published} (h : rule.BuiltIn) :
    rule.Finds pass fun span fix =>
      Mends pass.tree span fix ∧ (rule.name = "middleware-chain" → MendsBody pass.tree span fix) := by
  obtain ⟨severity, limits, hrule⟩ := h
  by_cases hname : rule.name = "middleware-chain"
  · have hmiddleware : middlewareChain severity ∈ catalog severity limits := by simp [catalog]
    obtain rfl := (declared_catalog severity limits).eq_of_name_eq hrule hmiddleware hname
    exact (middlewareChain_finds severity).mono fun _ _ hfix => ⟨.inl hfix, fun _ => hfix⟩
  · exact (finds_of_mem_catalog rule hrule).mono fun _ _ hfix => ⟨hfix, fun h => absurd h hname⟩

variable {rule : Rule Published} {d : Diagnostic}

private theorem mendable_of_mem_reported (h : ArenaPlaced unit.file.content unit.tree.nodes)
    (hrule : rule.BuiltIn) {results : List (String × Published)} {outcome : Outcome Published}
    (hrun : rule.run ⟨unit, rule.info, results⟩ = .ok outcome) (hd : d ∈ outcome.reported) :
    d.Mendable unit := by
  obtain ⟨id, message, help, fixes, rfl, hfixes⟩ := hrule.finds outcome hrun d hd
  refine ⟨fun fix hfix => (hfixes fix hfix).1.fits h, fun hname fix hfix => ?_⟩
  obtain ⟨func, body, hspan, hbody, hbraced, hwithin⟩ := ((hfixes fix hfix).2 hname).within h
  exact ⟨func, body, congrArg (Location.ofSpan unit.file) hspan, hbody, hbraced, hwithin⟩

theorem Diagnostic.Mendable.overrideSeverity (h : d.Mendable unit) (a : Analyzer Published)
    (name : String) : (a.overrideSeverity name d).Mendable unit := by
  obtain ⟨severity, heq⟩ := a.exists_overrideSeverity_eq name d
  rw [heq]
  exact ⟨h.fits, h.within⟩

variable {a : Analyzer Published}

private theorem mendable_of_mem_runUnit (hrules : ∀ rule ∈ a.graph.rules, rule.BuiltIn)
    (h : ArenaPlaced unit.file.content unit.tree.nodes) (hd : d ∈ (a.runUnit unit).diagnostics) :
    d.Mendable unit := by
  obtain ⟨rule, hrule, ⟨fault, rfl⟩ | ⟨results, outcome, hrun, e, he, rfl⟩⟩ :=
    Analyzer.exists_of_mem_runSteps hd
  · exact ⟨by simp [Diagnostic.ruleFault], by simp [Diagnostic.ruleFault]⟩
  · exact (mendable_of_mem_reported h (hrules rule hrule) hrun he).overrideSeverity a rule.name

/-- What a run says of a unit is about its file. -/
theorem file_of_mem_runUnit (hrules : ∀ rule ∈ a.graph.rules, rule.BuiltIn)
    (hd : d ∈ (a.runUnit unit).diagnostics) : d.location.file = unit.file.relativePath := by
  obtain ⟨rule, hrule, ⟨fault, rfl⟩ | ⟨results, outcome, hrun, e, he, rfl⟩⟩ :=
    Analyzer.exists_of_mem_runSteps hd
  · rfl
  · obtain ⟨id, message, help, fixes, hfound, -⟩ := (hrules rule hrule).finds outcome hrun e he
    obtain ⟨severity, heq⟩ := a.exists_overrideSeverity_eq rule.name e
    rw [heq, hfound]
    rfl

/-- If no other unit has the same path, the fixes for a file are those for its unit. -/
theorem mem_runUnit_of_mem_runUnits (hrules : ∀ rule ∈ a.graph.rules, rule.BuiltIn)
    {units : List SourceUnit}
    (honly : ∀ other ∈ units, other.file.relativePath = unit.file.relativePath → other = unit)
    (hd : d ∈ (a.runUnits false units).diagnostics)
    (hfile : d.location.file = unit.file.relativePath) : d ∈ (a.runUnit unit).diagnostics := by
  obtain ⟨other, hother, hd⟩ := List.mem_flatMap.mp hd
  rwa [← honly other hother ((file_of_mem_runUnit hrules hd).symm.trans hfile)]

theorem rules_of_build {registry : Registry Published} {config : Config} {exclude : List String}
    (h : Analyzer.build registry config exclude = .ok a) : a.graph.rules.toList = registry := by
  obtain ⟨graph, hgraph, hrest⟩ := bind_eq_ok.mp h
  obtain ⟨globs, -, hok⟩ := bind_eq_ok.mp hrest
  cases hok
  exact Registry.rules_of_build_eq_ok (mapError_eq_ok_iff.mp hgraph)

/-- The fixes that the rules of the catalog attach to a parsed file fit it, those of
middleware stand between the braces of the body, and those that a plan takes can be
applied while the file is unchanged. -/
theorem runUnit_fixes_apply {read : String → Option Go.Concrete}
    (hread : ∀ text root, read text = some root → root.Placed text)
    {registry : Registry Published} (hrules : ∀ rule ∈ registry, rule.BuiltIn)
    {config : Config} {exclude : List String} {a : Analyzer Published}
    (hbuild : Analyzer.build registry config exclude = .ok a)
    {file : SourceFile} {t : Tree} (hparse : Go.parseWith read file = .ok t)
    (facts : FactTable) (module : Option String) :
    (∀ rule : Rule Published, rule.BuiltIn → ∀ results outcome,
      rule.run ⟨⟨t, facts, module⟩, rule.info, results⟩ = .ok outcome →
        ∀ d ∈ outcome.reported, d.Mendable ⟨t, facts, module⟩) ∧
    (∀ d ∈ (a.runUnit ⟨t, facts, module⟩).diagnostics, d.Mendable ⟨t, facts, module⟩) ∧
    (∃ fixed, applyFixes file.content
      (FixPlan.ofDiagnostics (a.runUnit ⟨t, facts, module⟩).diagnostics).selected = .ok fixed) ∧
    ∀ units : List SourceUnit,
      (∀ other ∈ units, other.file.relativePath = file.relativePath → other = ⟨t, facts, module⟩) →
        ∃ fixed, applyFixes file.content
          (Command.planFor (a.runUnits false units) file.relativePath).selected = .ok fixed := by
  obtain ⟨rfl, hplaced⟩ := Go.parseWith_placed hread hparse
  have hgraph : ∀ rule ∈ a.graph.rules, rule.BuiltIn := by
    intro rule hrule
    rw [← Array.mem_toList_iff, rules_of_build hbuild] at hrule
    exact hrules rule hrule
  have hmendable : ∀ d ∈ (a.runUnit ⟨t, facts, module⟩).diagnostics,
      d.Mendable ⟨t, facts, module⟩ := fun d hd => mendable_of_mem_runUnit hgraph hplaced hd
  refine ⟨fun rule hrule results outcome hrun d hd => mendable_of_mem_reported hplaced hrule hrun hd,
    hmendable, ?_, fun units honly => ?_⟩
  · exact FixPlan.exists_applyFixes_ofDiagnostics fun d hd => (hmendable d hd).fits
  · refine FixPlan.exists_applyFixes_ofDiagnostics fun d hd => ?_
    obtain ⟨hd, hfile⟩ := List.mem_filter.mp hd
    exact (hmendable d (mem_runUnit_of_mem_runUnits hgraph honly (List.mem_of_mem_filter hd)
      (beq_iff_eq.mp hfile))).fits

def readPlaced (text : String) : Option Go.Concrete :=
  (Go.Concrete.ofText? text).filter fun root => decide (root.Placed text)

theorem placed_of_readPlaced {text : String} {root : Go.Concrete}
    (h : readPlaced text = some root) : root.Placed text :=
  of_decide_eq_true (Option.filter_eq_some_iff.mp h).2

/-- A file with middleware whose body is empty, so that there is one place only to insert
at. -/
def emptyMiddleware : SourceFile :=
  .ofText "m.go" "package m\nfunc W(h Handler) Handler \x7b\x7d" ""

theorem runUnit_fixes_apply_emptyMiddleware :
    (∀ text root, readPlaced text = some root → root.Placed text) ∧
    (∀ rule ∈ Preset.recommended.rules, rule.BuiltIn) ∧
    ∃ a t, Analyzer.build Preset.recommended.rules ⟨none, {}, []⟩ [] = .ok a ∧
      Go.parseWith readPlaced emptyMiddleware = .ok t ∧
      (a.runUnit ⟨t, .empty, none⟩).diagnostics.flatMap (fun d => d.fixes.flatMap (·.edits)) =
        [.insert 37 "\n\tctx := r.Context()\n\tr = r.WithContext(ctx)",
          .insert 37 "\th.ServeHTTP(w, r)\n"] ∧
      (∀ d ∈ (a.runUnit ⟨t, .empty, none⟩).diagnostics, d.Mendable ⟨t, .empty, none⟩) ∧
      ∃ fixed, applyFixes emptyMiddleware.content
        (FixPlan.ofDiagnostics (a.runUnit ⟨t, .empty, none⟩).diagnostics).selected = .ok fixed := by
  have hread : ∀ text root, readPlaced text = some root → root.Placed text :=
    fun _ _ => placed_of_readPlaced
  have hrules : ∀ rule ∈ Preset.recommended.rules, rule.BuiltIn :=
    fun rule hrule => ⟨.warning, .standard, hrule⟩
  have hrun : ((Analyzer.build Preset.recommended.rules ⟨none, {}, []⟩ []).toOption.bind fun a =>
      (Go.parseWith readPlaced emptyMiddleware).toOption.map fun t =>
        (a.runUnit ⟨t, .empty, none⟩).diagnostics.flatMap fun d => d.fixes.flatMap (·.edits)) =
      some [.insert 37 "\n\tctx := r.Context()\n\tr = r.WithContext(ctx)",
        .insert 37 "\th.ServeHTTP(w, r)\n"] := by decide +kernel
  obtain ⟨a, ha, hmap⟩ := Option.bind_eq_some_iff.mp hrun
  obtain ⟨t, ht, hedits⟩ := Option.map_eq_some_iff.mp hmap
  have hbuild := toOption_eq_some_iff.mp ha
  have hparse := toOption_eq_some_iff.mp ht
  obtain ⟨-, hmendable, hfixed, -⟩ := runUnit_fixes_apply hread hrules hbuild hparse .empty none
  exact ⟨hread, hrules, a, t, hbuild, hparse, hedits, hmendable, hfixed⟩

end Lintel
