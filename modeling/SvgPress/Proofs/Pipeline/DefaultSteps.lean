import SvgPress.Proofs.Pipeline.BuiltinStages
import SvgPress.Proofs.Pipeline.Resolution

/-!
The steps of the default configuration. Each runs a pass of the library, and what it does is what a
stage does; so is a run of all of them what the stages do in order.
-/

namespace SvgPress

namespace Catalog

theorem passes_register {catalog : Catalog} {pass : Pass}
    (h : pass.name ∉ catalog.passes.map (·.name)) :
    (catalog.register pass).passes = catalog.passes ++ [pass] := by
  refine congrArg (· ++ [pass]) (List.filter_eq_self.mpr fun other hother => ?_)
  rw [bne_iff_ne]
  exact fun hsame => h (List.mem_map.mpr ⟨other, hother, hsame⟩)

/-- Passes of different names are all there, in the order in which they were registered. -/
theorem passes_foldl_register {passes : List Pass} {catalog : Catalog}
    (h : ((catalog.passes ++ passes).map (·.name)).Nodup) :
    (passes.foldl register catalog).passes = catalog.passes ++ passes := by
  induction passes generalizing catalog with
  | nil => simp
  | cons pass rest ih =>
      have hnot : pass.name ∉ catalog.passes.map (·.name) := by
        rw [List.map_append, List.nodup_append] at h
        exact fun hmem => h.2.2 _ hmem pass.name (by simp) rfl
      have hone := passes_register hnot
      rw [List.foldl_cons, ih, hone, List.append_assoc, List.singleton_append]
      rwa [hone, List.append_assoc, List.singleton_append]

theorem names_builtin_nodup : (Pass.builtin.map (·.name)).Nodup := by
  decide +kernel

theorem passes_builtin : Catalog.builtin.passes = Pass.builtin :=
  passes_foldl_register names_builtin_nodup

theorem find_of_mem {passes : List Pass} (hnames : (passes.map (·.name)).Nodup) {pass : Pass}
    (hpass : pass ∈ passes) : passes.find? (·.name == pass.name) = some pass := by
  induction passes with
  | nil => cases hpass
  | cons first rest ih =>
      obtain ⟨hnot, hrest⟩ := List.nodup_cons.mp hnames
      rcases List.mem_cons.mp hpass with rfl | hpass
      · exact List.find?_cons_of_pos (beq_self_eq_true _)
      · rw [List.find?_cons_of_neg, ih hrest hpass]
        rw [beq_iff_eq]
        exact fun hsame => hnot (List.mem_map.mpr ⟨pass, hpass, hsame.symm⟩)

theorem find_builtin {pass : Pass} (hpass : pass ∈ Pass.builtin) :
    Catalog.builtin.find? pass.name = some pass := by
  rw [find?, passes_builtin]
  exact find_of_mem names_builtin_nodup hpass

end Catalog

namespace Config

/-- The step for an entry that names a pass and says nothing else. -/
def stepOf (config : Config) (pass : Pass) : Step :=
  ⟨pass.name, pass.name, pass.defaults.map config.defaultsUnder, true, pass⟩

theorem step_for_builtin (config : Config) (files : Files) {pass : Pass}
    (hpass : pass ∈ Pass.builtin) :
    (config.stepFor? Catalog.builtin files { name := some pass.name }).value =
      some (config.stepOf pass) := by
  have hlookup : (Catalog.builtin.lookup files config.pluginsDir { name := some pass.name }).value =
      some pass := Catalog.find_builtin hpass
  rw [value_step_for, hlookup, if_pos rfl, Option.map_some, resolved, value_params_for]
  rfl

theorem step_for_disabled (config : Config) (catalog : Catalog) (files : Files) {spec : PassSpec}
    (h : spec.enabled = false) : (config.stepFor? catalog files spec).value = none := by
  rw [value_step_for, h]
  rfl

theorem steps_go_append (config : Config) (catalog : Catalog) (files : Files)
    (specs more : List PassSpec) : (steps.go config catalog files (specs ++ more)).value =
      (steps.go config catalog files specs).value ++
        (steps.go config catalog files more).value := by
  simp only [value_steps_go, List.filterMap_append]

/-- The passes that run by default. -/
def defaultPasses : List Pass :=
  Pass.builtin.take 16

theorem steps_of_passes (config : Config) (files : Files) {passes : List Pass}
    (hpasses : ∀ pass ∈ passes, pass ∈ Pass.builtin) :
    (steps.go config Catalog.builtin files
      (passes.map fun pass => { name := some pass.name })).value = passes.map config.stepOf := by
  rw [value_steps_go, List.filterMap_map, ← List.filterMap_eq_map]
  exact List.filterMap_congr fun pass hpass => config.step_for_builtin files (hpasses pass hpass)

theorem steps_of_disabled (config : Config) (catalog : Catalog) (files : Files)
    {specs : List PassSpec} (h : ∀ spec ∈ specs, spec.enabled = false) :
    (steps.go config catalog files specs).value = [] := by
  rw [value_steps_go, List.filterMap_eq_nil_iff]
  exact fun spec hspec => config.step_for_disabled catalog files (h spec hspec)

/-- Whatever else a configuration says, with the default list it runs the default passes. -/
theorem steps_default {config : Config} (hplugins : config.plugins = defaultPlugins)
    (files : Files) :
    (config.steps Catalog.builtin files).value = defaultPasses.map config.stepOf := by
  have hlist : defaultPlugins =
      defaultPasses.map (fun pass => { name := some pass.name }) ++
        [{ name := some "removeDimensions", enabled := false },
          { name := some "removeAttrs", enabled := false, params := some [("attrs", .array [])] },
          { name := some "sortAttrs", enabled := false }] := rfl
  have hdefault : ∀ pass ∈ defaultPasses, pass ∈ Pass.builtin :=
    fun pass hpass => List.mem_of_mem_take hpass
  rw [Config.steps, hplugins, hlist, steps_go_append, steps_of_passes config files hdefault,
    steps_of_disabled _ _ _ (by simp), List.append_nil]

/-- How numbers are written under a configuration. -/
def numberStyle (config : Config) : Numerals.Style :=
  ⟨config.floatPrecision.getD 3, true⟩

/-- A precision changes nothing for a pass that does not ask for one. -/
theorem defaults_under_of_lacks (config : Config) {defaults : Params}
    (h : defaults.has "floatPrecision" = false) : config.defaultsUnder defaults = defaults := by
  rw [defaultsUnder, h]
  cases config.floatPrecision <;> rfl

theorem step_of_lacks (config : Config) {pass : Pass}
    (h : (pass.defaults.getD []).has "floatPrecision" = false) :
    config.stepOf pass = Step.ofPass pass.name true pass := by
  have hdefaults : pass.defaults.map config.defaultsUnder = pass.defaults := by
    cases hpass : pass.defaults with
    | none => rfl
    | some defaults =>
        rw [hpass] at h
        exact congrArg some (config.defaults_under_of_lacks h)
  rw [stepOf, hdefaults, Step.ofPass]

end Config

/-! ### What the steps do -/

/-- Whether a step does what a stage does. -/
def Step.Runs (step : Step) (stage : Stage) : Prop :=
  step.active ∧ ∀ doc, step.apply doc = .ok (stage.apply doc)

namespace Pipeline

theorem once_of_runs {steps : List Step} {stages : List Stage}
    (h : List.Forall₂ Step.Runs steps stages) (doc : Document) :
    once steps doc = .ok (Stage.run stages doc) := by
  induction h generalizing doc with
  | nil => rfl
  | @cons step stage steps stages hstep hrest ih =>
      rw [once, List.filter_cons_of_pos hstep.1, List.foldlM_cons, hstep.2]
      exact ih (stage.apply doc)

/-- One step made ready for a file. -/
def readyStep (path : Path) (step : Step) : Step :=
  if step.name = prefixed then step.setParam "prefix" (.string (Naming.idPrefix path)) else step

theorem value_steps_for_file (steps : List Step) (path : Path) :
    (stepsForFile steps path).value = steps.map (readyStep path) := by
  induction steps with
  | nil => rfl
  | cons step rest ih =>
      have hstep : (stepForFile path step).value = readyStep path step := by
        rw [stepForFile, readyStep]
        split <;> rfl
      rw [stepsForFile, Logged.value_bind, Logged.value_bind, Logged.value_pure, hstep, ih,
        List.map_cons]

/-- A step with parameters that no file name changes. -/
theorem runs_of_params {config : Config} {path : Path} {pass : Pass} {stage : Stage}
    (hname : pass.name ≠ prefixed)
    (h : ∀ doc, pass.apply ((pass.defaults.map config.defaultsUnder).getD []) doc =
      .ok (stage.apply doc)) : (readyStep path (config.stepOf pass)).Runs stage := by
  have hready : readyStep path (config.stepOf pass) = config.stepOf pass := if_neg hname
  rw [hready]
  exact ⟨rfl, h⟩

/-- A step with its own parameters, which neither a file name nor a precision changes. -/
theorem runs_of_pass {config : Config} {path : Path} {pass : Pass} {stage : Stage}
    (hown : pass.name ≠ prefixed ∧ (pass.defaults.getD []).has "floatPrecision" = false)
    (h : ∀ doc, pass.apply (pass.defaults.getD []) doc = .ok (stage.apply doc)) :
    (readyStep path (config.stepOf pass)).Runs stage := by
  have hready : readyStep path (config.stepOf pass) = Step.ofPass pass.name true pass := by
    rw [config.step_of_lacks hown.2]
    exact if_neg hown.1
  rw [hready]
  exact ⟨rfl, h⟩

end Pipeline

namespace Stage

theorem apply_dropping (keep : Node → Bool) (doc : Document) :
    (dropping keep).apply doc = doc.prune keep :=
  Document.map_tags_eq_self_iff.mpr fun _ _ => rfl

theorem apply_tidying (doc : Document) :
    tidying.apply doc = ⟨Definitions.tidyAll false doc.nodes⟩ :=
  Document.map_tags_eq_self_iff.mpr fun _ _ => rfl

theorem apply_within (cut : List Node → List Node) (doc : Document) :
    (within cut).apply doc = doc.mapRoot fun tag children => .element tag (cut children) :=
  Document.map_tags_eq_self_iff.mpr fun _ _ => rfl

/-- How identifiers are changed in a document with these tags. -/
def settling (namePrefix : String) (tags : List Tag) (tag : Tag) : Tag :=
  if tags.any fun tag => tag.name == "style" || tag.name == "script" then tag
  else
    let used := tags.flatMap fun tag => tag.attributes.flatMap Identifiers.references
    let policy : Identifiers.Policy := ⟨true, true, namePrefix, [], [], false⟩
    Identifiers.settled policy used
      (policy.assign used [] 0 (tags.filterMap (·.attribute? "id"))) tag

/-- What the default passes do where numbers are written in a style and identifiers get a prefix. -/
def defaultsIn (style : Numerals.Style) (namePrefix : String) : List Stage :=
  [dropping (NodeRemoval.isOther .doctype),
    dropping (NodeRemoval.isOther .declaration),
    dropping NodeRemoval.isNoticeOrOther,
    dropping (NodeRemoval.isNotNamed "metadata"),
    stripping,
    labelling fun _ tag => tag.mapValues fun a =>
      (AttributeText.Cleaning.mk true true true).clean a.value,
    dropping (NodeRemoval.isNotNamed "title"),
    dropping (NodeRemoval.isWorthwhile false),
    tidying,
    labelling fun _ tag => tag.keepAttributes AttributeRemoval.isTelling,
    labelling fun _ tag => tag.mapValues (Numerals.clean style true),
    labelling fun _ tag => tag.mapValues fun a =>
      if Colors.attributes.contains a.name then
        (Colors.Conversion.mk false true true true).convert a.value
      else a.value,
    labelling fun _ => PathData.minifyTag style,
    labelling (settling namePrefix),
    within Groups.collapseAll,
    within EmptyContainers.shrinkAll]

/-- What the default steps do, for files whose identifiers get the given prefix. -/
def defaults (namePrefix : String) : List Stage :=
  defaultsIn ⟨3, true⟩ namePrefix

theorem retags_settling (namePrefix : String) (tags : List Tag) :
    Retags (settling namePrefix tags) := by
  unfold settling
  split
  · exact .id
  · exact Identifiers.retags_settled _ _ _

theorem lawful_defaults (namePrefix : String) : ∀ stage ∈ defaults namePrefix, stage.IsLawful := by
  have hnamed (name : String) : (dropping (NodeRemoval.isNotNamed name)).IsLawful :=
    lawful_dropping (fun _ => rfl) fun _ _ _ _ hkeep => hkeep
  have hother {kind : LeafKind} (hkind : kind ≠ .text) :
      (dropping (NodeRemoval.isOther kind)).IsLawful :=
    lawful_dropping (fun _ => by simpa [NodeRemoval.isOther, Node.isLeaf] using hkind.symm)
      fun _ _ _ _ _ => rfl
  have hworthwhile : (dropping (NodeRemoval.isWorthwhile false)).IsLawful := by
    refine lawful_dropping (fun _ => rfl) fun tag children others hgenerated hkeep => ?_
    simp only [NodeRemoval.isWorthwhile, Bool.false_or, Bool.or_eq_true, Bool.not_eq_true']
      at hkeep ⊢
    refine hkeep.imp_right fun hnot => Bool.eq_false_iff.mpr fun hyes => ?_
    rw [hgenerated hyes] at hnot
    cases hnot
  simp only [defaults, defaultsIn, List.forall_mem_cons]
  exact ⟨hother (by decide), hother (by decide),
    lawful_dropping (fun _ => rfl) fun _ _ _ _ _ => rfl, hnamed _, lawful_stripping,
    lawful_labelling fun _ => AttributeText.retags_cleaning, hnamed _, hworthwhile, lawful_tidying,
    lawful_labelling fun _ => AttributeRemoval.retags_telling,
    lawful_labelling fun _ => Numerals.retags_clean _ _,
    lawful_labelling fun _ => Colors.retags_convert _,
    lawful_labelling fun _ => PathData.retags_minify _,
    lawful_labelling (retags_settling namePrefix), lawful_collapse, lawful_shrink,
    fun _ hmem => absurd hmem (List.not_mem_nil)⟩

end Stage

namespace Pipeline

/-- The policy of the pass for identifiers, once it got the prefix for a file. -/
def policyFor (namePrefix : String) : Identifiers.Policy :=
  ⟨true, true, namePrefix, [], [], false⟩

theorem apply_policy_for (namePrefix : String) (doc : Document) :
    (policyFor namePrefix).apply doc = (Stage.labelling (Stage.settling namePrefix)).apply doc := by
  have happly : (Stage.labelling (Stage.settling namePrefix)).apply doc =
      doc.mapTags (Stage.settling namePrefix doc.tags) := rfl
  have hforce : (policyFor namePrefix).force = false := rfl
  rw [happly, Identifiers.Policy.apply, hforce, Bool.not_false, Bool.and_true]
  split
  · rename_i hscripted
    refine (Document.map_tags_eq_self_iff.mpr fun tag _ => ?_).symm
    rw [Stage.settling]
    exact if_pos hscripted
  · rename_i hplain
    refine congrArg doc.mapTags (funext fun tag => ?_)
    rw [Stage.settling]
    exact (if_neg hplain).symm

theorem runs_cleanup (config : Config) (path : Path) :
    (readyStep path (config.stepOf Identifiers.cleanup)).Runs
      (Stage.labelling (Stage.settling (Naming.idPrefix path))) := by
  rw [config.step_of_lacks (by decide +kernel)]
  refine ⟨rfl, fun doc => ?_⟩
  rw [← apply_policy_for]
  rfl

theorem runs_numerals (config : Config) (path : Path) :
    (readyStep path (config.stepOf Numerals.cleanup)).Runs
      (Stage.labelling fun _ tag => tag.mapValues (Numerals.clean config.numberStyle true)) := by
  refine runs_of_params (by decide +kernel) fun doc => ?_
  unfold Config.numberStyle Config.defaultsUnder
  cases config.floatPrecision <;> rfl

theorem runs_paths (config : Config) (path : Path) :
    (readyStep path (config.stepOf PathData.convert)).Runs
      (Stage.labelling fun _ => PathData.minifyTag config.numberStyle) := by
  refine runs_of_params (by decide +kernel) fun doc => ?_
  unfold Config.numberStyle Config.defaultsUnder
  cases config.floatPrecision <;> rfl

theorem runs_dropping {config : Config} {path : Path} {pass : Pass} {keep : Node → Bool}
    (hown : pass.name ≠ prefixed ∧ (pass.defaults.getD []).has "floatPrecision" = false)
    (h : ∀ doc, pass.apply (pass.defaults.getD []) doc = .ok (doc.prune keep)) :
    (readyStep path (config.stepOf pass)).Runs (Stage.dropping keep) :=
  runs_of_pass hown fun doc => by rw [h, Stage.apply_dropping]

theorem runs_within {config : Config} {path : Path} {pass : Pass} {cut : List Node → List Node}
    (hown : pass.name ≠ prefixed ∧ (pass.defaults.getD []).has "floatPrecision" = false)
    (h : ∀ doc, pass.apply (pass.defaults.getD []) doc =
      .ok (doc.mapRoot fun tag children => .element tag (cut children))) :
    (readyStep path (config.stepOf pass)).Runs (Stage.within cut) :=
  runs_of_pass hown fun doc => by rw [h, Stage.apply_within]

/-- The default passes under a configuration do what the stages do in its style of numbers. -/
theorem runs_defaults (config : Config) (path : Path) :
    List.Forall₂ Step.Runs ((Config.defaultPasses.map config.stepOf).map (readyStep path))
      (Stage.defaultsIn config.numberStyle (Naming.idPrefix path)) := by
  have hstrip (doc : Document) :
      EditorData.removeEditorData.apply (EditorData.removeEditorData.defaults.getD []) doc =
        .ok (Stage.stripping.apply doc) := congrArg Except.ok (Stage.strip_eq doc)
  have htidy (doc : Document) :
      Definitions.removeUseless.apply (Definitions.removeUseless.defaults.getD []) doc =
        .ok (Stage.tidying.apply doc) := congrArg Except.ok (Stage.apply_tidying doc).symm
  exact .cons (runs_dropping (by decide +kernel) fun _ => rfl) <|
    .cons (runs_dropping (by decide +kernel) fun _ => rfl) <|
    .cons (runs_dropping (by decide +kernel) fun _ => rfl) <|
    .cons (runs_dropping (by decide +kernel) fun _ => rfl) <|
    .cons (runs_of_pass (by decide +kernel) hstrip) <|
    .cons (runs_of_pass (by decide +kernel) fun _ => rfl) <|
    .cons (runs_dropping (by decide +kernel) fun _ => rfl) <|
    .cons (runs_dropping (by decide +kernel) fun _ => rfl) <|
    .cons (runs_of_pass (by decide +kernel) htidy) <|
    .cons (runs_of_pass (by decide +kernel) fun _ => rfl) <|
    .cons (runs_numerals config path) <|
    .cons (runs_of_pass (by decide +kernel) fun _ => rfl) <|
    .cons (runs_paths config path) <|
    .cons (runs_cleanup config path) <|
    .cons (runs_within (by decide +kernel) fun _ => rfl) <|
    .cons (runs_within (by decide +kernel) fun _ => rfl) .nil

end Pipeline

namespace Optimizer

/-- A file system without files. -/
def noFiles : Files where
  has _ := false
  read _ := .error .notFound

/-- An optimizer whose steps do what stages do cannot fail: it runs these as often as the outcome
says. -/
theorem settle_of_runs {optimizer : Optimizer} {path : Path} {stages : List Stage}
    (hruns : List.Forall₂ Step.Runs (Pipeline.stepsForFile optimizer.steps path).value stages)
    (doc : Document) :
    ∃ outcome, Pipeline.settle (Pipeline.stepsForFile optimizer.steps path).value optimizer.options
        doc = .ok ((Stage.run stages)^[outcome.passes] doc, outcome) ∧ outcome.passes ≠ 0 :=
  Pipeline.settle_total (Pipeline.once_of_runs hruns) optimizer.options doc

/-- Where passes are repeated, they are until nothing changes. -/
theorem settle_eq_converge {optimizer : Optimizer} {path : Path} {stages : List Stage}
    (hruns : List.Forall₂ Step.Runs (Pipeline.stepsForFile optimizer.steps path).value stages)
    (hrepeat : optimizer.options.multipass = true) (doc : Document) :
    Pipeline.settle (Pipeline.stepsForFile optimizer.steps path).value optimizer.options doc =
      Pipeline.converge (fun doc => .ok (Stage.run stages doc))
        (max 1 optimizer.options.maxPasses) 0
        doc := by
  rw [Pipeline.settle, if_pos hrepeat, funext (Pipeline.once_of_runs hruns)]

theorem runs_of_default_plugins {config : Config}
    (hplugins : config.plugins = Config.defaultPlugins)
    (files : Files) (path : Path) :
    List.Forall₂ Step.Runs
      (Pipeline.stepsForFile (ofConfig config Catalog.builtin files).value.steps path).value
      (Stage.defaultsIn config.numberStyle (Naming.idPrefix path)) := by
  have hsteps : (ofConfig config Catalog.builtin files).value.steps =
      (config.steps Catalog.builtin files).value := rfl
  rw [hsteps, Config.steps_default hplugins, Pipeline.value_steps_for_file]
  exact Pipeline.runs_defaults config path

end Optimizer

end SvgPress
