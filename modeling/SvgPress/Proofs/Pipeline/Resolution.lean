import Mathlib.Data.List.Forall2
import SvgPress.Proofs.Json.Members
import SvgPress.Proofs.Pipeline.Convergence

/-!
The steps that a configuration asks for. There is one for every entry that is enabled and whose pass
can be found, in the order of the entries, and what it is depends on its own entry alone, so that
one pass can be listed several times. A parameter has the value that the entry gives it, else the
one of the pass, in place of which the precision of the configuration stands where the pass asks for
one.
-/

namespace SvgPress

namespace Catalog

variable {catalog : Catalog} {files : Files} {dir : Option Path} {spec : PassSpec} {pass : Pass}

/-- Whether an entry refers to a pass: if it has a path, to the one that is declared in the file
there, and else to the one of its name. -/
inductive Refers (catalog : Catalog) (files : Files) (dir : Option Path)
    (spec : PassSpec) : Pass → Prop
  | file {path : String} {declared : DeclaredPass} (hpath : spec.path = some path)
      (hload : DeclaredPass.load files (filePath dir path) = .ok declared) :
      Refers catalog files dir spec declared.toPass
  | name {name : String} {pass : Pass} (hpath : spec.path = none) (hname : spec.name = some name)
      (hfind : catalog.find? name = some pass) : Refers catalog files dir spec pass

/-- What is looked up for an entry is the pass that it refers to. -/
theorem lookup_eq_some_iff :
    (catalog.lookup files dir spec).value = some pass ↔ catalog.Refers files dir spec pass := by
  rw [lookup]
  cases hpath : spec.path with
  | some path =>
      cases hload : DeclaredPass.load files (filePath dir path) with
      | ok declared =>
          simp only [hload, Logged.value_pure]
          constructor
          · intro h
            rw [← Option.some.inj h]
            exact .file hpath hload
          · rintro (⟨hother, hdeclared⟩ | ⟨hnone, -, -⟩)
            · rw [hpath] at hother
              rw [← Option.some.inj hother, hload] at hdeclared
              rw [Except.ok.inj hdeclared]
            · rw [hpath] at hnone
              cases hnone
      | error fault =>
          simp only [hload, Logged.value_bind, Logged.value_pure]
          constructor
          · intro h
            cases h
          · rintro (⟨hother, hdeclared⟩ | ⟨hnone, -, -⟩)
            · rw [hpath] at hother
              rw [← Option.some.inj hother, hload] at hdeclared
              cases hdeclared
            · rw [hpath] at hnone
              cases hnone
  | none =>
      simp only [Logged.value_pure, Option.bind_eq_some_iff]
      constructor
      · rintro ⟨name, hname, hfind⟩
        exact .name hpath hname hfind
      · rintro (⟨hother, -⟩ | ⟨-, hname, hfind⟩)
        · rw [hpath] at hother
          cases hother
        · exact ⟨_, hname, hfind⟩

end Catalog

namespace Config

variable {config : Config} {catalog : Catalog} {files : Files} {spec : PassSpec} {step : Step}

/-- The value of a parameter that an entry says nothing about. -/
def defaultFor? (config : Config) (defaults : Params) (key : String) : Option Json.Value :=
  match config.floatPrecision with
  | some n =>
    if key = "floatPrecision" ∧ (defaults.get? key).isSome then some (.ofNat n)
    else defaults.get? key
  | none => defaults.get? key

theorem get_defaults_under (config : Config) (defaults : Params) (key : String) :
    (config.defaultsUnder defaults).get? key = config.defaultFor? defaults key := by
  rw [defaultsUnder, defaultFor?]
  cases config.floatPrecision with
  | none => rfl
  | some n =>
      by_cases hhas : defaults.has "floatPrecision"
      · simp only [if_pos hhas, Json.Object.get_put]
        by_cases hkey : key = "floatPrecision"
        · rw [if_pos hkey, if_pos ⟨hkey, hkey ▸ Json.Object.has_iff.mp hhas⟩]
        · rw [if_neg hkey, if_neg fun h => hkey h.1]
      · simp only [if_neg hhas]
        rw [if_neg]
        rintro ⟨rfl, hget⟩
        exact hhas (Json.Object.has_iff.mpr hget)

theorem value_params_for (config : Config) (spec : PassSpec) (pass : Pass) :
    (config.paramsFor spec pass).value =
      match spec.params with
      | none => pass.defaults.map config.defaultsUnder
      | some own => some (((pass.defaults.map config.defaultsUnder).getD []).merge own) := by
  cases hdefaults : pass.defaults <;> cases hown : spec.params <;>
    simp only [paramsFor, hdefaults, hown, Option.map_none, Option.map_some, Logged.value_bind,
      Logged.value_pure]

/-- A pass that declares nothing is as good as one without default values. -/
theorem defaults_or_nil (config : Config) (pass : Pass) :
    (pass.defaults.map config.defaultsUnder).getD [] =
      config.defaultsUnder (pass.defaults.getD []) := by
  cases pass.defaults with
  | none =>
      rw [defaultsUnder]
      cases config.floatPrecision <;> rfl
  | some defaults => rfl

/-- The step for an entry whose pass was found. -/
def resolved (config : Config) (spec : PassSpec) (pass : Pass) : Step :=
  ⟨spec.label, pass.name, (config.paramsFor spec pass).value, true, pass⟩

theorem value_step_for (config : Config) (catalog : Catalog) (files : Files) (spec : PassSpec) :
    (config.stepFor? catalog files spec).value =
      if spec.enabled then
        (catalog.lookup files config.pluginsDir spec).value.map (config.resolved spec)
      else none := by
  cases henabled : spec.enabled with
  | false => simp only [stepFor?, henabled, Bool.not_false, if_true, Logged.value_pure]; rfl
  | true =>
      cases hlookup : (catalog.lookup files config.pluginsDir spec).value with
      | none =>
          simp only [stepFor?, henabled, Bool.not_true, Bool.false_eq_true, if_false,
            Logged.value_bind, hlookup, Logged.value_pure]
          rfl
      | some pass =>
          simp only [stepFor?, henabled, Bool.not_true, Bool.false_eq_true, if_false,
            Logged.value_bind, hlookup, Logged.value_pure]
          rfl

/-- Each entry gives its step on its own. -/
theorem value_steps_go (config : Config) (catalog : Catalog) (files : Files)
    (specs : List PassSpec) :
    (steps.go config catalog files specs).value =
      specs.filterMap fun spec => (config.stepFor? catalog files spec).value := by
  induction specs with
  | nil => rfl
  | cons spec specs ih =>
      rw [steps.go, Logged.value_bind, Logged.value_bind, Logged.value_pure, ih,
        List.filterMap_cons]
      cases (config.stepFor? catalog files spec).value <;> rfl

/-- Whether a step is the one that an entry asks for. -/
structure IsStepOf (config : Config) (catalog : Catalog) (files : Files) (spec : PassSpec)
    (step : Step) : Prop where
  found : catalog.Refers files config.pluginsDir spec step.pass
  label : step.label = spec.label
  name : step.name = step.pass.name
  active : step.active = true
  params : ∀ key, step.param? key =
    ((spec.params.getD []).last? key).or (config.defaultFor? (step.pass.defaults.getD []) key)
  absent : step.params = none ↔ step.pass.defaults = none ∧ spec.params = none

theorem step_of_resolved {pass : Pass}
    (h : (catalog.lookup files config.pluginsDir spec).value = some pass) :
    config.IsStepOf catalog files spec (config.resolved spec pass) where
  found := Catalog.lookup_eq_some_iff.mp h
  label := rfl
  name := rfl
  active := rfl
  params key := by
    have hget (params : Option Params) : params.bind (·.get? key) = (params.getD []).get? key := by
      cases params <;> rfl
    rw [Step.param?, resolved, hget, value_params_for, ← get_defaults_under, ← defaults_or_nil]
    cases spec.params with
    | none => rfl
    | some own => exact Json.Object.get_merge _ own key
  absent := by
    rw [resolved, value_params_for]
    cases hdefaults : pass.defaults <;> cases hown : spec.params <;> simp

/-- A configuration gives one step for every entry that is enabled and whose pass can be found, in
the order of the entries. It goes by the label of the entry, and a parameter has in it the last
value that the entry gives, else the precision of the configuration where it is that of the pass,
else the default value of the pass; it has no others. -/
theorem steps_resolved (config : Config) (catalog : Catalog) (files : Files) :
    List.Forall₂ (config.IsStepOf catalog files)
      (config.plugins.filter fun spec =>
        spec.enabled && (catalog.lookup files config.pluginsDir spec).value.isSome)
      (config.steps catalog files).value := by
  rw [steps, value_steps_go]
  induction config.plugins with
  | nil => exact .nil
  | cons spec specs ih =>
      rw [List.filter_cons, List.filterMap_cons, value_step_for]
      cases henabled : spec.enabled with
      | false => exact ih
      | true =>
          cases hlookup : (catalog.lookup files config.pluginsDir spec).value with
          | none => exact ih
          | some pass => exact .cons (step_of_resolved hlookup) ih

/-- A configuration that sets a precision and lists some entries. -/
def sampleConfig (floatPrecision : Option Nat) (plugins : List PassSpec) : Config :=
  { default with floatPrecision := floatPrecision, plugins := plugins }

/-- One pass is listed twice; among the other entries one is disabled, one has a name that is not
known, one has no name, and the file of one is not there. -/
theorem steps_resolved_listed :
    let curves : PassSpec := { name := some "convertPathData" }
    let fineCurves : PassSpec := { curves with params := some [("floatPrecision", .ofNat 5)] }
    let titles : PassSpec := { name := some "removeTitle", params := some [("extra", .bool true)] }
    let plugins : List PassSpec :=
      [fineCurves, { name := some "removeComments", enabled := false },
        { name := some "noSuchPass" }, {},
        { name := some "removeTitle", path := some "missing.json" }, titles, curves]
    let config := sampleConfig (some 1) plugins
    let files : Files := ⟨fun _ => false, fun _ => .error .notFound⟩
    List.Forall₂ (config.IsStepOf Catalog.builtin files) [fineCurves, titles, curves]
      (config.steps Catalog.builtin files).value ∧
      (config.steps Catalog.builtin files).value.map
        (fun step => (step.label, (step.param? "floatPrecision").map (·.compact))) =
        [("convertPathData", some "5"), ("removeTitle", none), ("convertPathData", some "1")] := by
  intro curves fineCurves titles plugins config files
  exact ⟨config.steps_resolved Catalog.builtin files, by decide +kernel⟩

end Config

end SvgPress
