import SvgPress.Proofs.Batch.Grouping
import SvgPress.Proofs.Batch.Settling
import SvgPress.Proofs.Jsx.Declarations
import SvgPress.Proofs.Jsx.Expressions

/-!
Components of processed files. The name that one asks for follows from the path of the file, of
which it takes letters and numbers only. So it stands on one line whatever the path is, and the
lines at the margin of a module have the names of its components. What the module declares as a
script are these names too, where the markup of its files is converted to what JSX can have.
-/

namespace SvgPress

namespace Naming

/-- The name of a component stands on one line: a line feed is no letter and no number. -/
theorem feed_not_mem_component_name (p : Path) : '\n' ∉ (componentName p).toList := by
  have hwords : '\n' ∉ (words (baseName p).toList).flatMap capitalize := by
    rw [List.mem_flatMap]
    rintro ⟨word, hword, hfeed⟩
    have hplain : ∀ c ∈ word, c ≠ '\n' := by
      rintro c hc rfl
      have hletter := Text.not_separator_of_mem_split_chars (List.mem_of_mem_filter hword) hc
      revert hletter
      decide +kernel
    cases word with
    | nil => cases hfeed
    | cons c rest =>
        rw [List.forall_mem_cons] at hplain
        rcases List.mem_append.mp hfeed with hfeed | hfeed
        · exact Text.not_mem_upper_char (by decide +kernel) hplain.1 hfeed
        · exact hplain.2 '\n' hfeed rfl
  rw [componentName, String.toList_ofList]
  split
  · rw [List.mem_append, not_or]
    exact ⟨by decide, hwords⟩
  · exact hwords

end Naming

namespace Module

theorem IsGiven.plain {taken : List String} {own name : String} (h : IsGiven taken own name)
    (hown : '\n' ∉ own.toList) : '\n' ∉ name.toList := by
  cases h with
  | own _ => exact hown
  | @numbered n _ _ _ _ =>
      rw [String.toList_append, List.mem_append, not_or]
      exact ⟨hown, fun hfeed => absurd (Text.decimal_digits n _ hfeed) (by decide +kernel)⟩

/-- Names stand on one line if those of the files do. -/
theorem AreComponentsOf.plain {files : List FileOutput} {components : List Jsx.Component}
    (h : AreComponentsOf files components)
    (hfiles : ∀ file ∈ files, '\n' ∉ file.componentName.toList) :
    ∀ name ∈ components.map (·.name), '\n' ∉ name.toList := by
  induction h with
  | nil => exact fun name hname => absurd hname List.not_mem_nil
  | snoc _ hname ih =>
      rw [List.forall_mem_append, List.forall_mem_singleton] at hfiles
      rw [List.map_append, List.map_singleton, List.forall_mem_append, List.forall_mem_singleton]
      exact ⟨ih hfiles.1, hname.plain hfiles.2⟩

end Module

namespace Batch

variable {optimizer : Optimizer} {convert : Converter} {files : Files} {paths : List Path}
  {path : Path} {file : FileOutput}

/-- A processed file asks for the name that its path gives, and its JSX is its markup converted. -/
theorem process_eq_ok {source : String}
    (h : (optimizer.process convert path source).value = .ok file) :
    file.componentName = Naming.componentName file.path ∧ convert file.markup = .ok file.jsx := by
  rw [Optimizer.process, Logged.value_bind] at h
  cases hoptimize : (optimizer.optimize path source).value with
  | error failure =>
      rw [hoptimize] at h
      cases h
  | ok optimized =>
      rw [hoptimize] at h
      cases hconvert : convert optimized.markup with
      | error fault =>
          simp only [hconvert] at h
          cases h
      | ok jsx =>
          simp only [hconvert, Logged.value_pure] at h
          rw [← Except.ok.inj h]
          exact ⟨rfl, hconvert⟩

theorem task_eq_ok (h : (optimizer.task convert files path).value = .ok file) :
    file.componentName = Naming.componentName file.path ∧ convert file.markup = .ok file.jsx := by
  unfold Optimizer.task at h
  split at h
  · cases h
  · exact process_eq_ok h

/-- The batch of some files is what their tasks come to. -/
theorem value_process (optimizer : Optimizer) (convert : Converter) (files : Files)
    (paths : List Path) : (process optimizer convert files paths).value =
      ofResults (paths.map fun path => (optimizer.task convert files path).value) := by
  let task : Path → FileResult := fun path => (optimizer.task convert files path).value
  let outcome : Nat → FileResult := fun i => (paths[i]?.map task).getD (.error (.aborted ⟨""⟩ ""))
  let none_lost : Nat → Bool := fun _ => false
  have houtcome : ∀ i path, paths[i]? = some path → outcome i = task path := by
    intro i path hpath
    simp only [outcome, hpath, Option.map_some, Option.getD_some]
  have hall : (List.range paths.length).Perm
      ((List.range paths.length).filter fun i => !none_lost i) := by simp [none_lost]
  have hended : ended paths outcome none_lost = paths.map task := by
    have hzip : paths.map task = paths.zipIdx.map (task ∘ Prod.fst) := by
      rw [← List.map_map, List.zipIdx_map_fst]
    rw [ended, hzip]
    exact List.map_congr_left fun pair hmem =>
      houtcome pair.2 pair.1 (List.mem_zipIdx_iff_getElem?.mp hmem)
  rw [process_any_order optimizer convert files houtcome (List.Perm.refl _),
    value_reduce_slots none_lost hall, hended]

theorem mem_process (h : file ∈ (process optimizer convert files paths).value.files) :
    file.componentName = Naming.componentName file.path ∧ convert file.markup = .ok file.jsx := by
  rw [value_process, ofResults, List.mem_filterMap] at h
  obtain ⟨result, hresult, hfile⟩ := h
  obtain ⟨path, -, rfl⟩ := List.mem_map.mp hresult
  cases htask : (optimizer.task convert files path).value with
  | error failure =>
      rw [htask] at hfile
      cases hfile
  | ok other =>
      rw [htask] at hfile
      exact task_eq_ok (htask.trans (congrArg Except.ok (Option.some.inj hfile)))

/-- The lines at the margin of a module of processed files open its components with their names. -/
theorem names_processed {m : Module}
    (hm : m ∈ (process optimizer convert files paths).value.modules.value) :
    Jsx.namesAtMargin m.render = m.names := by
  have hcomponents := (divide_modules _).components m hm
  refine Jsx.names_render hcomponents.rendered (hcomponents.plain fun file hfile => ?_)
  rw [(mem_process (List.mem_of_mem_filter hfile)).1]
  exact Naming.feed_not_mem_component_name file.path

/-- As a script a module of processed files declares the names of its components and exports them in
the same order, if these can be declared, and in the markup of its files all elements have names
that JSX can have and all attributes fit. -/
theorem contents_processed {IsQuoted : List Char → Prop}
    (hquoted : ∀ cs, IsQuoted cs → ∃ s, cs = (Json.quote s).toList) {indent : Nat} {m : Module}
    (hm : m ∈ (process optimizer (Jsx.convert indent) files paths).value.modules.value)
    (h : ∀ file ∈ m.filesOf (process optimizer (Jsx.convert indent) files paths).value.files,
      Jsx.IsBinding file.componentName ∧ ∀ doc tag children, Document.parse file.markup = .ok doc →
        doc.root? = some (tag, children) → ∀ t ∈ (Node.element tag children).tags,
          Jsx.isElementName t.name ∧ ∀ a ∈ t.attributes, Jsx.Fits IsQuoted a) :
    Jsx.contents? m.render = some ⟨m.names, m.names⟩ := by
  refine Jsx.contents_render (((divide_modules _).components m hm).sound fun file hfile => ?_)
  obtain ⟨hname, hfits⟩ := h file hfile
  refine ⟨hname, ?_⟩
  have hconvert := (mem_process (List.mem_of_mem_filter hfile)).2
  cases hparse : Document.parse file.markup with
  | error fault =>
      rw [Jsx.convert, hparse] at hconvert
      cases hconvert
  | ok doc =>
      obtain ⟨tag, children, jsx, hroot, hjsx, helement⟩ :=
        Jsx.element_of_convert hquoted hparse indent
      rw [hconvert] at hjsx
      cases hjsx
      exact helement (hfits doc tag children hparse hroot)

end Batch

end SvgPress
