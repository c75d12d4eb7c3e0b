import SvgPress.Export
import SvgPress.Jsx.Element
import SvgPress.Pass.Builtin
import SvgPress.Proofs.Export.Modules
import SvgPress.Proofs.Storage.Writing

/-!
What an export leaves behind. Modules are written one after the other, so that of those that lead to
one place the last one stands there in the end. Directories are told apart by their spelling: where
two spellings lead to one place, the components of every module but the last are lost, unless the
modules have the same text. Directories that are spelled from one start never share a place.
-/

namespace SvgPress

namespace Export

open FileTree

/-- Files that are written one after the other, each into the tree that the one before it left. -/
inductive Writes : FileTree → List ModuleFile → FileTree → Prop
  | done (tree : FileTree) : Writes tree [] tree
  | next {tree between after : FileTree} {file : ModuleFile} {files : List ModuleFile}
      (first : tree.write file.target file.text = .ok between)
      (rest : Writes between files after) : Writes tree (file :: files) after

/-- The last of some files that lead to a place. -/
def lastAt (tree : FileTree) (files : List ModuleFile) (place : List String) : Option ModuleFile :=
  (files.filter fun file => tree.destination file.target = place).getLast?

theorem last_at_cons (tree : FileTree) (file : ModuleFile) (files : List ModuleFile)
    (place : List String) :
    lastAt tree (file :: files) place = (lastAt tree files place).or
      (if tree.destination file.target = place then some file else none) := by
  unfold lastAt
  rw [List.filter_cons]
  split
  · rename_i h
    rw [if_pos (by simpa using h), List.getLast?_cons]
    cases List.getLast? (files.filter _) with
    | none => rfl
    | some last => rfl
  · rename_i h
    rw [if_neg (by simpa using h), Option.or_none]

theorem mem_of_last_at {tree : FileTree} {files : List ModuleFile} {place : List String}
    {last : ModuleFile} (h : lastAt tree files place = some last) :
    last ∈ files ∧ tree.destination last.target = place := by
  have hmem := List.mem_of_getLast? h
  rw [List.mem_filter, decide_eq_true_eq] at hmem
  exact hmem

namespace Writes

variable {tree after : FileTree} {files : List ModuleFile} {file : ModuleFile} {p : Path}
  {place : List String} {content : String}

theorem target_after (h : Writes tree files after) (hp : tree.target p = .ok place) :
    after.target p = .ok place := by
  induction h with
  | done tree => exact hp
  | next first rest ih => exact ih ((target_write_iff first).mpr hp)

theorem target_of_mem (h : Writes tree files after) (hfile : file ∈ files) :
    after.target file.target = .ok (tree.destination file.target) := by
  induction h with
  | done tree => cases hfile
  | next first rest ih =>
      rcases List.mem_cons.mp hfile with rfl | hfile
      · exact rest.target_after ((target_write_iff first).mpr (target_of_write first))
      · rw [← destination_write first]
        exact ih hfile

/-- A place ends up with the text of the last file that leads there, and with the text that was
there if no file does. -/
theorem get_after (h : Writes tree files after)
    (hplace : (∃ file, lastAt tree files place = some file ∧ content = file.text) ∨
      lastAt tree files place = none ∧ tree.root.get? place = some (.text content)) :
    after.root.get? place = some (.text content) := by
  induction h with
  | done tree =>
      rcases hplace with ⟨file, hlast, -⟩ | ⟨-, hget⟩
      · cases hlast
      · exact hget
  | @next tree between after first files hfirst rest ih =>
      have hsame : lastAt between files place = lastAt tree files place := by
        unfold lastAt
        simp only [destination_write hfirst]
      rw [last_at_cons] at hplace
      refine ih ?_
      rw [hsame]
      cases hlast : lastAt tree files place with
      | some last =>
          rw [hlast, Option.some_or] at hplace
          rcases hplace with ⟨file, heq, htext⟩ | ⟨heq, -⟩
          · exact .inl ⟨file, heq, htext⟩
          · cases heq
      | none =>
          rw [hlast, Option.none_or] at hplace
          refine .inr ⟨rfl, ?_⟩
          split at hplace
          · rename_i hhere
            rcases hplace with ⟨file, heq, rfl⟩ | ⟨heq, -⟩
            · cases heq
              exact hhere ▸ get_write hfirst
            · cases heq
          · rename_i hother
            rcases hplace with ⟨file, heq, -⟩ | ⟨-, hget⟩
            · cases heq
            · exact get_write_of_ne hfirst (Ne.symm hother) hget

/-- Where a file was written, the text of the last file that leads there stands in the end. -/
theorem get_of_mem (h : Writes tree files after) (hfile : file ∈ files) :
    ∃ last ∈ files, tree.destination last.target = tree.destination file.target ∧
      after.root.get? (tree.destination file.target) = some (.text last.text) := by
  cases hlast : lastAt tree files (tree.destination file.target) with
  | none =>
      have hmem : file ∈ files.filter fun f =>
          tree.destination f.target = tree.destination file.target :=
        List.mem_filter.mpr ⟨hfile, by simp⟩
      rw [lastAt, List.getLast?_eq_none_iff] at hlast
      rw [hlast] at hmem
      cases hmem
  | some last =>
      obtain ⟨hmem, hdestination⟩ := mem_of_last_at hlast
      exact ⟨last, hmem, hdestination, h.get_after (.inl ⟨last, hlast, rfl⟩)⟩

/-- No file is overwritten with something else exactly if files that lead to one place have the same
text. -/
theorem all_read_iff (h : Writes tree files after) :
    (∀ file ∈ files, after.read file.target = .ok file.text) ↔
      ∀ file ∈ files, ∀ other ∈ files,
        tree.destination file.target = tree.destination other.target → file.text = other.text := by
  constructor
  · intro hread file hfile other hother hsame
    obtain ⟨last, -, -, hget⟩ := h.get_of_mem hfile
    have hfirst := read_of_target (h.target_of_mem hfile) hget
    have hsecond := read_of_target (hsame ▸ h.target_of_mem hother) hget
    rw [hread file hfile] at hfirst
    rw [hread other hother] at hsecond
    exact Except.ok.inj (hfirst.trans hsecond.symm)
  · intro hapart file hfile
    obtain ⟨last, hmem, hdestination, hget⟩ := h.get_of_mem hfile
    rw [read_of_target (h.target_of_mem hfile) hget, hapart last hmem file hfile hdestination]

end Writes

theorem run_write_modules_cons (tree : FileTree) (file : ModuleFile) (files : List ModuleFile) :
    (writeModules FileTree.writer (file :: files)).run tree =
      match tree.write file.target file.text with
      | .error fault => (⟨[], some (file.target, fault)⟩, tree)
      | .ok between =>
        let rest := (writeModules FileTree.writer files).run between
        ({ rest.1 with written := file :: rest.1.written }, rest.2) := by
  simp only [writeModules, StateT.run, bind, StateT.bind, FileTree.writer]
  cases tree.write file.target file.text <;> rfl

/-- A run that no file stopped wrote them all. -/
theorem writes_of_run {tree : FileTree} {files : List ModuleFile}
    (h : ((writeModules FileTree.writer files).run tree).1.failure = none) :
    Writes tree files ((writeModules FileTree.writer files).run tree).2 := by
  induction files generalizing tree with
  | nil => exact .done tree
  | cons file files ih =>
      rw [run_write_modules_cons] at h ⊢
      cases hwrite : tree.write file.target file.text with
      | error fault =>
          rw [hwrite] at h
          cases h
      | ok between =>
          rw [hwrite] at h
          exact .next hwrite (ih h)

/-- Files that can be written one after the other are written by a run. -/
theorem Writes.run {tree after : FileTree} {files : List ModuleFile} (h : Writes tree files after) :
    (writeModules FileTree.writer files).run tree = (⟨files, none⟩, after) := by
  induction h with
  | done tree => rfl
  | next first rest ih =>
      rw [run_write_modules_cons, first]
      simp only [ih]

/-- Files that can each be written can be written one after the other. -/
theorem exists_writes {tree : FileTree} {files : List ModuleFile}
    (h : ∀ file ∈ files, (tree.write file.target file.text).isOk) :
    ∃ after, Writes tree files after := by
  induction files generalizing tree with
  | nil => exact ⟨tree, .done tree⟩
  | cons file files ih =>
      have hfile := h file List.mem_cons_self
      cases hfirst : tree.write file.target file.text with
      | error fault =>
          rw [hfirst] at hfile
          cases hfile
      | ok between =>
          have hothers : ∀ other ∈ files, (between.write other.target other.text).isOk :=
            fun other hother => (is_ok_write_after_iff hfirst other.text).mpr
              (h other (List.mem_cons_of_mem file hother))
          obtain ⟨after, hrest⟩ := ih hothers
          exact ⟨after, .next hfirst hrest⟩

variable {tree after : FileTree} {list : ExportList} {config : Config} {catalog : Catalog}
  {convert : Converter} {batch : Batch} {files : List ModuleFile} {file : FileOutput} {m : Module}

/-- An export from its plan to its report, with the files that it leaves. -/
def runIn (tree : FileTree) (list : ExportList) (config : Config) (catalog : Catalog)
    (convert : Converter) : ExportReport × FileTree :=
  let plan := (plan list config catalog convert tree.files).value
  let outcome := (carryOut FileTree.writer plan).run tree
  ((report outcome.1 plan).value.1, outcome.2)

/-- The path of the module for a directory. -/
def modulePath (config : Config) (directory : Path) : Path :=
  directory.join ⟨config.moduleFileName⟩

theorem target_module_file (config : Config) (m : Module) :
    (moduleFile config m).target = modulePath config m.directory :=
  rfl

/-- The modules of a batch as files, and where they go. -/
def moduleFiles (config : Config) (batch : Batch) : List ModuleFile :=
  batch.modules.value.map (moduleFile config)

theorem plan_write (h : (plan list config catalog convert tree.files).value = .write batch files) :
    files = moduleFiles config batch := by
  unfold plan at h
  split at h
  · cases h
  · split at h
    · cases h
    · cases h
      rfl

/-- An export that is reported as done wrote all modules of its batch. -/
theorem writes_of_exported {targets : List Path} {processed failed : Nat}
    (h : (runIn tree list config catalog convert).1 =
      ⟨.exported targets processed failed, some batch⟩) :
    Writes tree (moduleFiles config batch) (runIn tree list config catalog convert).2 := by
  unfold runIn at h ⊢
  cases hplan : (plan list config catalog convert tree.files).value with
  | disabled =>
      rw [hplan] at h
      cases h
  | nothing =>
      rw [hplan] at h
      cases h
  | write planned files =>
      rw [hplan] at h
      simp only [carryOut] at h ⊢
      simp only [report, Logged.value_bind] at h
      split at h
      · cases h
      · rename_i hfailure
        cases h
        rw [← plan_write hplan]
        exact writes_of_run hfailure

/-- An export whose modules can each be written is reported as done. -/
theorem exported_of_writable (tree : FileTree) (list : ExportList) (config : Config)
    (catalog : Catalog) (convert : Converter) (batch : Batch) (henabled : config.enabled = true)
    (hdrawings : list.drawings.isEmpty = false)
    (hbatch : batch = (Batch.process (Optimizer.ofConfig config catalog tree.files).value convert
      tree.files list.drawings).value)
    (hfiles : ∀ file ∈ moduleFiles config batch, (tree.write file.target file.text).isOk) :
    ∃ after, Writes tree (moduleFiles config batch) after ∧
      runIn tree list config catalog convert =
        (⟨.exported ((moduleFiles config batch).map (·.target)) batch.files.length
          batch.failures.length, some batch⟩, after) := by
  have hplan : (plan list config catalog convert tree.files).value =
      .write batch (moduleFiles config batch) := by
    rw [hbatch, plan, henabled, hdrawings]
    rfl
  obtain ⟨after, hwrites⟩ := exists_writes hfiles
  refine ⟨after, hwrites, ?_⟩
  unfold runIn
  rw [hplan]
  simp only [carryOut, hwrites.run, report, Logged.value_bind, Logged.value_pure]

/-- Whether the module that has the component of a file stands where it was written. -/
def Kept (config : Config) (batch : Batch) (after : FileTree) (file : FileOutput) : Prop :=
  ∃ m ∈ batch.modules.value, m.Holds file ∧
    after.read (modulePath config m.directory) = .ok m.render

/-- Whether modules that lead to one place have the same text. -/
def Apart (config : Config) (batch : Batch) (tree : FileTree) : Prop :=
  ∀ m ∈ batch.modules.value, ∀ other ∈ batch.modules.value,
    tree.destination (modulePath config m.directory) =
      tree.destination (modulePath config other.directory) → m.render = other.render

/-- Whether a path reads as a text that has the component of a file and exports it. -/
def Carries (tree : FileTree) (path : Path) (file : FileOutput) : Prop :=
  ∃ text name, tree.read path = .ok text ∧ Module.IsNameOf name file ∧
    Jsx.Declares text (.ofJsx name file.jsx)

theorem all_kept_iff (h : Writes tree (moduleFiles config batch) after) :
    (∀ file ∈ batch.files, Kept config batch after file) ↔ Apart config batch tree := by
  have hread := h.all_read_iff
  simp only [moduleFiles, List.forall_mem_map] at hread
  refine Iff.trans ?_ hread
  constructor
  · intro hkept m hm
    obtain ⟨file, hfile, hholds⟩ := Batch.exists_held hm
    obtain ⟨m', hm', hholds', htext⟩ := hkept file hfile
    have hsame : m' = m := Batch.modules_eq_of_same hm' hm
      ((Path.same_iff.mp hholds'.1).trans (Path.same_iff.mp hholds.1).symm)
    exact hsame ▸ htext
  · intro hall file hfile
    obtain ⟨m, hm, hholds⟩ := Batch.exists_holds hfile
    exact ⟨m, hm, hholds, hall m hm⟩

/-- What is kept is found under any path that leads into the directory of the file. -/
theorem carries_of_kept (h : Writes tree (moduleFiles config batch) after)
    (hkept : Kept config batch after file)
    (hcheck : FileTree.check (modulePath config file.directory) = .ok ()) :
    Carries after (modulePath config file.directory) file := by
  obtain ⟨m, hm, ⟨hsame, name, hname, hmem⟩, htext⟩ := hkept
  have hfile : moduleFile config m ∈ moduleFiles config batch := List.mem_map_of_mem hm
  have htarget := h.target_of_mem hfile
  obtain ⟨last, -, -, hget⟩ := h.get_of_mem hfile
  have hrender : last.text = m.render :=
    Except.ok.inj ((read_of_target htarget hget).symm.trans htext)
  rw [hrender] at hget
  exact ⟨m.render, name, read_of_target (target_join_of_same hsame hcheck htarget) hget, hname,
    Jsx.declares_render hmem⟩

/-- Directories that go on from one start by names have places of their own. -/
theorem apart_of_goes_on (h : Writes tree (moduleFiles config batch) after)
    (hplain : '/' ∉ config.moduleFileName.toList) {start : List Path.Component}
    (hstart : ∀ file ∈ batch.files, file.directory.GoesOn start) : Apart config batch tree := by
  have hmodule : ∀ m ∈ batch.modules.value, m.directory.GoesOn start ∧
      tree.destination (modulePath config m.directory) =
        after.destination m.directory ++ [config.moduleFileName] := by
    intro m hm
    obtain ⟨file, hfile, hsame, -⟩ := Batch.exists_held hm
    obtain ⟨names, hnames⟩ := hstart file hfile
    have hfile : moduleFile config m ∈ moduleFiles config batch := List.mem_map_of_mem hm
    have htarget := h.target_of_mem hfile
    rw [target_module_file] at htarget
    exact ⟨⟨names, (Path.same_iff.mp hsame).trans hnames⟩,
      destination_join (n := ⟨config.moduleFileName⟩) hplain htarget⟩
  intro m hm other hother hdestination
  obtain ⟨hm', hplace⟩ := hmodule m hm
  obtain ⟨hother', hplace'⟩ := hmodule other hother
  rw [hplace, hplace'] at hdestination
  have hsame := components_eq_of_destination hm' hother' (List.append_cancel_right hdestination)
  rw [Batch.modules_eq_of_same hm hother hsame]

/-- After an export every module that has the component of a file stands where it was written
exactly if modules that lead to one place have the same text. Where it stands, the module file in
the directory of the file, under any path that can be given at all, has the component and exports
it. All modules stand wherever the directories are spelled from one start and the name of the module
files is plain. -/
theorem components_kept_iff (tree : FileTree) (list : ExportList) (config : Config)
    (catalog : Catalog) (convert : Converter) (batch : Batch) (targets : List Path)
    (processed failed : Nat)
    (exported : (runIn tree list config catalog convert).1 =
      ⟨.exported targets processed failed, some batch⟩) :
    let after := (runIn tree list config catalog convert).2
    ((∀ file ∈ batch.files, Kept config batch after file) ↔ Apart config batch tree) ∧
      (∀ file ∈ batch.files, Kept config batch after file →
        FileTree.check (modulePath config file.directory) = .ok () →
          Carries after (modulePath config file.directory) file) ∧
      ('/' ∉ config.moduleFileName.toList →
        (∃ start, ∀ file ∈ batch.files, file.directory.GoesOn start) →
          Apart config batch tree) := by
  intro after
  have hwrites : Writes tree (moduleFiles config batch) after := writes_of_exported exported
  refine ⟨all_kept_iff hwrites, ?_, ?_⟩
  · intro file _ hkept hcheck
    exact carries_of_kept hwrites hkept hcheck
  · rintro hplain ⟨start, hstart⟩
    exact apart_of_goes_on hwrites hplain hstart

/-- Directories with two drawings each. -/
def sheets (names : List String) : FileTree :=
  ⟨.directory (names.map fun name =>
    (name, .directory [("a.svg", .text "<svg/>"), ("b.svg", .text "<svg/>")])), []⟩

/-- What is made of some of the drawings. -/
def sheetBatch (names : List String) (paths : List Path) : Batch :=
  (Batch.process (Optimizer.ofConfig Config.default Catalog.builtin (sheets names).files).value
    (Jsx.convert 2) (sheets names).files (ExportList.ofPaths paths).drawings).value

/-- Drawings in two directories, one of which is spelled in three ways. -/
theorem components_kept_sheets :
    let paths : List Path := [⟨"d/a.svg"⟩, ⟨"e/a.svg"⟩, ⟨"d//b.svg"⟩, ⟨"d/./a.svg"⟩]
    let run := runIn (sheets ["d", "e"]) (ExportList.ofPaths paths) Config.default Catalog.builtin
      (Jsx.convert 2)
    let batch := sheetBatch ["d", "e"] paths
    run.1 = ⟨.exported [⟨"d/index.jsx"⟩, ⟨"e/index.jsx"⟩] 4 0, some batch⟩ ∧
      (∀ file ∈ batch.files, Kept Config.default batch run.2 file) ∧
      ∀ file ∈ batch.files, Carries run.2 (modulePath Config.default file.directory) file := by
  intro paths run batch
  have hbatch : (batch.files.length = 4 ∧ batch.failures.length = 0) ∧
      ∀ file ∈ batch.files,
        (file.directory.components = [.name "d"] ∨ file.directory.components = [.name "e"]) ∧
          FileTree.check (modulePath Config.default file.directory) = .ok () := by decide +kernel
  have hmodules : (moduleFiles Config.default batch).map (·.target) =
        [⟨"d/index.jsx"⟩, ⟨"e/index.jsx"⟩] ∧
      ∀ file ∈ moduleFiles Config.default batch,
        ((sheets ["d", "e"]).write file.target file.text).isOk := by decide +kernel
  obtain ⟨⟨hfiles, hfailures⟩, hdirectories⟩ := hbatch
  obtain ⟨htargets, hwritable⟩ := hmodules
  obtain ⟨after, -, hrun⟩ := exported_of_writable (sheets ["d", "e"]) (ExportList.ofPaths paths)
    Config.default Catalog.builtin (Jsx.convert 2) batch rfl (by decide +kernel) rfl hwritable
  have hreport : run.1 = ⟨.exported [⟨"d/index.jsx"⟩, ⟨"e/index.jsx"⟩] 4 0, some batch⟩ := by
    rw [show run = _ from hrun, htargets, hfiles, hfailures]
  obtain ⟨hkept, hcarries, hapart⟩ := components_kept_iff _ _ _ _ _ _ _ _ _ hreport
  have hseparate : Apart Config.default batch (sheets ["d", "e"]) := by
    refine hapart (by decide +kernel) ⟨[], fun file hfile => ?_⟩
    rcases (hdirectories file hfile).1 with h | h
    · exact ⟨["d"], h⟩
    · exact ⟨["e"], h⟩
  have hall := hkept.mpr hseparate
  refine ⟨hreport, hall, fun file hfile => ?_⟩
  exact hcarries file hfile (hall file hfile) (hdirectories file hfile).2

/-- Of two drawings in one directory that is spelled in two ways only the second has its component
in the module file, although the export is reported as done. -/
theorem component_overwritten :
    let paths : List Path := [⟨"d/a.svg"⟩, ⟨"./d/b.svg"⟩]
    let run := runIn (sheets ["d"]) (ExportList.ofPaths paths) Config.default Catalog.builtin
      (Jsx.convert 2)
    let batch := sheetBatch ["d"] paths
    run.1 = ⟨.exported [⟨"d/index.jsx"⟩, ⟨"./d/index.jsx"⟩] 2 0, some batch⟩ ∧
      ∃ file ∈ batch.files, file.path = ⟨"d/a.svg"⟩ ∧
        modulePath Config.default file.directory = ⟨"d/index.jsx"⟩ ∧
        ¬ Carries run.2 ⟨"d/index.jsx"⟩ file := by
  intro paths run batch
  let first : ModuleFile :=
    ⟨⟨"d/index.jsx"⟩, "const A = () => (\n  <svg />\n);\n\nexport \x7b A \x7d;\n", 1⟩
  let second : ModuleFile :=
    ⟨⟨"./d/index.jsx"⟩, "const B = () => (\n  <svg />\n);\n\nexport \x7b B \x7d;\n", 1⟩
  have hmodules : moduleFiles Config.default batch = [first, second] := by decide +kernel
  have hbatch : (batch.files.length = 2 ∧ batch.failures.length = 0) ∧
      ∃ file ∈ batch.files, file.path = ⟨"d/a.svg"⟩ ∧ file.componentName = "A" ∧
        modulePath Config.default file.directory = ⟨"d/index.jsx"⟩ := by decide +kernel
  obtain ⟨⟨hfiles, hfailures⟩, file, hfile, hpath, hname, hmodule⟩ := hbatch
  have hwritable : ∀ file ∈ moduleFiles Config.default batch,
      ((sheets ["d"]).write file.target file.text).isOk := by
    rw [hmodules]
    decide +kernel
  obtain ⟨after, hwrites, hrun⟩ := exported_of_writable (sheets ["d"]) (ExportList.ofPaths paths)
    Config.default Catalog.builtin (Jsx.convert 2) batch rfl (by decide +kernel) rfl hwritable
  have hlast : lastAt (sheets ["d"]) (moduleFiles Config.default batch) ["d", "index.jsx"] =
      some second := by
    rw [hmodules]
    decide +kernel
  have htarget : (sheets ["d"]).target first.target = .ok ["d", "index.jsx"] := by decide +kernel
  have hread : after.read first.target = .ok second.text :=
    read_of_target (hwrites.target_after htarget) (hwrites.get_after (.inl ⟨second, hlast, rfl⟩))
  refine ⟨?_, file, hfile, hpath, hmodule, ?_⟩
  · rw [show run = _ from hrun, hmodules, hfiles, hfailures]
    rfl
  · rintro ⟨text, name, htext, hnamed, ⟨front, back, hsource⟩, -⟩
    rw [show run = _ from hrun] at htext
    obtain rfl := Except.ok.inj (hread.symm.trans htext)
    obtain ⟨number, rfl⟩ := hnamed.starts
    obtain ⟨rest, hrest⟩ : ∃ rest,
        (Jsx.Component.ofJsx (file.componentName ++ number) file.jsx).source =
          "const A" ++ rest := by
      have hconst : "const " ++ "A" = "const A" := by decide
      rw [hname, Jsx.Component.ofJsx]
      simp only [String.append_assoc]
      exact ⟨_, by rw [← String.append_assoc, hconst]⟩
    have hinfix : "const A".toList <:+: second.text.toList := by
      rw [hsource, hrest, String.toList_append, String.toList_append, String.toList_append]
      exact ⟨front.toList, rest.toList ++ back.toList, by simp only [List.append_assoc]⟩
    exact absurd hinfix (by decide +kernel)

end Export

end SvgPress
