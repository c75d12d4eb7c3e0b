import Mathlib.Data.List.Nodup
import SvgPress.Batch
import SvgPress.Proofs.Pipeline.Convergence
import SvgPress.Proofs.Storage.Places
import SvgPress.Proofs.Vacancy

/-!
The modules of a batch. Every file has its component in the module for its directory, and there is
one module for all spellings of a directory that mean the same. The text of a module has all its
components and exports each by its name.
-/

namespace SvgPress

namespace Module

variable {modules : List Module} {file old : FileOutput} {taken : List String}

/-- The names that the component of a file can get: its own, with a number if that is taken. -/
def IsNameOf (name : String) (file : FileOutput) : Prop :=
  name = file.componentName ∨ ∃ n, 2 ≤ n ∧ name = file.componentName ++ toString n

theorem IsNameOf.starts {name : String} (h : IsNameOf name file) :
    ∃ number, name = file.componentName ++ number := by
  rcases h with rfl | ⟨n, -, rfl⟩
  · exact ⟨"", by simp⟩
  · exact ⟨toString n, rfl⟩

/-- Whether a name is the one that is given where some are taken: the own one while that is free,
else the one with the smallest number from two on that is free. -/
inductive IsGiven (taken : List String) (own : String) : String → Prop
  | own (hfree : own ∉ taken) : IsGiven taken own own
  | numbered {n : Nat} (htaken : own ∈ taken) (htwo : 2 ≤ n) (hfree : own ++ toString n ∉ taken)
      (hleast : ∀ k, 2 ≤ k → k < n → own ++ toString k ∈ taken) :
      IsGiven taken own (own ++ toString n)

theorem IsGiven.free {own name : String} (h : IsGiven taken own name) : name ∉ taken := by
  cases h with
  | own hfree => exact hfree
  | numbered _ _ hfree _ => exact hfree

theorem numbered_injective (own : String) :
    Function.Injective fun n : Nat => own ++ toString n := by
  intro m n h
  have hnumber : toString m = toString n := (String.append_right_inj own).mp h
  rw [Nat.toString_eq_ofList_toDigits, Nat.toString_eq_ofList_toDigits] at hnumber
  have hdigits := congrArg (fun digits => Nat.ofDigitChars 10 digits 0)
    (String.ofList_injective hnumber)
  simpa only [Nat.ofDigitChars_ten_toDigits] using hdigits

theorem numbered_name_eq (taken : List String) (own : String) (tries n : Nat) :
    numberedName taken own tries n =
      own ++ toString (searchEnd taken (fun k => own ++ toString k) tries n) := by
  induction tries generalizing n with
  | zero => rfl
  | succ tries ih =>
      rw [numberedName, searchEnd, ih]
      by_cases htaken : own ++ toString n ∈ taken
      · rw [if_pos (List.contains_iff_mem.mpr htaken), if_pos htaken]
      · rw [if_neg (mt List.contains_iff_mem.mp htaken), if_neg htaken]

/-- The search for a number ends at one that makes the name free. -/
theorem given_free_name (taken : List String) (own : String) :
    IsGiven taken own (freeName taken own) := by
  unfold freeName
  by_cases hown : own ∈ taken
  · obtain ⟨htwo, hpassed, -⟩ :=
      search_end_spec taken (fun k : Nat => own ++ toString k) taken.length 2
    rw [if_pos (List.contains_iff_mem.mpr hown), numbered_name_eq]
    exact .numbered hown htwo (search_end_free (numbered_injective own) 2) hpassed
  · rw [if_neg (mt List.contains_iff_mem.mp hown)]
    exact .own hown

theorem free_name_is_name (taken : List String) (file : FileOutput) :
    IsNameOf (freeName taken file.componentName) file := by
  generalize hname : freeName taken file.componentName = name
  have hgiven : IsGiven taken file.componentName name := hname ▸ given_free_name taken _
  cases hgiven with
  | own _ => exact .inl rfl
  | @numbered n _ htwo _ _ => exact .inr ⟨n, htwo, rfl⟩

/-- Whether a module is the one for the directory of a file and has the component of that file. -/
def Holds (m : Module) (file : FileOutput) : Prop :=
  m.directory.same file.directory ∧
    ∃ name, IsNameOf name file ∧ Jsx.Component.ofJsx name file.jsx ∈ m.components

theorem value_add (m : Module) (file : FileOutput) :
    (m.add file).value = { m with components :=
      m.components ++ [.ofJsx (freeName m.names file.componentName) file.jsx] } := by
  simp only [add]
  split <;> rfl

theorem Holds.add {m : Module} (h : m.Holds old) (file : FileOutput) :
    (m.add file).value.Holds old := by
  obtain ⟨hdirectory, name, hname, hmem⟩ := h
  rw [value_add]
  exact ⟨hdirectory, name, hname, List.mem_append_left _ hmem⟩

theorem holds_add {m : Module} (h : m.directory.same file.directory) :
    (m.add file).value.Holds file := by
  rw [value_add]
  exact ⟨h, _, free_name_is_name m.names file, by simp⟩

theorem value_place_nil (file : FileOutput) :
    (place file []).value = [((⟨file.directory, []⟩ : Module).add file).value] :=
  rfl

theorem value_place_cons (file : FileOutput) (m : Module) (rest : List Module) :
    (place file (m :: rest)).value =
      if m.directory.same file.directory then (m.add file).value :: rest
      else m :: (place file rest).value := by
  rw [place]
  split <;> rfl

/-- A file that is placed gets into a module. -/
theorem holds_place (file : FileOutput) (modules : List Module) :
    ∃ m ∈ (place file modules).value, m.Holds file := by
  induction modules with
  | nil =>
      rw [value_place_nil]
      exact ⟨_, List.mem_singleton_self _, holds_add (Path.same_iff.mpr rfl)⟩
  | cons m rest ih =>
      rw [value_place_cons]
      split
      · rename_i hsame
        exact ⟨_, List.mem_cons_self, holds_add hsame⟩
      · obtain ⟨m', hm', h⟩ := ih
        exact ⟨m', List.mem_cons_of_mem _ hm', h⟩

/-- What was in a module before a file is placed stays there. -/
theorem Holds.place {m : Module} (hm : m ∈ modules) (h : m.Holds old) (file : FileOutput) :
    ∃ m' ∈ (place file modules).value, m'.Holds old := by
  induction modules with
  | nil => cases hm
  | cons first rest ih =>
      rw [value_place_cons]
      split
      · rcases List.mem_cons.mp hm with rfl | hm
        · exact ⟨_, List.mem_cons_self, h.add file⟩
        · exact ⟨m, List.mem_cons_of_mem _ hm, h⟩
      · rcases List.mem_cons.mp hm with rfl | hm
        · exact ⟨m, List.mem_cons_self, h⟩
        · obtain ⟨m', hm', h⟩ := ih hm
          exact ⟨m', List.mem_cons_of_mem _ hm', h⟩

/-- Every file that is placed is in some module in the end. -/
theorem holds_place_all {files : List FileOutput}
    (h : file ∈ files ∨ ∃ m ∈ modules, m.Holds file) :
    ∃ m ∈ (placeAll modules files).value, m.Holds file := by
  induction files generalizing modules with
  | nil => exact h.resolve_left List.not_mem_nil
  | cons first files ih =>
      rw [placeAll, Logged.value_bind]
      refine ih ?_
      rcases h with h | ⟨m, hm, h⟩
      · rcases List.mem_cons.mp h with rfl | h
        · exact .inr (holds_place file modules)
        · exact .inl h
      · exact .inr (h.place hm first)

/-- A file opens a module for its directory only where there is none. -/
theorem directory_place (file : FileOutput) (modules : List Module) :
    (place file modules).value.map (·.directory) = modules.map (·.directory) ++
      if modules.any (·.directory.same file.directory) then [] else [file.directory] := by
  induction modules with
  | nil =>
      rw [value_place_nil, value_add]
      rfl
  | cons m rest ih =>
      rw [value_place_cons]
      by_cases hsame : m.directory.same file.directory
      · simp [hsame, value_add]
      · simp [hsame, ih]

/-- What the directories of modules mean. -/
def directories (modules : List Module) : List (List Path.Component) :=
  modules.map (·.directory.components)

theorem mem_directories {c : List Path.Component} :
    c ∈ directories modules ↔ ∃ m ∈ modules, m.directory.components = c :=
  List.mem_map

theorem directories_place (file : FileOutput) (modules : List Module) :
    directories (place file modules).value =
      if file.directory.components ∈ directories modules then directories modules
      else directories modules ++ [file.directory.components] := by
  have hany : modules.any (·.directory.same file.directory) ↔
      file.directory.components ∈ directories modules := by
    rw [List.any_eq_true, mem_directories]
    simp only [Path.same_iff]
  have hmap (ms : List Module) : directories ms = (ms.map (·.directory)).map (·.components) := by
    rw [List.map_map]
    rfl
  rw [hmap, directory_place, List.map_append, ← hmap]
  by_cases hmem : file.directory.components ∈ directories modules
  · rw [if_pos hmem, if_pos (hany.mpr hmem), List.map_nil, List.append_nil]
  · rw [if_neg hmem, if_neg (mt hany.mp hmem), List.map_singleton]

/-- No two modules are for one directory, and each is for the directory of a file. -/
theorem directories_place_all {files : List FileOutput} (h : (directories modules).Nodup) :
    (directories (placeAll modules files).value).Nodup ∧
      ∀ c ∈ directories (placeAll modules files).value,
        c ∈ directories modules ∨ ∃ file ∈ files, file.directory.components = c := by
  induction files generalizing modules with
  | nil => exact ⟨h, fun c hc => .inl hc⟩
  | cons file files ih =>
      rw [placeAll, Logged.value_bind]
      have hplace := directories_place file modules
      split at hplace
      · obtain ⟨hnodup, hfrom⟩ := ih (hplace ▸ h)
        refine ⟨hnodup, fun c hc => ?_⟩
        rcases hfrom c hc with hc | ⟨other, hother, hc⟩
        · exact .inl (hplace ▸ hc)
        · exact .inr ⟨other, List.mem_cons_of_mem _ hother, hc⟩
      · rename_i hnew
        have hconcat : (directories modules ++ [file.directory.components]).Nodup := by
          rw [← List.concat_eq_append]
          exact h.concat hnew
        obtain ⟨hnodup, hfrom⟩ := ih (hplace ▸ hconcat)
        refine ⟨hnodup, fun c hc => ?_⟩
        rcases hfrom c hc with hc | ⟨other, hother, hc⟩
        · rw [hplace] at hc
          rcases List.mem_append.mp hc with hc | hc
          · exact .inl hc
          · exact .inr ⟨file, List.mem_cons_self, (List.mem_singleton.mp hc).symm⟩
        · exact .inr ⟨other, List.mem_cons_of_mem _ hother, hc⟩

end Module

namespace Batch

variable {batch : Batch} {m m' : Module} {file : FileOutput}

/-- Every file of a batch is in a module. -/
theorem exists_holds (hfile : file ∈ batch.files) : ∃ m ∈ batch.modules.value, m.Holds file :=
  Module.holds_place_all (.inl hfile)

/-- Modules have directories of their own, and each has the directory of a file. -/
theorem directories_modules (batch : Batch) :
    (Module.directories batch.modules.value).Nodup ∧
      ∀ c ∈ Module.directories batch.modules.value,
        ∃ file ∈ batch.files, file.directory.components = c := by
  obtain ⟨hnodup, hfrom⟩ := @Module.directories_place_all [] batch.files List.nodup_nil
  exact ⟨hnodup, fun c hc => (hfrom c hc).resolve_left List.not_mem_nil⟩

theorem modules_eq_of_same (hm : m ∈ batch.modules.value) (hm' : m' ∈ batch.modules.value)
    (h : m.directory.components = m'.directory.components) : m = m' :=
  List.inj_on_of_nodup_map batch.directories_modules.1 hm hm' h

/-- Every module has the component of a file. -/
theorem exists_held (hm : m ∈ batch.modules.value) : ∃ file ∈ batch.files, m.Holds file := by
  obtain ⟨file, hfile, hdirectory⟩ := batch.directories_modules.2 _ (List.mem_map_of_mem hm)
  obtain ⟨m', hm', hholds⟩ := exists_holds hfile
  have heq : m' = m :=
    modules_eq_of_same hm' hm ((Path.same_iff.mp hholds.1).trans hdirectory)
  exact ⟨file, hfile, heq ▸ hholds⟩

end Batch

namespace Jsx

/-- Whether a text has a component and a line that exports it. -/
def Declares (text : String) (c : Component) : Prop :=
  (∃ front back, text = front ++ c.source ++ back) ∧
    ∃ front names, c.name ∈ names ∧
      text = front ++ ("export \x7b " ++ ", ".intercalate names ++ " \x7d;\n")

theorem declares_render {components : List Component} {c : Component} (hc : c ∈ components) :
    Declares (renderModule components) c := by
  refine ⟨?_, String.join (components.map fun c => c.source ++ "\n"), components.map (·.name),
    List.mem_map_of_mem hc, by rw [renderModule]; simp only [String.append_assoc]⟩
  obtain ⟨before, after, rfl⟩ := List.append_of_mem hc
  rw [renderModule, List.map_append, List.map_cons, String.join_append, String.join_cons]
  simp only [String.append_assoc]
  exact ⟨_, _, rfl⟩

end Jsx

end SvgPress
