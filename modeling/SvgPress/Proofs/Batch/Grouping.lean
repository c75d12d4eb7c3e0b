import Mathlib.Data.List.Induction
import SvgPress.Proofs.Export.Modules
import SvgPress.Proofs.Jsx.Scripts

/-!
The modules of a batch divide its files. There is one for every directory, in the order in which
they are first met, and it has a component for each file of its directory, in the order of the
files. Names are given one after another, so that a name with a number can take one that comes later
by nature; the later file then gets a number as well, and no two names in a module are the same.
-/

namespace SvgPress

/-- The paths of a list without those that mean the same as one before them. -/
def Path.firsts : List Path → List Path
  | [] => []
  | p :: ps => p :: (firsts ps).filter fun q => !p.same q

theorem Path.firsts_concat (ps : List Path) (p : Path) :
    firsts (ps ++ [p]) = firsts ps ++ if ps.any (·.same p) then [] else [p] := by
  induction ps with
  | nil => rfl
  | cons q ps ih =>
      rw [List.cons_append, firsts, firsts, ih, List.filter_append, List.any_cons, List.cons_append]
      by_cases hsame : q.same p
      · by_cases hany : ps.any (·.same p) <;> simp [hsame, hany]
      · by_cases hany : ps.any (·.same p) <;> simp [hsame, hany]

/-- What a path of a list means, one of the first means. -/
theorem Path.any_firsts (ps : List Path) (p : Path) :
    (firsts ps).any (·.same p) = ps.any (·.same p) := by
  induction ps with
  | nil => rfl
  | cons q ps ih =>
      rw [firsts, List.any_cons, List.any_cons, List.any_filter]
      by_cases hsame : q.same p
      · rw [hsame, Bool.true_or, Bool.true_or]
      · have hother (r : Path) : (!q.same r && r.same p) = r.same p := by
          by_cases hr : r.same p
          · have hqr : ¬ q.same r := fun hqr =>
              hsame (same_iff.mpr ((same_iff.mp hqr).trans (same_iff.mp hr)))
            rw [Bool.not_eq_true] at hqr
            rw [hqr, hr]
            rfl
          · rw [Bool.not_eq_true] at hr
            rw [hr, Bool.and_false]
        simp only [hother, ih]

namespace Module

variable {files : List FileOutput} {modules : List Module} {file : FileOutput} {m : Module}

/-- Some files as components: one after the other, each under the name that is given to it where
those before it have theirs. -/
inductive AreComponentsOf : List FileOutput → List Jsx.Component → Prop
  | nil : AreComponentsOf [] []
  | snoc {files : List FileOutput} {components : List Jsx.Component} {file : FileOutput}
      {name : String} (hbefore : AreComponentsOf files components)
      (hname : IsGiven (components.map (·.name)) file.componentName name) :
      AreComponentsOf (files ++ [file]) (components ++ [.ofJsx name file.jsx])

/-- Names that are given one after another differ. -/
theorem AreComponentsOf.nodup {components : List Jsx.Component}
    (h : AreComponentsOf files components) :
    (components.map (·.name)).Nodup := by
  induction h with
  | nil => exact List.nodup_nil
  | snoc _ hname ih =>
      rw [List.map_append, List.map_singleton, ← List.concat_eq_append]
      exact ih.concat hname.free

theorem AreComponentsOf.rendered {components : List Jsx.Component}
    (h : AreComponentsOf files components) : ∀ c ∈ components, ∃ name jsx, c = .ofJsx name jsx := by
  induction h with
  | nil => exact fun c hc => absurd hc List.not_mem_nil
  | snoc _ _ ih =>
      rw [List.forall_mem_append, List.forall_mem_singleton]
      exact ⟨ih, _, _, rfl⟩

/-- A name that can be declared still can with a number: no reserved word has a digit. -/
theorem IsGiven.binding {taken : List String} {own name : String} (h : IsGiven taken own name)
    (hown : Jsx.IsBinding own) : Jsx.IsBinding name := by
  have hwords : ∀ word ∈ Naming.reservedWords, ∀ c ∈ word.toList,
      ¬ Text.Category.decimalNumber.contains c := by decide +kernel
  cases h with
  | own _ => exact hown
  | @numbered n _ _ _ _ =>
      obtain ⟨⟨first, rest, hsplit, hfirst, hrest⟩, -⟩ := hown
      have hdigits := Text.decimal_digits n
      have htext : (own ++ toString n).toList = first :: (rest ++ (toString n).toList) := by
        rw [String.toList_append, hsplit, List.cons_append]
      constructor
      · refine ⟨first, _, htext, hfirst, List.forall_mem_append.mpr ⟨hrest, fun c hc => ?_⟩⟩
        exact Jsx.part_of_digit (hdigits c hc)
      · intro hreserved
        have hnumber : (toString n).toList ≠ [] := by
          rw [Nat.toString_eq_ofList_toDigits, String.toList_ofList]
          exact Nat.toDigits_ne_nil
        obtain ⟨d, hd⟩ := List.exists_mem_of_ne_nil _ hnumber
        refine hwords _ hreserved d ?_ (hdigits d hd)
        rw [String.toList_append]
        exact List.mem_append_right _ hd

/-- Components are sound if their files ask for names that can be declared and have JSX that is
one element. -/
theorem AreComponentsOf.sound {components : List Jsx.Component}
    (h : AreComponentsOf files components)
    (hfiles : ∀ file ∈ files,
      Jsx.IsBinding file.componentName ∧ Jsx.IsElement (Jsx.bodyOf file.jsx)) :
    ∀ c ∈ components, c.IsSound := by
  induction h with
  | nil => exact fun c hc => absurd hc List.not_mem_nil
  | snoc _ hname ih =>
      rw [List.forall_mem_append, List.forall_mem_singleton] at hfiles
      rw [List.forall_mem_append, List.forall_mem_singleton]
      exact ⟨ih hfiles.1, _, _, rfl, hname.binding hfiles.2.1, hfiles.2.2⟩

/-- The files that belong into a module. -/
def filesOf (m : Module) (files : List FileOutput) : List FileOutput :=
  files.filter fun file => m.directory.same file.directory

/-- Whether modules divide some files: there is one for every directory, in the order in which these
are first met, and each has the components of the files of its directory. -/
structure Divide (modules : List Module) (files : List FileOutput) : Prop where
  directories : modules.map (·.directory) = Path.firsts (files.map (·.directory))
  components : ∀ m ∈ modules, AreComponentsOf (m.filesOf files) m.components

/-- Where no two modules are for one directory and one is for that of a file, there is just one. -/
theorem count_same {p : Path} (hmodules : (directories modules).Nodup)
    (h : modules.any (·.directory.same p)) : modules.countP (·.directory.same p) = 1 := by
  obtain ⟨m, hm, hsame⟩ := List.any_eq_true.mp h
  have hcount := List.count_eq_one_of_mem hmodules
    (mem_directories.mpr ⟨m, hm, Path.same_iff.mp hsame⟩)
  rwa [directories, List.count, List.countP_map] at hcount

theorem files_of_concat_same (h : m.directory.same file.directory) :
    m.filesOf (files ++ [file]) = m.filesOf files ++ [file] := by
  rw [filesOf, List.filter_append, List.filter_singleton, h]
  rfl

theorem files_of_concat_other (h : ¬ m.directory.same file.directory) :
    m.filesOf (files ++ [file]) = m.filesOf files := by
  rw [Bool.not_eq_true] at h
  rw [filesOf, List.filter_append, List.filter_singleton, h]
  exact List.append_nil _

theorem Divide.any_same (h : Divide modules files) (p : Path) :
    modules.any (·.directory.same p) = files.any (·.directory.same p) := by
  have hfirsts := Path.any_firsts (files.map (·.directory)) p
  rwa [← h.directories, List.any_map, List.any_map] at hfirsts

/-- Where a file is placed, the module for its directory gets it, a new one if there is none; all
others stay as they are. -/
theorem mem_place (hmodules : (directories modules).Nodup) (hm : m ∈ (place file modules).value) :
    m ∈ modules ∧ ¬ m.directory.same file.directory ∨
      ∃ old : Module, old.directory.same file.directory ∧ m = (old.add file).value ∧
        (old ∈ modules ∨
          old.components = [] ∧ modules.any (·.directory.same file.directory) = false) := by
  induction modules with
  | nil =>
      rw [value_place_nil, List.mem_singleton] at hm
      exact .inr ⟨⟨file.directory, []⟩, Path.same_iff.mpr rfl, hm, .inr ⟨rfl, rfl⟩⟩
  | cons first rest ih =>
      obtain ⟨hfirst, hrest⟩ := List.nodup_cons.mp hmodules
      rw [value_place_cons] at hm
      split at hm
      · rename_i hsame
        rcases List.mem_cons.mp hm with hm | hm
        · exact .inr ⟨first, hsame, hm, .inl List.mem_cons_self⟩
        · -- A second module for the directory of the file would be a second one for that of the
          -- first.
          refine .inl ⟨List.mem_cons_of_mem _ hm, fun hother => hfirst ?_⟩
          exact mem_directories.mpr
            ⟨m, hm, (Path.same_iff.mp hother).trans (Path.same_iff.mp hsame).symm⟩
      · rename_i hother
        rcases List.mem_cons.mp hm with rfl | hm
        · exact .inl ⟨List.mem_cons_self, hother⟩
        · rcases ih hrest hm with ⟨hm, hnot⟩ | ⟨old, hsame, hadd, hold | ⟨hempty, hnone⟩⟩
          · exact .inl ⟨List.mem_cons_of_mem _ hm, hnot⟩
          · exact .inr ⟨old, hsame, hadd, .inl (List.mem_cons_of_mem _ hold)⟩
          · refine .inr ⟨old, hsame, hadd, .inr ⟨hempty, ?_⟩⟩
            rw [Bool.not_eq_true] at hother
            rw [List.any_cons, hother, hnone]
            rfl

/-- A module that has the components of its files has them with one more file. -/
theorem components_add (hsame : m.directory.same file.directory)
    (h : AreComponentsOf (m.filesOf files) m.components) :
    AreComponentsOf ((m.add file).value.filesOf (files ++ [file]))
      (m.add file).value.components := by
  rw [value_add]
  have hfiles : ({ m with components := m.components ++
      [.ofJsx (freeName m.names file.componentName) file.jsx] } : Module).filesOf
          (files ++ [file]) =
        m.filesOf files ++ [file] :=
    files_of_concat_same hsame
  rw [hfiles]
  exact h.snoc (given_free_name m.names file.componentName)

/-- Modules that divide some files divide them with one more, once that is placed. -/
theorem Divide.place (h : Divide modules files) (hmodules : (Module.directories modules).Nodup)
    (file : FileOutput) : Divide (place file modules).value (files ++ [file]) where
  directories := by
    rw [directory_place, h.any_same, h.directories, List.map_append, List.map_singleton,
      Path.firsts_concat, List.any_map]
    rfl
  components := by
    intro m hm
    rcases mem_place hmodules hm with ⟨hm, hother⟩ | ⟨old, hsame, rfl, hold | ⟨hempty, hnone⟩⟩
    · rw [files_of_concat_other hother]
      exact h.components m hm
    · exact components_add hsame (h.components old hold)
    · refine components_add hsame ?_
      have hfiles : old.filesOf files = [] := by
        rw [h.any_same, List.any_eq_false] at hnone
        refine List.filter_eq_nil_iff.mpr fun other hmem hother => hnone other hmem ?_
        exact Path.same_iff.mpr ((Path.same_iff.mp hother).symm.trans (Path.same_iff.mp hsame))
      rw [hfiles, hempty]
      exact .nil

theorem value_place_all_concat (modules : List Module) (files : List FileOutput)
    (file : FileOutput) :
    (placeAll modules (files ++ [file])).value =
      (Module.place file (placeAll modules files).value).value := by
  induction files generalizing modules with
  | nil => rfl
  | cons first files ih =>
      rw [List.cons_append, placeAll, placeAll, Logged.value_bind, Logged.value_bind, ih]

/-- The modules into which files are placed divide them. -/
theorem divide_place_all (files : List FileOutput) : Divide (placeAll [] files).value files := by
  induction files using List.reverseRecOn with
  | nil => exact ⟨rfl, fun m hm => absurd hm List.not_mem_nil⟩
  | append_singleton files file ih =>
      rw [value_place_all_concat]
      exact ih.place (@directories_place_all [] files List.nodup_nil).1 file

end Module

namespace Batch

theorem divide_modules (batch : Batch) : Module.Divide batch.modules.value batch.files :=
  Module.divide_place_all batch.files

/-- The modules of a batch divide its files: they are for the directories of the files, in the order
in which these are first met, so that every file is in one module and no other, and each has the
component of every file of its directory, in the order of the files and under the name that the file
is given where those before it have theirs. These names differ. As a script the module declares them
in this order and exports them in the same, and nothing else, if each of its files asks for a name
that can be declared and has JSX that is one element. -/
theorem modules_partition (batch : Batch) :
    batch.modules.value.map (·.directory) = Path.firsts (batch.files.map (·.directory)) ∧
      (∀ file ∈ batch.files,
        batch.modules.value.countP (fun m => m.directory.same file.directory) = 1) ∧
      ∀ m ∈ batch.modules.value,
        Module.AreComponentsOf (m.filesOf batch.files) m.components ∧ m.names.Nodup ∧
          ((∀ file ∈ m.filesOf batch.files,
              Jsx.IsBinding file.componentName ∧ Jsx.IsElement (Jsx.bodyOf file.jsx)) →
            Jsx.contents? m.render = some ⟨m.names, m.names⟩) := by
  have hdivide := batch.divide_modules
  refine ⟨hdivide.directories, fun file hfile => ?_, fun m hm => ?_⟩
  · have hsame : batch.files.any (·.directory.same file.directory) :=
      List.any_eq_true.mpr ⟨file, hfile, Path.same_iff.mpr rfl⟩
    rw [← hdivide.any_same] at hsame
    exact Module.count_same batch.directories_modules.1 hsame
  · have hcomponents := hdivide.components m hm
    exact ⟨hcomponents, hcomponents.nodup,
      fun hfiles => Jsx.contents_render (hcomponents.sound hfiles)⟩

/-- Files of the given directories, component names and JSX. -/
def sampleBatch (files : List (String × String × String)) : Batch where
  files := files.map fun (directory, name, jsx) =>
    ⟨⟨""⟩, ⟨directory⟩, name, 0, 0, "", .single, "", jsx⟩
  failures := []
  sourceTotal := 0
  compressedTotal := 0

/-- A name with a number is met where it comes by nature, and one directory is spelled in two
ways. -/
theorem modules_partition_arrows :
    let arrow := "<svg>\n  <path style=\x7b\x7b fill: \"none\" \x7d\x7d d=\"M1 2\" />\n</svg>"
    let batch := sampleBatch [("icons", "Arrow", arrow), ("logos", "Arrow", arrow),
      ("icons/", "Arrow", arrow), ("icons", "Arrow2", arrow)]
    (∀ file ∈ batch.files,
        Jsx.IsBinding file.componentName ∧ Jsx.IsElement (Jsx.bodyOf file.jsx)) ∧
      batch.modules.value.map (fun m => (m.directory.text, m.names)) =
        [("icons", ["Arrow", "Arrow2", "Arrow22"]), ("logos", ["Arrow"])] ∧
      ∀ m ∈ batch.modules.value,
        m.names.Nodup ∧ Jsx.contents? m.render = some ⟨m.names, m.names⟩ := by
  intro arrow batch
  have harrow : Jsx.IsElement (Jsx.bodyOf arrow) := by decide +kernel
  have hfiles : ∀ file ∈ batch.files, Jsx.IsBinding file.componentName ∧ file.jsx = arrow := by
    decide +kernel
  have hsound : ∀ file ∈ batch.files,
      Jsx.IsBinding file.componentName ∧ Jsx.IsElement (Jsx.bodyOf file.jsx) := by
    intro file hfile
    rw [(hfiles file hfile).2]
    exact ⟨(hfiles file hfile).1, harrow⟩
  refine ⟨hsound, by decide +kernel, fun m hm => ?_⟩
  obtain ⟨-, hnames, hread⟩ := (modules_partition batch).2.2 m hm
  exact ⟨hnames, hread fun file hfile => hsound file (List.mem_of_mem_filter hfile)⟩

/-- A property that is no name is written into the object literal as it is. Here it ends the element
and the component around it, and the module of this one component declares two. -/
theorem property_read_as_component :
    let jsx := "<svg style=\x7b\x7b  \x7d\x7d/>),Evil=()=>(<g style=\x7b\x7bc: \"d\" \x7d\x7d />"
    let batch := sampleBatch [("icons", "A", jsx)]
    Jsx.convert 2 "<svg style=\"- \x7d\x7d/&gt;),Evil=()=&gt;(&lt;g style=\x7b\x7bc: d\"/>" =
        .ok jsx ∧
      batch.modules.value.map (fun m => (m.names, Jsx.contents? m.render)) =
        [(["A"], some ⟨["A", "Evil"], ["A"]⟩)] := by
  decide +kernel

end Batch

end SvgPress
