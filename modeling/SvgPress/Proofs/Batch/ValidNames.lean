import SvgPress.Proofs.Batch.ComponentNames

/-!
The names of components as identifiers. A name begins with a letter whatever the path is, and goes
on with letters, marks and numbers. Among the numbers are those that are neither decimal digits nor
letter numbers, such as powers and fractions, which no identifier may hold; they stay in the name,
so that it is an identifier exactly if the name of the file has none of them.
-/

namespace SvgPress

namespace Naming

open Text

/-- The categories of the characters that can go on an identifier. -/
def continuing : List Category :=
  Category.letters ++ [.nonspacingMark, .spacingMark, .decimalNumber, .letterNumber]

/-- Whether a text can name a component: a letter, and behind it letters, marks, decimal digits and
letter numbers, but no reserved word. -/
structure IsIdentifier (name : String) : Prop where
  free : name ∉ reservedWords
  spelled : ∃ first rest, name.toList = first :: rest ∧ isLetter first ∧
    ∀ c ∈ rest, inCategories continuing c

variable {c : Char}

theorem other_number_not_continuing (h : Category.otherNumber.contains c) :
    ¬ inCategories continuing c :=
  not_in_categories (by decide +kernel) h

theorem symbol_not_word (h : Category.otherSymbol.contains c) : ¬ isLetterOrNumber c := by
  have hnot : ¬ inCategories (Category.letters ++ Category.numbers) c :=
    not_in_categories (by decide +kernel) h
  rwa [inCategories, List.any_append] at hnot

theorem word_character (h : isLetterOrNumber c) :
    inCategories (.otherNumber :: continuing) c := by
  rw [isLetterOrNumber, Bool.or_eq_true] at h
  rcases h with h | h
  · exact in_categories_mono (by decide) h
  · exact in_categories_mono (by decide) h

/-- Whether a character can stand first among the words of a name. -/
structure IsInitial (c : Char) : Prop where
  lettered : isLetterOrNumber c
  high : ¬ c.isLower

theorem code_of_lower (h : c.isLower) : 97 ≤ c.toNat ∧ c.toNat ≤ 122 := by
  have hrange : (decide (c.val ≥ 97) && decide (c.val ≤ 122)) = true := h
  simp only [Bool.and_eq_true, decide_eq_true_eq, ge_iff_le, UInt32.le_iff_toNat_le] at hrange
  exact hrange

theorem upper_char_of_lower (h : c.isLower) : upperChar c ≠ [c] := by
  have hsmall : ∀ n ∈ List.range' 97 26, upperChar (Char.ofNat n) ≠ [Char.ofNat n] := by
    decide +kernel
  have hc := hsmall c.toNat <|
    List.mem_range'_1.mpr ⟨(code_of_lower h).1, Nat.lt_succ_of_le (code_of_lower h).2⟩
  rwa [Char.ofNat_toNat] at hc

theorem initial_of_capital (h : inCategories CaseRun.capital c) : IsInitial c where
  lettered := by
    have hword : inCategories (Category.letters ++ Category.numbers) c :=
      in_categories_mono (by decide) h
    rwa [inCategories, List.any_append] at hword
  high := by
    intro hlower
    have hapart : ∀ category ∈ CaseRun.capital, category.ranges.apart [(97, 122)] := by
      decide +kernel
    obtain ⟨category, hcategory, hc⟩ := in_categories_iff.mp h
    refine CodeRanges.apart_spec (hapart category hcategory) (sorted_ranges category) (by decide)
      (category_contains_iff.mp hc) ⟨(97, 122), List.mem_singleton_self _, ?_⟩
    exact code_of_lower hlower

/-- The characters of a text that are numbers, but neither decimal digits nor letter numbers. -/
def otherNumbers (cs : List Char) : List Char :=
  cs.filter Category.otherNumber.contains

theorem other_numbers_eq_nil {cs : List Char} (h : ∀ c ∈ cs, inCategories continuing c) :
    otherNumbers cs = [] :=
  List.filter_eq_nil_iff.mpr fun c hc hother => other_number_not_continuing hother (h c hc)

/-- Some characters from a word in their capital form. They begin as a name can, and have the same
other numbers as before. -/
structure IsCapitalOf (word cs : List Char) : Prop where
  begins : ∃ first rest, cs = first :: rest ∧ IsInitial first
  spelled : ∀ c ∈ cs, inCategories (.otherNumber :: continuing) c
  kept : otherNumbers cs = otherNumbers word

theorem capital_character (h : isLetterOrNumber c) : IsCapitalOf [c] (upperChar c) := by
  rcases upper_char_cases c with hsame | ⟨hsymbol, -⟩ | ⟨hsmall, first, rest, hupper, hfirst, hrest⟩
  · rw [hsame]
    refine ⟨⟨c, [], rfl, h, fun hlower => upper_char_of_lower hlower hsame⟩, ?_, rfl⟩
    exact List.forall_mem_singleton.mpr (word_character h)
  · exact absurd h (symbol_not_word hsymbol)
  · have hall : ∀ d ∈ first :: rest, inCategories continuing d := by
      refine List.forall_mem_cons.mpr ⟨in_categories_mono (by decide) hfirst, fun d hd => ?_⟩
      rcases hrest d hd with hletter | hmark
      · exact in_categories_mono (by decide) hletter
      · exact in_categories_iff.mpr ⟨_, by decide, hmark⟩
    have hc : inCategories continuing c := in_categories_mono (by decide) hsmall
    rw [hupper]
    refine ⟨⟨first, rest, rfl, initial_of_capital hfirst⟩, fun d hd => ?_, ?_⟩
    · exact in_categories_mono (fun _ => List.mem_cons_of_mem _) (hall d hd)
    · rw [other_numbers_eq_nil hall, other_numbers_eq_nil (List.forall_mem_singleton.mpr hc)]

theorem capital_word {word : List Char} (hword : word ≠ []) (h : ∀ c ∈ word, isLetterOrNumber c) :
    IsCapitalOf word (capitalize word) := by
  obtain ⟨c, rest, rfl⟩ := List.exists_cons_of_ne_nil hword
  obtain ⟨hc, hrest⟩ := List.forall_mem_cons.mp h
  obtain ⟨⟨first, more, hupper, hinitial⟩, hspelled, hkept⟩ := capital_character hc
  refine ⟨⟨first, more ++ rest, by rw [capitalize, hupper, List.cons_append], hinitial⟩, ?_, ?_⟩
  · exact List.forall_mem_append.mpr ⟨hspelled, fun d hd => word_character (hrest d hd)⟩
  · rw [capitalize, otherNumbers, List.filter_append, ← otherNumbers, hkept,
      otherNumbers, otherNumbers, ← List.filter_append, List.singleton_append]

theorem mem_words {cs word : List Char} (h : word ∈ words cs) :
    word ≠ [] ∧ ∀ c ∈ word, isLetterOrNumber c := by
  rw [words, List.mem_filter] at h
  refine ⟨by simpa using h.2, fun c hc => ?_⟩
  simpa using not_separator_of_mem_split_chars h.1 hc

/-- The words of a text are its letters and numbers. -/
theorem flatten_words (cs : List Char) : (words cs).flatten = cs.filter isLetterOrNumber := by
  rw [words, List.flatten_filter_not_isEmpty, flatten_split_chars]
  simp only [Bool.not_not]

/-- The words of a text in capital form have the other numbers of the text. -/
theorem other_numbers_words (cs : List Char) :
    otherNumbers ((words cs).flatMap capitalize) = otherNumbers cs := by
  have hwords : otherNumbers ((words cs).flatMap capitalize) = otherNumbers (words cs).flatten := by
    rw [otherNumbers, otherNumbers, List.filter_flatMap, List.filter_flatten, List.flatMap]
    refine congrArg List.flatten (List.map_congr_left fun word hword => ?_)
    obtain ⟨hne, hletters⟩ := mem_words hword
    exact (capital_word hne hletters).kept
  rw [hwords, flatten_words, otherNumbers, List.filter_filter]
  refine List.filter_congr fun c _ => ?_
  cases hother : Category.otherNumber.contains c with
  | false => rfl
  | true =>
      have hnumeric : isNumeric c := in_categories_iff.mpr ⟨.otherNumber, by decide, hother⟩
      rw [isLetterOrNumber, hnumeric, Bool.or_true]
      rfl

/-- How the name of a component is spelled, for any path. -/
theorem component_name_spelled (p : Path) : ∃ first rest,
    (componentName p).toList = first :: rest ∧ isLetter first ∧ ¬ first.isLower ∧
      (∀ c ∈ rest, inCategories (.otherNumber :: continuing) c) ∧
      otherNumbers (first :: rest) = otherNumbers (baseName p).toList := by
  rw [componentName, String.toList_ofList]
  generalize (baseName p).toList = cs
  have hkept := other_numbers_words cs
  have hspelled :
      ∀ c ∈ (words cs).flatMap capitalize, inCategories (.otherNumber :: continuing) c := by
    intro c hc
    obtain ⟨word, hword, hc⟩ := List.mem_flatMap.mp hc
    obtain ⟨hne, hletters⟩ := mem_words hword
    exact (capital_word hne hletters).spelled c hc
  have hbegins : ∀ first ∈ ((words cs).flatMap capitalize).head?, IsInitial first := by
    intro first hfirst
    cases hwords : words cs with
    | nil =>
        rw [hwords] at hfirst
        cases hfirst
    | cons word rest =>
        obtain ⟨hne, hletters⟩ := mem_words (hwords ▸ List.mem_cons_self : word ∈ words cs)
        obtain ⟨⟨initial, more, hcapital, hinitial⟩, -, -⟩ := capital_word hne hletters
        rw [hwords, List.flatMap_cons, hcapital] at hfirst
        cases hfirst
        exact hinitial
  generalize (words cs).flatMap capitalize = name at hkept hspelled hbegins
  cases hhead : name.head?.all isNumeric with
  | true =>
      refine ⟨'S', ['v', 'g'] ++ name, rfl, by decide +kernel, by decide, ?_, ?_⟩
      · exact List.forall_mem_append.mpr ⟨by decide +kernel, hspelled⟩
      · rw [← hkept]
        have hlead : otherNumbers ['S', 'v', 'g'] = [] := by decide +kernel
        rw [← List.cons_append, otherNumbers, List.filter_append, ← otherNumbers, hlead]
        rfl
  | false =>
      cases name with
      | nil => cases hhead
      | cons first rest =>
          obtain ⟨hletter, hhigh⟩ := hbegins first rfl
          rw [List.head?_cons, Option.all_some] at hhead
          rw [isLetterOrNumber, hhead, Bool.or_false] at hletter
          exact ⟨first, rest, rfl, hletter, hhigh, (List.forall_mem_cons.mp hspelled).2, hkept⟩

/-- No reserved word begins like a component's name. -/
theorem not_reserved {name : String} {first : Char} {rest : List Char}
    (hname : name.toList = first :: rest) (hhigh : ¬ first.isLower) : name ∉ reservedWords := by
  have hwords : ∀ word ∈ reservedWords, word.toList.head?.any Char.isLower := by decide +kernel
  intro hmem
  have hlower := hwords name hmem
  rw [hname] at hlower
  exact hhigh hlower

/-- A component's name, with a number or without one, is an identifier just if there is no other
number in the name of the file. -/
theorem identifier_iff {p : Path} {number : String}
    (hnumber : ∀ c ∈ number.toList, Category.decimalNumber.contains c) :
    IsIdentifier (componentName p ++ number) ↔ otherNumbers (baseName p).toList = [] := by
  obtain ⟨first, rest, hname, hletter, hhigh, hrest, hkept⟩ := component_name_spelled p
  have htext : (componentName p ++ number).toList = first :: (rest ++ number.toList) := by
    rw [String.toList_append, hname, List.cons_append]
  rw [← hkept]
  constructor
  · rintro ⟨-, first', rest', htext', -, hall⟩
    rw [htext] at htext'
    obtain ⟨rfl, rfl⟩ := List.cons_eq_cons.mp htext'
    refine other_numbers_eq_nil
      (List.forall_mem_cons.mpr ⟨in_categories_mono (by decide) hletter, ?_⟩)
    exact (List.forall_mem_append.mp hall).1
  · intro hnone
    refine ⟨not_reserved htext hhigh, first, rest ++ number.toList, htext, hletter, ?_⟩
    refine List.forall_mem_append.mpr ⟨fun c hc => ?_, fun c hc => ?_⟩
    · have hother := List.filter_eq_nil_iff.mp hnone c (List.mem_cons_of_mem _ hc)
      have hc := hrest c hc
      rw [inCategories, List.any_cons, Bool.or_eq_true] at hc
      exact hc.resolve_left hother
    · exact in_categories_iff.mpr ⟨_, by decide, hnumber c hc⟩

end Naming

namespace Module

/-- Names that are given one after another are names of the files, one each. -/
theorem AreComponentsOf.names {files : List FileOutput} {components : List Jsx.Component}
    (h : AreComponentsOf files components) :
    List.Forall₂ (fun file name => IsNameOf name file) files (components.map (·.name)) := by
  induction h with
  | nil => exact .nil
  | snoc _ hname ih =>
      rw [List.map_append, List.map_singleton]
      refine List.rel_append ih (.cons ?_ .nil)
      cases hname with
      | own _ => exact .inl rfl
      | numbered _ htwo _ _ => exact .inr ⟨_, htwo, rfl⟩

end Module

namespace Batch

open Naming Text

/-- Names of components as identifiers. For every path the name begins with a letter and goes on
with what an identifier may hold and numbers of other kinds. These are the ones in the name of the
file, so the name is an identifier just if there are none. The lines at the margin of a module of
processed files open its components under a name for each file, its own or that with a number, and
such a name is an identifier under the same condition. -/
theorem names_identifiers_iff (optimizer : Optimizer) (convert : Converter) (files : Files)
    (paths : List Path) :
    let batch := (process optimizer convert files paths).value
    (∀ p : Path, (∃ first rest, (componentName p).toList = first :: rest ∧ isLetter first ∧
        (∀ c ∈ rest, inCategories (.otherNumber :: continuing) c) ∧
        otherNumbers (first :: rest) = otherNumbers (baseName p).toList) ∧
      (IsIdentifier (componentName p) ↔ otherNumbers (baseName p).toList = [])) ∧
    ∀ m ∈ batch.modules.value, Jsx.namesAtMargin m.render = m.names ∧
      List.Forall₂ (fun file name => Module.IsNameOf name file ∧
          (IsIdentifier name ↔ otherNumbers (baseName file.path).toList = []))
        (m.filesOf batch.files) m.names := by
  intro batch
  have hplain (p : Path) : IsIdentifier (componentName p) ↔
      otherNumbers (baseName p).toList = [] := by
    have hempty : IsIdentifier (componentName p ++ "") ↔ otherNumbers (baseName p).toList = [] :=
      identifier_iff (by simp)
    rwa [String.append_empty] at hempty
  refine ⟨fun p => ⟨?_, hplain p⟩, fun m hm => ⟨names_processed hm, ?_⟩⟩
  · obtain ⟨first, rest, hname, hletter, -, hrest, hkept⟩ := component_name_spelled p
    exact ⟨first, rest, hname, hletter, hrest, hkept⟩
  · have hnames := ((divide_modules _).components m hm).names
    have hfiles : ∀ file ∈ m.filesOf batch.files, file.componentName = componentName file.path :=
      fun file hfile => (mem_process (List.mem_of_mem_filter hfile)).1
    refine (List.forall₂_and_left _ _ |>.mpr ⟨hfiles, hnames⟩).imp ?_
    rintro file name ⟨hfile, hname⟩
    refine ⟨hname, ?_⟩
    rcases hname with rfl | ⟨n, -, rfl⟩
    · rw [hfile, hplain]
    · rw [hfile, identifier_iff (decimal_digits n)]

/-- A power in the name of a file stays in the name of its component. -/
theorem power_not_identifier :
    componentName ⟨"x².svg"⟩ = "X²" ∧ ¬ IsIdentifier (componentName ⟨"x².svg"⟩) := by
  have hname : componentName ⟨"x².svg"⟩ = "X²" := by decide +kernel
  refine ⟨hname, ?_⟩
  rw [hname]
  rintro ⟨-, first, rest, htext, -, hrest⟩
  obtain ⟨rfl, rfl⟩ := List.cons_eq_cons.mp htext
  exact absurd (hrest '²' (List.mem_singleton_self _)) (by decide +kernel)

end Batch

end SvgPress
