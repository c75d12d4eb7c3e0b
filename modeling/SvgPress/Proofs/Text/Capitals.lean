import Mathlib.Data.List.Chain
import Mathlib.Data.List.Sort
import SvgPress.Text.Case

/-!
Capital forms. A character without a capital form of its own is left alone, the letters in circles
go to letters in circles, and every other character with a capital form is a letter, a letter number
or the one mark that has one; what it becomes begins with a capital letter, a modifier letter or a
letter number, and goes on with letters and marks. All this is read off the tables, range by range.
-/

namespace SvgPress.Text

/-- Equal steps of code points: the first one, how far a step goes, and how many steps follow. -/
structure Steps where
  first : Nat
  step : Nat
  count : Nat

namespace Steps

/-- The code point after some steps. -/
def point (s : Steps) (k : Nat) : Nat :=
  s.first + k * s.step

/-- A code point alone. -/
def single (n : Nat) : Steps :=
  ⟨n, 0, 0⟩

theorem point_single (n k : Nat) : (single n).point k = n := by
  rw [point, single, Nat.mul_zero, Nat.add_zero]

end Steps

namespace CodeRanges

variable {ranges others : CodeRanges} {n low high : Nat}

/-- Whether a code point lies in some range, wherever that stands. -/
def Holds (ranges : CodeRanges) (n : Nat) : Prop :=
  ∃ r ∈ ranges, r.1 ≤ n ∧ n ≤ r.2

/-- Whether every range begins where the one before it began, or later. -/
def IsSorted (ranges : CodeRanges) : Prop :=
  ranges.IsChain fun a b => a.1 ≤ b.1

instance (ranges : CodeRanges) : Decidable ranges.IsSorted :=
  inferInstanceAs (Decidable (ranges.IsChain fun a b => a.1 ≤ b.1))

theorem holds_of_contains (h : ranges.contains n) : ranges.Holds n := by
  induction ranges with
  | nil => cases h
  | cons r ranges ih =>
      rw [contains, Bool.and_eq_true, Bool.or_eq_true, decide_eq_true_eq, decide_eq_true_eq] at h
      rcases h.2 with hhigh | hrest
      · exact ⟨r, List.mem_cons_self, h.1, hhigh⟩
      · obtain ⟨found, hfound, hn⟩ := ih hrest
        exact ⟨found, List.mem_cons_of_mem r hfound, hn⟩

theorem contains_of_holds (hsorted : ranges.IsSorted) (h : ranges.Holds n) : ranges.contains n := by
  have hpairs : ranges.Pairwise fun a b => a.1 ≤ b.1 := List.isChain_iff_pairwise.mp hsorted
  clear hsorted
  induction ranges with
  | nil =>
      obtain ⟨_, hmem, -⟩ := h
      cases hmem
  | cons r ranges ih =>
      rw [List.pairwise_cons] at hpairs
      obtain ⟨found, hfound, hlow, hhigh⟩ := h
      rw [contains, Bool.and_eq_true, Bool.or_eq_true, decide_eq_true_eq, decide_eq_true_eq]
      rcases List.mem_cons.mp hfound with rfl | hfound
      · exact ⟨hlow, .inl hhigh⟩
      · exact ⟨le_trans (hpairs.1 found hfound) hlow,
          .inr (ih ⟨found, hfound, hlow, hhigh⟩ hpairs.2)⟩

theorem Holds.mono (h : others.Holds n) (hsub : others.Sublist ranges) : ranges.Holds n := by
  obtain ⟨r, hr, hin⟩ := h
  exact ⟨r, hsub.mem hr, hin⟩

/-- The ranges from the first on that does not end before a code point. -/
def since (ranges : CodeRanges) (low : Nat) : CodeRanges :=
  ranges.dropWhile fun r => Nat.ble (r.2 + 1) low

/-- A range that does not end before the code point is not dropped. -/
theorem mem_since {r : Nat × Nat} (hr : r ∈ ranges) (hlow : low ≤ r.2) : r ∈ ranges.since low := by
  have hsplit : r ∈ (ranges.takeWhile fun r => Nat.ble (r.2 + 1) low) ++ ranges.since low := by
    rwa [since, List.takeWhile_append_dropWhile]
  rcases List.mem_append.mp hsplit with htaken | hleft
  · have hends := List.all_eq_true.mp List.all_takeWhile r htaken
    rw [Nat.ble_eq] at hends
    omega
  · exact hleft

/-- Whether all code points of some steps lie in ranges that do not end before the first. -/
def holdsSteps (ranges : CodeRanges) (s : Steps) : Bool :=
  let found := ranges.takeWhile fun r => Nat.ble r.1 (s.point s.count)
  (List.range (s.count + 1)).all fun k =>
    found.any fun r => Nat.ble r.1 (s.point k) && Nat.ble (s.point k) r.2

theorem holds_step {s : Steps} {k : Nat} (h : ranges.holdsSteps s) (hk : k ≤ s.count) :
    ranges.Holds (s.point k) := by
  rw [holdsSteps, List.all_eq_true] at h
  obtain ⟨r, hr, hin⟩ := List.any_eq_true.mp (h k (List.mem_range.mpr (by omega)))
  rw [Bool.and_eq_true, Nat.ble_eq, Nat.ble_eq] at hin
  exact ⟨r, (List.takeWhile_sublist _).mem hr, hin⟩

/-- Whether each of some steps lies in one of some tables. What ends before steps begin is dropped
for all that follow, so nothing is found for steps that are not sorted. -/
def cover (tables : List CodeRanges) : List Steps → Bool
  | [] => true
  | s :: rest =>
    let left := tables.map (·.since s.first)
    left.any (·.holdsSteps s) && cover left rest

theorem cover_spec {tables : List CodeRanges} {all : List Steps} (h : cover tables all) :
    ∀ s ∈ all, ∃ ranges ∈ tables, ∀ k ≤ s.count, ranges.Holds (s.point k) := by
  induction all generalizing tables with
  | nil => exact fun s hs => absurd hs List.not_mem_nil
  | cons s all ih =>
      rw [cover, Bool.and_eq_true, List.any_eq_true] at h
      have hfound : ∀ t ∈ s :: all, ∃ left ∈ tables.map (·.since s.first),
          ∀ k ≤ t.count, left.Holds (t.point k) := by
        rw [List.forall_mem_cons]
        obtain ⟨⟨left, hleft, hsteps⟩, hrest⟩ := h
        exact ⟨⟨left, hleft, fun k hk => holds_step hsteps hk⟩, ih hrest⟩
      intro t ht
      obtain ⟨left, hleft, hall⟩ := hfound t ht
      obtain ⟨ranges, hranges, rfl⟩ := List.mem_map.mp hleft
      exact ⟨ranges, hranges, fun k hk => (hall k hk).mono (List.dropWhile_sublist _)⟩

/-- Whether ranges have no code point in common with others, both being sorted. -/
def apart : CodeRanges → CodeRanges → Bool
  | [], _ => true
  | (low, high) :: rest, others =>
    let others := others.since low
    (others.head?.all fun r => Nat.ble (high + 1) r.1) && apart rest others

theorem apart_spec (hapart : apart ranges others) (hranges : ranges.IsSorted)
    (hothers : others.IsSorted) (h : ranges.Holds n) : ¬ others.Holds n := by
  rw [IsSorted, List.isChain_iff_pairwise] at hranges hothers
  induction ranges generalizing others with
  | nil =>
      obtain ⟨_, hmem, -⟩ := h
      cases hmem
  | cons r ranges ih =>
      rintro ⟨other, hother, hlow, hhigh⟩
      rw [apart, Bool.and_eq_true] at hapart
      rw [List.pairwise_cons] at hranges
      obtain ⟨found, hfound, hfirst, hlast⟩ := h
      have hbegins : r.1 ≤ found.1 := by
        rcases List.mem_cons.mp hfound with rfl | hfound
        · exact le_rfl
        · exact hranges.1 found hfound
      have hleft : other ∈ others.since r.1 := mem_since hother (by omega)
      have hsorted : (others.since r.1).Pairwise fun a b => a.1 ≤ b.1 :=
        hothers.sublist (List.dropWhile_sublist _)
      rcases List.mem_cons.mp hfound with rfl | hfound
      · obtain ⟨hhead, -⟩ := hapart
        generalize others.since _ = left at hleft hsorted hhead
        cases left with
        | nil => cases hleft
        | cons next left =>
            rw [List.head?_cons, Option.all_some, Nat.ble_eq] at hhead
            have hnext : next.1 ≤ other.1 := by
              rcases List.mem_cons.mp hleft with rfl | hleft
              · exact le_rfl
              · exact (List.pairwise_cons.mp hsorted).1 other hleft
            omega
      · exact ih hapart.2 hranges.2 hsorted ⟨found, hfound, hfirst, hlast⟩
          ⟨other, hleft, hlow, hhigh⟩

end CodeRanges

section Categories

variable {c : Char} {category : Category}

theorem sorted_ranges (category : Category) : category.ranges.IsSorted := by
  cases category <;> decide +kernel

theorem category_contains_iff : category.contains c ↔ category.ranges.Holds c.toNat :=
  ⟨CodeRanges.holds_of_contains, CodeRanges.contains_of_holds (sorted_ranges category)⟩

theorem in_categories_iff {categories : List Category} :
    inCategories categories c ↔ ∃ category ∈ categories, category.contains c := by
  rw [inCategories, List.any_eq_true]

theorem in_categories_mono {categories more : List Category}
    (hmore : ∀ category ∈ categories, category ∈ more) (h : inCategories categories c) :
    inCategories more c := by
  obtain ⟨category, hcategory, hc⟩ := in_categories_iff.mp h
  exact in_categories_iff.mpr ⟨category, hmore category hcategory, hc⟩

/-- A character of a category is in none that has no character in common with it. -/
theorem not_in_categories {category : Category} {others : List Category}
    (hothers : ∀ other ∈ others, category.ranges.apart other.ranges)
    (h : category.contains c) : ¬ inCategories others c := by
  rw [in_categories_iff]
  rintro ⟨other, hother, hcontains⟩
  exact CodeRanges.apart_spec (hothers other hother) (sorted_ranges _) (sorted_ranges _)
    (category_contains_iff.mp h) (category_contains_iff.mp hcontains)

/-- Whether steps of code points stay in one of some categories. -/
def StayIn (categories : List Category) (s : Steps) : Prop :=
  ∃ category ∈ categories, ∀ k ≤ s.count, category.ranges.Holds (s.point k)

/-- Whether each of some steps stays in one of some categories. -/
def allStay (categories : List Category) (all : List Steps) : Bool :=
  CodeRanges.cover (categories.map Category.ranges)
    (all.insertionSort fun s t => s.first ≤ t.first)

theorem stay_of_all {categories : List Category} {all : List Steps} (h : allStay categories all)
    {s : Steps} (hs : s ∈ all) : StayIn categories s := by
  obtain ⟨_, hranges, hall⟩ := CodeRanges.cover_spec h s ((List.mem_insertionSort _).mpr hs)
  obtain ⟨category, hcategory, rfl⟩ := List.mem_map.mp hranges
  exact ⟨category, hcategory, hall⟩

theorem code_of_valid {n : Nat} (h : n.isValidChar) : (Char.ofNat n).toNat = n := by
  rw [Char.ofNat, dif_pos h]
  rfl

/-- No code point of a category is left out of the characters. -/
theorem valid_of_holds {n : Nat} (h : category.ranges.Holds n) : n.isValidChar := by
  have hvalid : ∀ category : Category, category.ranges.all fun r =>
      Nat.ble (r.2 + 1) 0xD800 || (Nat.ble 0xE000 r.1 && Nat.ble (r.2 + 1) 0x110000) := by
    intro category
    cases category <;> decide +kernel
  obtain ⟨r, hr, hlow, hhigh⟩ := h
  have hr := List.all_eq_true.mp (hvalid category) r hr
  simp only [Bool.or_eq_true, Bool.and_eq_true, Nat.ble_eq] at hr
  unfold Nat.isValidChar
  omega

theorem in_categories_of_stay {categories : List Category} {s : Steps} {k : Nat}
    (h : StayIn categories s) (hk : k ≤ s.count) :
    inCategories categories (Char.ofNat (s.point k)) := by
  obtain ⟨category, hcategory, hholds⟩ := h
  refine in_categories_iff.mpr ⟨category, hcategory, ?_⟩
  rw [category_contains_iff, code_of_valid (valid_of_holds (hholds k hk))]
  exact hholds k hk

end Categories

namespace CaseRun

variable {run : CaseRun} {n m : Nat}

/-- The code points of a run. -/
def source (run : CaseRun) : Steps :=
  ⟨run.first, run.step, (run.last - run.first) / run.step⟩

/-- Where these go. -/
def target (run : CaseRun) : Steps :=
  { run.source with first := ((run.first : Int) + run.offset).toNat }

theorem map_eq_some (himage : 0 ≤ (run.first : Int) + run.offset) (h : run.map? n = some m) :
    ∃ k ≤ run.source.count, n = run.source.point k ∧ m = run.target.point k := by
  rw [map?] at h
  split at h
  · rename_i hrange
    simp only [Bool.and_eq_true, decide_eq_true_eq, beq_iff_eq] at hrange
    have hstep := Nat.div_add_mod (n - run.first) run.step
    rw [hrange.2, Nat.add_zero, Nat.mul_comm] at hstep
    have hn : n = run.first + (n - run.first) / run.step * run.step := by omega
    refine ⟨(n - run.first) / run.step, Nat.div_le_div_right (by omega), hn, ?_⟩
    have hm := Option.some.inj h
    simp only [Steps.point, target, source]
    omega
  · cases h

/-- The categories of the characters with a capital form other than the letters in circles. -/
def small : List Category :=
  [.lowercaseLetter, .titlecaseLetter, .letterNumber, .nonspacingMark]

/-- What a capital form begins with, apart from the letters in circles. -/
def capital : List Category :=
  [.uppercaseLetter, .modifierLetter, .letterNumber]

/-- Whether a run is that of the letters in circles. -/
def isCircled (run : CaseRun) : Bool :=
  run.first == 0x24D0

theorem upper_runs_stay (h : run ∈ upperRuns) : 0 ≤ (run.first : Int) + run.offset ∧
    ((StayIn small run.source ∧ StayIn capital run.target) ∨
      (StayIn [.otherSymbol] run.source ∧ StayIn [.otherSymbol] run.target)) := by
  have himage : ∀ run ∈ upperRuns, 0 ≤ (run.first : Int) + run.offset := by decide +kernel
  refine ⟨himage run h, ?_⟩
  cases hcircled : run.isCircled with
  | true =>
      have hsources : allStay [.otherSymbol] ((upperRuns.filter isCircled).map source) := by
        decide +kernel
      have htargets : allStay [.otherSymbol] ((upperRuns.filter isCircled).map target) := by
        decide +kernel
      have hmem := List.mem_filter.mpr ⟨h, hcircled⟩
      exact .inr ⟨stay_of_all hsources (List.mem_map_of_mem hmem),
        stay_of_all htargets (List.mem_map_of_mem hmem)⟩
  | false =>
      have hsources : allStay small ((upperRuns.filter (!·.isCircled)).map source) := by
        decide +kernel
      have htargets : allStay capital ((upperRuns.filter (!·.isCircled)).map target) := by
        decide +kernel
      have hmem : run ∈ upperRuns.filter (!·.isCircled) :=
        List.mem_filter.mpr ⟨h, by rw [hcircled]; rfl⟩
      exact .inl ⟨stay_of_all hsources (List.mem_map_of_mem hmem),
        stay_of_all htargets (List.mem_map_of_mem hmem)⟩

end CaseRun

theorem upper_expansions_stay {e : Nat × List Nat} (h : e ∈ upperExpansions) :
    StayIn CaseRun.small (.single e.1) ∧ ∃ first rest, e.2 = first :: rest ∧
      StayIn CaseRun.capital (.single first) ∧
      ∀ n ∈ rest, StayIn [.uppercaseLetter, .modifierLetter, .nonspacingMark] (.single n) := by
  have hsources : allStay CaseRun.small (upperExpansions.map (.single ·.1)) := by decide +kernel
  have hfirsts : allStay CaseRun.capital
      ((upperExpansions.filterMap (·.2.head?)).map .single) := by decide +kernel
  have hrests : allStay [.uppercaseLetter, .modifierLetter, .nonspacingMark]
      ((upperExpansions.flatMap (·.2.tail)).map .single) := by decide +kernel
  have hsome : ∀ e ∈ upperExpansions, e.2 ≠ [] := by decide +kernel
  refine ⟨stay_of_all hsources (List.mem_map_of_mem h), ?_⟩
  obtain ⟨first, rest, hcodes⟩ := List.exists_cons_of_ne_nil (hsome e h)
  refine ⟨first, rest, hcodes, stay_of_all hfirsts (List.mem_map_of_mem ?_), fun n hn => ?_⟩
  · exact List.mem_filterMap.mpr ⟨e, h, by rw [hcodes]; rfl⟩
  · refine stay_of_all hrests (List.mem_map_of_mem (List.mem_flatMap.mpr ⟨e, h, ?_⟩))
    rwa [hcodes]

section Characters

variable {c d : Char}

/-- A code point that stays in some categories is a character of these. -/
theorem in_categories_of_code {categories : List Category} {n : Nat}
    (h : StayIn categories (.single n)) : inCategories categories (Char.ofNat n) := by
  have hmem := in_categories_of_stay h (Nat.zero_le 0)
  rwa [Steps.point_single] at hmem

theorem upper_char_of_expansion {codes : List Nat}
    (h : upperExpansions.lookup c.toNat = some codes) :
    inCategories CaseRun.small c ∧ ∃ first rest, upperChar c = first :: rest ∧
      inCategories CaseRun.capital first ∧
      ∀ d ∈ rest, isLetter d ∨ Category.nonspacingMark.contains d := by
  obtain ⟨before, after, htable, -⟩ := List.lookup_eq_some_iff.mp h
  have hmem : (c.toNat, codes) ∈ upperExpansions := by
    rw [htable]
    exact List.mem_append_right _ List.mem_cons_self
  obtain ⟨hsource, first, rest, rfl, hfirst, hrest⟩ := upper_expansions_stay hmem
  have hupper : upperChar c = (first :: rest).map Char.ofNat := by simp only [upperChar, h]
  refine ⟨by simpa only [Char.ofNat_toNat] using in_categories_of_code hsource,
    Char.ofNat first, rest.map Char.ofNat, hupper, in_categories_of_code hfirst, fun d hd => ?_⟩
  obtain ⟨n, hn, rfl⟩ := List.mem_map.mp hd
  obtain ⟨category, hcategory, hcontains⟩ :=
    in_categories_iff.mp (in_categories_of_code (hrest n hn))
  simp only [List.mem_cons, List.not_mem_nil, or_false] at hcategory
  rcases hcategory with rfl | rfl | rfl
  · exact .inl (in_categories_iff.mpr ⟨_, by decide, hcontains⟩)
  · exact .inl (in_categories_iff.mpr ⟨_, by decide, hcontains⟩)
  · exact .inr hcontains

/-- What the capital form of a character can be. -/
theorem upper_char_cases (c : Char) :
    upperChar c = [c] ∨
    (Category.otherSymbol.contains c ∧
      ∃ d, upperChar c = [d] ∧ Category.otherSymbol.contains d) ∨
    (inCategories CaseRun.small c ∧ ∃ first rest, upperChar c = first :: rest ∧
      inCategories CaseRun.capital first ∧
      ∀ d ∈ rest, isLetter d ∨ Category.nonspacingMark.contains d) := by
  cases hlookup : upperExpansions.lookup c.toNat with
  | some codes =>
      obtain ⟨hsource, first, rest, hupper, hfirst, hrest⟩ := upper_char_of_expansion hlookup
      exact .inr (.inr ⟨hsource, first, rest, hupper, hfirst, hrest⟩)
  | none =>
      have hupper : upperChar c = [Char.ofNat (mapCode upperRuns c.toNat)] := by
        simp only [upperChar, hlookup]
      rw [mapCode] at hupper
      cases hfind : upperRuns.findSome? (·.map? c.toNat) with
      | none =>
          rw [hfind, Option.getD_none, Char.ofNat_toNat] at hupper
          exact .inl hupper
      | some m =>
          rw [hfind, Option.getD_some] at hupper
          obtain ⟨run, hrun, hmap⟩ := List.exists_of_findSome?_eq_some hfind
          obtain ⟨himage, hstays⟩ := CaseRun.upper_runs_stay hrun
          obtain ⟨k, hk, hsource, rfl⟩ := CaseRun.map_eq_some himage hmap
          have hc : c = Char.ofNat (run.source.point k) := by rw [← hsource, Char.ofNat_toNat]
          rcases hstays with ⟨hfrom, hto⟩ | ⟨hfrom, hto⟩
          · exact .inr (.inr ⟨hc ▸ in_categories_of_stay hfrom hk, _, [], hupper,
              in_categories_of_stay hto hk, by simp⟩)
          · have hsymbol := in_categories_of_stay hfrom hk
            have hsymbol' := in_categories_of_stay hto hk
            rw [← hc] at hsymbol
            simp only [inCategories, List.any_cons, List.any_nil, Bool.or_false] at hsymbol hsymbol'
            exact .inr (.inl ⟨hsymbol, _, hupper, hsymbol'⟩)

/-- Whether the tables have a character as the capital form of none. -/
def isNoCapital (d : Char) : Bool :=
  d != Char.ofNat 0 && (upperExpansions.all fun e => !e.2.contains d.toNat) &&
    upperRuns.all fun run => decide ((d.toNat : Int) < run.first + run.offset) ||
      decide ((run.last : Int) + run.offset < d.toNat)

theorem code_of_char {n : Nat} (hd : d ≠ Char.ofNat 0) (h : Char.ofNat n = d) : n = d.toNat := by
  by_cases hvalid : n.isValidChar
  · rw [← h, code_of_valid hvalid]
  · rw [Char.ofNat, dif_neg hvalid] at h
    exact absurd h.symm hd

/-- A character that is in no table stands in no capital form but its own. -/
theorem not_mem_upper_char (hd : isNoCapital d) (h : c ≠ d) : d ∉ upperChar c := by
  simp only [isNoCapital, Bool.and_eq_true, bne_iff_ne, List.all_eq_true, Bool.or_eq_true,
    decide_eq_true_eq, Bool.not_eq_true'] at hd
  obtain ⟨⟨hzero, hexpansions⟩, hruns⟩ := hd
  intro hmem
  rw [upperChar] at hmem
  split at hmem
  · rename_i codes hcodes
    obtain ⟨n, hn, hchar⟩ := List.mem_map.mp hmem
    obtain ⟨_, _, htable, -⟩ := List.lookup_eq_some_iff.mp hcodes
    have hentry :=
      hexpansions (c.toNat, codes) (htable ▸ List.mem_append_right _ List.mem_cons_self)
    rw [code_of_char hzero hchar] at hn
    rw [List.contains_iff_mem.mpr hn] at hentry
    cases hentry
  · have hmap : mapCode upperRuns c.toNat = d.toNat :=
      code_of_char hzero (List.mem_singleton.mp hmem).symm
    rw [mapCode] at hmap
    cases hfind : upperRuns.findSome? (·.map? c.toNat) with
    | none =>
        rw [hfind] at hmap
        exact h (Char.toNat_inj.mp hmap)
    | some n =>
        rw [hfind, Option.getD_some] at hmap
        obtain ⟨run, hrun, hn⟩ := List.exists_of_findSome?_eq_some hfind
        have hpositive : d.toNat ≠ 0 := fun hcode => hzero (Char.toNat_inj.mp hcode)
        have hout := hruns run hrun
        rw [CaseRun.map?] at hn
        split at hn
        · rename_i hrange
          simp only [Bool.and_eq_true, decide_eq_true_eq] at hrange
          have hvalue := Option.some.inj hn
          omega
        · cases hn

/-- A number is written in decimal digits. -/
theorem decimal_digits (n : Nat) :
    ∀ c ∈ (toString n).toList, Category.decimalNumber.contains c := by
  intro c hc
  rw [Nat.toString_eq_ofList_toDigits, String.toList_ofList] at hc
  have hdigit := Nat.isDigit_of_mem_toDigits (by omega) (by omega) hc
  simp only [Char.isDigit, Bool.and_eq_true, decide_eq_true_eq, ge_iff_le,
    UInt32.le_iff_toNat_le] at hdigit
  exact category_contains_iff.mpr ⟨(48, 57), by decide, hdigit⟩

end Characters

end SvgPress.Text
