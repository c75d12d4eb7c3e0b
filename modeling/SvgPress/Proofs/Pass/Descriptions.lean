import SvgPress.Pass.NodeRemoval
import SvgPress.Proofs.Markup.Pretty

/-!
Descriptions that look generated. What they begin with is looked for behind white space and holds no
line break, so lines put around the parts of a description do not make it look generated.
-/

namespace SvgPress

open Text (isBlank trimChars dropBack)

/-- What a trimmed text begins with is what stands behind the white space, if it ends in something
else itself. -/
theorem prefix_trim_iff {mark cs : List Char} {last : Char} (hlast : mark.getLast? = some last)
    (hshown : isBlank last = false) : mark <+: trimChars cs ↔ mark <+: cs.dropWhile isBlank := by
  have hdrop : trimChars cs = dropBack isBlank (cs.dropWhile isBlank) := rfl
  obtain ⟨back, hsplit, hback, -⟩ := Text.drop_back_split (p := isBlank) (cs.dropWhile isBlank)
  rw [hdrop]
  generalize cs.dropWhile isBlank = ds at *
  constructor
  · intro h
    rw [hsplit]
    exact h.trans (List.prefix_append _ _)
  · rintro ⟨rest, hrest⟩
    rw [hsplit, List.append_eq_append_iff] at hrest
    rcases hrest with ⟨more, hmore, -⟩ | ⟨more, hmark, hmore⟩
    · exact ⟨more, hmore.symm⟩
    · rcases List.eq_nil_or_concat more with rfl | ⟨front, final, rfl⟩
      · rw [List.append_nil] at hmark
        exact hmark ▸ List.prefix_rfl
      · -- the mark would end in white space
        rw [List.concat_eq_append] at hmark hmore
        have hfinal : last = final := by
          rw [hmark, ← List.append_assoc, List.getLast?_concat] at hlast
          exact (Option.some.inj hlast).symm
        have hblank := hback final (by rw [hmore]; simp)
        rw [← hfinal, hshown] at hblank
        cases hblank

theorem drop_blanks_append_of_blank {cs : List Char} (h : ∀ c ∈ cs, isBlank c) (ds : List Char) :
    (cs ++ ds).dropWhile isBlank = ds.dropWhile isBlank :=
  List.dropWhile_append_of_pos h

theorem drop_blanks_append_of_not {cs : List Char} (h : ¬ ∀ c ∈ cs, isBlank c) (ds : List Char) :
    (cs ++ ds).dropWhile isBlank = cs.dropWhile isBlank ++ ds := by
  induction cs with
  | nil => simp at h
  | cons c cs ih =>
      rw [List.cons_append]
      cases hc : isBlank c with
      | false =>
          rw [List.dropWhile_cons_of_neg (by simp [hc]), List.dropWhile_cons_of_neg (by simp [hc])]
          rfl
      | true =>
          rw [List.dropWhile_cons_of_pos hc, List.dropWhile_cons_of_pos hc]
          exact ih fun hcs => h (List.forall_mem_cons.mpr ⟨hc, hcs⟩)

theorem prefix_of_prefix_line {mark cs ds : List Char} (hline : '\n' ∉ mark)
    (h : mark <+: cs ++ '\n' :: ds) : mark <+: cs := by
  obtain ⟨rest, hrest⟩ := h
  rw [List.append_eq_append_iff] at hrest
  rcases hrest with ⟨more, hmore, -⟩ | ⟨more, hmark, hmore⟩
  · exact ⟨more, hmore.symm⟩
  · cases more with
    | nil =>
        rw [List.append_nil] at hmark
        exact hmark ▸ List.prefix_rfl
    | cons c more =>
        obtain ⟨rfl, -⟩ := List.cons_eq_cons.mp hmore
        exact absurd (by rw [hmark]; simp) hline

/-- Parts on lines of their own begin with nothing that they do not begin with in a row. -/
theorem prefix_of_lines {mark pad back : List Char} (hne : mark ≠ []) (hline : '\n' ∉ mark)
    (hpad : ∀ c ∈ pad, isBlank c) (hback : ∀ c ∈ back, isBlank c) (parts : List (List Char))
    (h : mark <+: (parts.flatMap (fun part => pad ++ part ++ ['\n']) ++ back).dropWhile isBlank) :
    mark <+: parts.flatten.dropWhile isBlank := by
  induction parts with
  | nil =>
      have hnone : back.dropWhile isBlank = [] := by
        rw [← List.append_nil back, drop_blanks_append_of_blank hback]
        rfl
      rw [List.flatMap_nil, List.nil_append, hnone] at h
      exact absurd (List.prefix_nil.mp h) hne
  | cons part parts ih =>
      rw [List.flatMap_cons, List.append_assoc, List.append_assoc, List.append_assoc,
        drop_blanks_append_of_blank hpad] at h
      rw [List.flatten_cons]
      by_cases hpart : ∀ c ∈ part, isBlank c
      · rw [drop_blanks_append_of_blank hpart, drop_blanks_append_of_blank (by decide)] at h
        rw [drop_blanks_append_of_blank hpart]
        exact ih h
      · rw [drop_blanks_append_of_not hpart] at h ⊢
        exact (prefix_of_prefix_line hline h).trans (List.prefix_append _ _)

theorem starts_with_iff {s beginning : String} :
    Text.startsWith s beginning ↔ beginning.toList <+: s.toList := by
  rw [Text.startsWith, Option.isSome_iff_exists]
  constructor
  · rintro ⟨rest, hrest⟩
    exact ⟨rest, (Markup.strip_front_eq_some_iff.mp hrest).symm⟩
  · rintro ⟨rest, hrest⟩
    exact ⟨rest, Markup.strip_front_eq_some_iff.mpr hrest.symm⟩

namespace NodeRemoval

theorem generated_iff {s : String} : isGenerated s ↔ (∀ c ∈ s.toList, isBlank c) ∨
    "Created with".toList <+: s.toList.dropWhile isBlank ∨
      "Created using".toList <+: s.toList.dropWhile isBlank := by
  have hempty : (Text.trim s).isEmpty ↔ ∀ c ∈ s.toList, isBlank c := by
    rw [String.isEmpty_iff, ← blank_text_iff_trim, Text.isBlankText, List.all_eq_true]
  simp only [isGenerated, Bool.or_eq_true, hempty, starts_with_iff, Text.to_list_trim, or_assoc]
  have hwith : "Created with".toList.getLast? = some 'h' := by decide
  have husing : "Created using".toList.getLast? = some 'g' := by decide
  rw [prefix_trim_iff hwith (by decide), prefix_trim_iff husing (by decide)]

/-- Lines put around the parts of a description do not make it look generated. -/
theorem generated_of_lines {pad back : String} (hpad : ∀ c ∈ pad.toList, isBlank c)
    (hback : ∀ c ∈ back.toList, isBlank c) {parts : List String} {whole : String}
    (hwhole : whole.toList = '\n' :: (parts.flatMap fun part =>
      pad.toList ++ part.toList ++ ['\n']) ++ back.toList)
    (h : isGenerated whole) : isGenerated (String.join parts) := by
  have hjoin : (String.join parts).toList = (parts.map String.toList).flatten := by
    rw [String.toList_join, List.flatMap_def]
  have hlines : (parts.flatMap fun part => pad.toList ++ part.toList ++ ['\n']) =
      (parts.map String.toList).flatMap fun part => pad.toList ++ part ++ ['\n'] := by
    rw [List.flatMap_map]
  rw [generated_iff, hwhole, hlines] at h
  rw [generated_iff, hjoin]
  have hmark (mark : List Char) (hne : mark ≠ []) (hline : '\n' ∉ mark)
      (h : mark <+: ('\n' :: ((parts.map String.toList).flatMap fun part =>
        pad.toList ++ part ++ ['\n']) ++ back.toList).dropWhile isBlank) :
      mark <+: (parts.map String.toList).flatten.dropWhile isBlank :=
    prefix_of_lines hne hline hpad hback _ h
  rcases h with hblank | hwith | husing
  · refine .inl fun c hc => hblank c ?_
    obtain ⟨part, hpart, hc⟩ := List.mem_flatten.mp hc
    refine List.mem_append_left _ (List.mem_cons_of_mem _ ?_)
    exact List.mem_flatMap.mpr ⟨part, hpart, by simp [hc]⟩
  · exact .inr (.inl (hmark _ (by decide) (by decide) hwith))
  · exact .inr (.inr (hmark _ (by decide) (by decide) husing))

end NodeRemoval

end SvgPress
