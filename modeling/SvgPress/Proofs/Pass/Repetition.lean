import SvgPress.Pass.AttributeText
import SvgPress.Proofs.Markup.Tree
import SvgPress.Proofs.Pass.ColorForms

/-!
Passes over values whose second run changes nothing. Both cleaning and the conversion of colors work
in steps, of which a later one could make work for an earlier one: a line feed becomes a space at an
end, and a trimmed text the name of a color. A value is at rest after one run all the same,
whichever of the steps are on, since each step leaves what the ones before it have brought about.
-/

namespace SvgPress

namespace Pass

/-- A first run under some parameters comes to an end, and a second changes nothing. -/
def RestsAfterOne (pass : Pass) (params : Params) : Prop :=
  ∀ doc, ∃ out, pass.apply params doc = .ok out ∧ pass.apply params out = .ok out

/-- A pass that gives each attribute a value comes to rest if it gives that value the same again. -/
theorem rests_of_values {pass : Pass} {params : Params} {f : Attribute → String}
    (hrun : ∀ doc, pass.apply params doc = .ok (doc.mapTags (·.mapValues f)))
    (hagain : ∀ a : Attribute, f { a with value := f a } = f a) : pass.RestsAfterOne params := by
  intro doc
  refine ⟨doc.mapTags (·.mapValues f), hrun doc, ?_⟩
  have hsame (tag : Tag) : (tag.mapValues f).mapValues f = tag.mapValues f := by
    simp only [Tag.mapValues, List.map_map, Function.comp_def, hagain]
  rw [hrun, Document.map_tags_map_tags]
  exact congrArg (fun g => Except.ok (doc.mapTags g)) (funext hsame)

end Pass

/-! ### White space -/

namespace AttributeText

/-- Which steps some parameters ask for. -/
structure Cleaning.IsAsked (c : Cleaning) (params : Params) : Prop where
  newlines : params.bool "newlines" true = .ok c.newlines
  trim : params.bool "trim" true = .ok c.trim
  spaces : params.bool "spaces" true = .ok c.spaces

theorem apply_clean {c : Cleaning} {params : Params} (h : c.IsAsked params) (doc : Document) :
    cleanup.apply params doc = .ok (doc.mapTags (·.mapValues fun a => c.clean a.value)) := by
  show (params.bool "newlines" true).bind _ = _
  rw [h.newlines]
  show (params.bool "trim" true).bind _ = _
  rw [h.trim]
  show (params.bool "spaces" true).bind _ = _
  rw [h.spaces]
  rfl

/-- What the steps that are on bring about. -/
structure Cleaning.IsClean (c : Cleaning) (cs : List Char) : Prop where
  newlines : c.newlines → '\n' ∉ cs
  trim : c.trim → Text.IsTrimmed cs
  spaces : c.spaces → Text.IsSpaced cs

/-- No step undoes what a step before it has brought about. -/
theorem Cleaning.is_clean (c : Cleaning) (value : String) : c.IsClean (c.clean value).toList := by
  let joined := if c.newlines then Text.joinLines value.toList else value.toList
  let trimmed := if c.trim then Text.trimChars joined else joined
  have hclean : (c.clean value).toList = if c.spaces then Text.squeeze trimmed else trimmed :=
    String.toList_ofList
  have hsqueezed {d : Char} (h : d ∈ (c.clean value).toList) : d ∈ trimmed ∨ d = ' ' := by
    rw [hclean] at h
    split at h
    · exact Text.mem_squeeze h
    · exact .inl h
  have htrimmed {d : Char} (h : d ∈ trimmed) : d ∈ joined := by
    simp only [trimmed] at h
    split at h
    · exact (Text.trim_chars_sublist joined).mem h
    · exact h
  refine ⟨fun hon hfeed => ?_, fun hon => ?_, fun hon => ?_⟩
  · rcases hsqueezed hfeed with hfeed | hfeed
    · have hjoined : joined = Text.joinLines value.toList := if_pos hon
      exact Text.feed_not_mem_join_lines _ (hjoined ▸ htrimmed hfeed)
    · cases hfeed
  · have hends : Text.IsTrimmed trimmed := by
      simp only [trimmed, if_pos hon]
      exact Text.is_trimmed_trim_chars joined
    rw [hclean]
    split
    · exact hends.squeeze
    · exact hends
  · rw [hclean, if_pos hon]
    exact Text.spaced_squeeze trimmed

/-- A clean value is left as it is. -/
theorem Cleaning.clean_of_is_clean {c : Cleaning} {value : String} (h : c.IsClean value.toList) :
    c.clean value = value := by
  have hjoined : (if c.newlines then Text.joinLines value.toList else value.toList) =
      value.toList :=
    ite_eq_right_iff.mpr fun hon => Text.join_lines_of_no_feed (h.newlines hon)
  have htrimmed : (if c.trim then Text.trimChars value.toList else value.toList) = value.toList :=
    ite_eq_right_iff.mpr fun hon => Text.trim_chars_eq_self_iff.mpr (h.trim hon)
  have hspaced : (if c.spaces then Text.squeeze value.toList else value.toList) = value.toList :=
    ite_eq_right_iff.mpr fun hon => Text.squeeze_of_spaced (h.spaces hon)
  simp only [Cleaning.clean, hjoined, htrimmed, hspaced, String.ofList_toList]

end AttributeText

/-! ### Colors -/

namespace Colors

open Json (hexDigit)
open Text (isBlank trimChars)

/-- A text that begins with the mark of a hexadecimal form and has no white space at its ends. -/
structure IsMarked (cs : List Char) : Prop where
  head : cs.head? = some '#'
  trimmed : Text.IsTrimmed cs

theorem marked_names : ∀ entry ∈ names, IsMarked entry.2.toList := by
  have hall : ∀ entry ∈ names, entry.2.toList.head? = some '#' ∧
      ∀ c ∈ entry.2.toList, isBlank c = false := by
    decide +kernel
  intro entry hentry
  obtain ⟨hhead, hclear⟩ := hall entry hentry
  exact ⟨hhead, Text.trimmed_of_no_blank hclear⟩

theorem of_name_cases (cs : List Char) : ofName cs = cs ∨ IsMarked (ofName cs) := by
  rw [ofName]
  split
  · rename_i hex hlookup
    obtain ⟨before, after, hlisted, -⟩ := List.lookup_eq_some_iff.mp hlookup
    exact .inr (marked_names (_, hex) (hlisted ▸ List.mem_append_right before List.mem_cons_self))
  · exact .inl rfl

theorem hex_color_marked (color : Channels) : IsMarked (hexColor color) := by
  have hend : isBlank (hexDigit (color.2.2 % 16)) = false := by
    have hall : ∀ n < 16, isBlank (hexDigit n) = false := by decide
    exact hall _ (Nat.mod_lt _ (by decide))
  refine ⟨rfl, fun c hc => ?_, fun c hc => ?_⟩
  · cases hc
    decide
  · cases hc
    exact hend

theorem of_rgb_cases (cs : List Char) : ofRgb cs = cs ∨ IsMarked (ofRgb cs) := by
  rw [ofRgb]
  cases rgb? cs with
  | none => exact .inl rfl
  | some color => exact .inr (hex_color_marked color)

/-- Six digits are shortened to every other one of them, and nothing else is. -/
theorem short_hex_cases (cs : List Char) : shortHex cs = cs ∨
    ∃ a b c, cs = ['#', a, a, b, b, c, c] ∧ shortHex cs = ['#', a, b, c] := by
  unfold shortHex
  split
  · rename_i a b c d e f
    split
    · rename_i hpairs
      simp only [Bool.and_eq_true, beq_iff_eq] at hpairs
      obtain ⟨⟨⟨-, rfl⟩, rfl⟩, rfl⟩ := hpairs
      exact .inr ⟨a, c, e, rfl, rfl⟩
    · exact .inl rfl
  · exact .inl rfl

theorem short_hex_short_hex (cs : List Char) : shortHex (shortHex cs) = shortHex cs := by
  rcases short_hex_cases cs with hsame | ⟨a, b, c, -, hshort⟩
  · rw [hsame, hsame]
  · rw [hshort]
    rfl

theorem mem_short_hex {cs : List Char} {c : Char} (h : c ∈ shortHex cs) : c ∈ cs := by
  rcases short_hex_cases cs with hsame | ⟨a, b, d, rfl, hshort⟩
  · rwa [hsame] at h
  · rw [hshort] at h
    simp only [List.mem_cons] at h ⊢
    tauto

theorem IsMarked.lower {cs : List Char} (h : IsMarked cs) : IsMarked (cs.map Char.toLower) := by
  have hend {c : Char} {before : Option Char} (hbefore : ∀ d ∈ before, isBlank d = false)
      (hc : c ∈ before.map Char.toLower) : isBlank c = false := by
    obtain ⟨d, hd, rfl⟩ := Option.map_eq_some_iff.mp hc
    exact (blank_lower d).trans (hbefore d hd)
  refine ⟨?_, fun c hc => hend h.trimmed.1 ?_, fun c hc => hend h.trimmed.2 ?_⟩
  · rw [List.head?_map, h.head]
    decide
  · rwa [List.head?_map] at hc
  · rwa [List.getLast?_map] at hc

theorem IsMarked.short {cs : List Char} (h : IsMarked cs) : IsMarked (shortHex cs) := by
  rcases short_hex_cases cs with hsame | ⟨a, b, c, rfl, hshort⟩
  · rwa [hsame]
  · rw [hshort]
    exact ⟨rfl, h.trimmed.1, h.trimmed.2⟩

namespace Conversion

/-- What is no color is not changed, and what is one becomes hexadecimal. -/
theorem resolve_cases (c : Conversion) (cs : List Char) :
    c.resolve cs = cs ∨ IsMarked (c.resolve cs) := by
  have hnamed : (if c.fromNames then ofName cs else cs) = cs ∨
      IsMarked (if c.fromNames then ofName cs else cs) := by
    split
    · exact of_name_cases cs
    · exact .inl rfl
  rw [resolve]
  split
  · rcases hnamed with hsame | hmarked
    · rw [hsame]
      exact of_rgb_cases cs
    · rw [of_rgb_of_head (by rw [hmarked.head]; decide)]
      exact .inr hmarked
  · exact hnamed

/-- A hexadecimal form is one still when it is made small and short, and is then left alone. -/
theorem finish_marked (c : Conversion) {cs : List Char} (h : IsMarked cs) :
    IsMarked (c.finish cs) ∧ c.finish (c.finish cs) = c.finish cs := by
  have hfinish {ds : List Char} (hds : IsMarked ds) : c.finish ds =
      if c.shorten then shortHex (ds.map Char.toLower) else ds.map Char.toLower := if_pos hds.head
  have hmarked : IsMarked (c.finish cs) := by
    rw [hfinish h]
    split
    · exact h.lower.short
    · exact h.lower
  have hsmall : (c.finish cs).map Char.toLower = c.finish cs := by
    refine (List.map_congr_left fun d hd => ?_).trans (List.map_id _)
    have hlower : d ∈ cs.map Char.toLower := by
      rw [hfinish h] at hd
      split at hd
      · exact mem_short_hex hd
      · exact hd
    obtain ⟨e, -, rfl⟩ := List.mem_map.mp hlower
    exact lower_lower e
  refine ⟨hmarked, ?_⟩
  rw [hfinish hmarked, hsmall, hfinish h]
  split
  · exact short_hex_short_hex _
  · rfl

/-- Where colors are left to the surroundings, what is not replaced is no color. -/
theorem not_yields_cases {c : Conversion} {cs : List Char} (h : c.yields cs = false) :
    c.currentColor = false ∨ c.resolve cs = cs ∧ cs.head? ≠ some '#' := by
  have hplain (hname : ofName cs = cs) (hrgb : cs.head? ≠ some 'r') : c.resolve cs = cs := by
    rw [resolve, hname, ite_self, of_rgb_of_head hrgb, ite_self]
  rw [yields, Bool.and_eq_false_iff, Bool.and_eq_false_iff] at h
  rcases h with (hoff | hnone) | hurl
  · exact .inl hoff
  · obtain rfl : cs = "none".toList := by simpa using hnone
    exact .inr ⟨hplain (by decide +kernel) (by decide), by decide⟩
  · obtain ⟨rest, hrest⟩ := Option.isSome_iff_exists.mp (Option.isNone_eq_false_iff.mp hurl)
    obtain rfl := Markup.strip_front_eq_some_iff.mp hrest
    exact .inr ⟨hplain (of_name_of_mark (.inr (by simp))) (by simp), by simp⟩

theorem convert_of_rest {c : Conversion} {cs : List Char} (htrimmed : Text.IsTrimmed cs)
    (hyields : c.yields cs = false) (hsame : c.finish (c.resolve cs) = cs) :
    c.convert (String.ofList cs) = String.ofList cs := by
  rw [convert_eq, String.toList_ofList, Text.trim_chars_eq_self_iff.mpr htrimmed, hyields, hsame]
  exact if_neg Bool.false_ne_true

/-- A converted color is not converted again: it is hexadecimal, small and as short as it can be, or
it is nothing that the pass knows. -/
theorem convert_convert (c : Conversion) (value : String) :
    c.convert (c.convert value) = c.convert value := by
  have htrimmed := Text.is_trimmed_trim_chars value.toList
  rw [convert_eq c value]
  generalize trimChars value.toList = cs at htrimmed ⊢
  cases hyields : c.yields cs with
  | true =>
      have hon : c.currentColor = true := by
        rw [yields, Bool.and_eq_true, Bool.and_eq_true] at hyields
        exact hyields.1.1
      have htrim : trimChars "currentColor".toList = "currentColor".toList := by decide
      rw [if_pos rfl, convert_eq, htrim, yields, hon]
      rfl
  | false =>
      rw [if_neg Bool.false_ne_true]
      have hmarked (hoff : c.currentColor = false) (h : IsMarked (c.resolve cs)) :
          c.convert (String.ofList (c.finish (c.resolve cs))) =
            String.ofList (c.finish (c.resolve cs)) := by
        obtain ⟨hfinished, hagain⟩ := c.finish_marked h
        refine convert_of_rest hfinished.trimmed (by rw [yields, hoff]; rfl) ?_
        rw [resolve_of_hash hfinished.head, hagain]
      have hkept (hsame : c.resolve cs = cs) (hhead : cs.head? ≠ some '#') :
          c.convert (String.ofList (c.finish (c.resolve cs))) =
            String.ofList (c.finish (c.resolve cs)) := by
        have hfinish : c.finish (c.resolve cs) = cs := by rw [hsame, finish, if_neg hhead]
        rw [hfinish]
        exact convert_of_rest htrimmed hyields hfinish
      rcases not_yields_cases hyields with hoff | ⟨hsame, hhead⟩
      · rcases c.resolve_cases cs with hsame | h
        · by_cases hhead : cs.head? = some '#'
          · exact hmarked hoff (by rw [hsame]; exact ⟨hhead, htrimmed⟩)
          · exact hkept hsame hhead
        · exact hmarked hoff h
      · exact hkept hsame hhead

end Conversion

end Colors

/-! ### Both passes -/

/-- Whichever of their steps are on, cleaning attributes and converting colors come to rest in one
run; and where all steps of the cleaning are on, no value is left with a line feed in it, with white
space at an end or with two white space characters side by side. -/
theorem Pass.values_rest (params : Params) :
    (∀ c : AttributeText.Cleaning, c.IsAsked params →
        AttributeText.cleanup.RestsAfterOne params ∧
        (c = ⟨true, true, true⟩ → ∀ doc, ∃ out, AttributeText.cleanup.apply params doc = .ok out ∧
          ∀ tag ∈ out.tags, ∀ a ∈ tag.attributes,
            '\n' ∉ a.value.toList ∧ Text.IsTrimmed a.value.toList ∧ Text.IsSpaced a.value.toList)) ∧
      ∀ c : Colors.Conversion, c.IsAsked params → Colors.convertColors.RestsAfterOne params := by
  refine ⟨fun c hasked => ⟨?_, ?_⟩, fun c hasked => ?_⟩
  · exact rests_of_values (AttributeText.apply_clean hasked) fun a =>
      AttributeText.Cleaning.clean_of_is_clean (c.is_clean a.value)
  · rintro rfl doc
    refine ⟨_, AttributeText.apply_clean hasked doc, fun tag htag a ha => ?_⟩
    rw [Document.tags_map_tags] at htag
    obtain ⟨before, -, rfl⟩ := List.mem_map.mp htag
    obtain ⟨b, -, rfl⟩ := List.mem_map.mp ha
    have hclean := AttributeText.Cleaning.is_clean ⟨true, true, true⟩ b.value
    exact ⟨hclean.newlines rfl, hclean.trim rfl, hclean.spaces rfl⟩
  · refine rests_of_values (Colors.apply_convert hasked) fun a => ?_
    simp only [Colors.Conversion.change]
    split
    · exact c.convert_convert a.value
    · rfl

/-- Some of the steps are off, so that lines are joined but ends stay, and names of colors stay;
then all of the cleaning is on. -/
theorem Pass.values_rest_partly :
    let params : Params := [("names2hex", .bool false), ("trim", .bool false)]
    let doc : Document := ⟨[.element ⟨"g", [⟨"id", " a\r\n b "⟩]⟩ []]⟩
    AttributeText.cleanup.RestsAfterOne params ∧ Colors.convertColors.RestsAfterOne params ∧
      ∃ out, AttributeText.cleanup.apply [] doc = .ok out ∧
        ∀ tag ∈ out.tags, ∀ a ∈ tag.attributes,
          '\n' ∉ a.value.toList ∧ Text.IsTrimmed a.value.toList ∧ Text.IsSpaced a.value.toList := by
  intro params doc
  exact ⟨((values_rest params).1 ⟨true, false, true⟩ ⟨rfl, rfl, rfl⟩).1,
    (values_rest params).2 ⟨false, false, true, true⟩ ⟨rfl, rfl, rfl, rfl⟩,
    ((values_rest []).1 ⟨true, true, true⟩ ⟨rfl, rfl, rfl⟩).2 rfl doc⟩

end SvgPress
