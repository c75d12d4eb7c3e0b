import SvgPress.Proofs.Identifiers.Assignment
import SvgPress.Proofs.Identifiers.Mentions
import SvgPress.Proofs.Markup.Tree

/-!
Attributes that follow a renaming. A link follows it as a whole and other references one by one; no
value is both, as long as a reference that is written anew holds more parentheses than an
identifier.
-/

namespace SvgPress.Identifiers

theorem mem_paren_of_lead {lead : List Char} (h : IsLead lead) : '(' ∈ lead := by
  obtain ⟨blanks, quote, rfl, -, -⟩ := h
  simp

/-- Without a parenthesis there is no reference. -/
theorem segments_of_no_paren {cs : List Char} (h : '(' ∉ cs) : segmentsOf cs = cs.map .plain := by
  rcases segments_split cs with
    hplain | ⟨front, lead, name, trail, rest, rfl, hlead, -, -, -⟩
  · exact hplain
  · exact absurd (by simp [mem_paren_of_lead hlead]) h

theorem names_of_no_paren {cs : List Char} (h : '(' ∉ cs) : namesOf cs = [] := by
  rw [namesOf, segments_of_no_paren h, names_plain]

/-- A text in which no name is renamed stays as it is. -/
theorem render_of_none {renames : Renaming} {cs : List Char}
    (h : ∀ name ∈ namesOf cs, renames.lookup name = none) : render renames cs = cs := by
  induction cs using segments_induction with
  | nil => rfl
  | plain c cs htake ih =>
      rw [names_of_plain htake] at h
      rw [render_of_plain htake, ih h]
  | reference lead name trail rest hlead hname htrail ih =>
      rw [names_of_reference hlead hname htrail, List.forall_mem_cons] at h
      rw [render_of_kept hlead hname htrail rest h.1, ih h.2]

/-- A name that is renamed is written as a reference. -/
theorem render_of_some {renames : Renaming} {cs : List Char} {name new : String}
    (hname : name ∈ namesOf cs) (hnew : renames.lookup name = some new) :
    ∃ front back, render renames cs = front ++ ("url(#".toList ++ (new.toList ++ back)) := by
  obtain ⟨s, hs, hfound⟩ := List.mem_filterMap.mp hname
  obtain ⟨before, after, hsplit⟩ := List.append_of_mem hs
  cases s with
  | plain c => cases hfound
  | reference written found =>
      obtain rfl : String.ofList found = name := Option.some.inj hfound
      refine ⟨before.flatMap (Segment.renamed renames),
        [')'] ++ after.flatMap (Segment.renamed renames), ?_⟩
      rw [render, hsplit, List.flatMap_append, List.flatMap_cons, Segment.renamed, hnew]
      simp

theorem clean_of_no_paren (renames : Renaming) {cs : List Char} (h : '(' ∉ cs) :
    IsClean renames (segmentsOf cs) := by
  have hnames : (segmentsOf cs).filterMap Segment.name? = [] := names_of_no_paren h
  have hmentions := names_of_mentions (segmentsOf cs)
  rw [hnames, List.map_eq_nil_iff] at hmentions
  refine ⟨?_, swallows_eq_false_iff.mpr ?_⟩
  · rw [hnames]
    exact fun _ hmem => absurd hmem List.not_mem_nil
  · rw [hmentions]
    exact fun _ hmem => absurd hmem List.not_mem_nil

theorem rename_in_value_of_none {renames : Renaming} {value : String}
    (h : ∀ name ∈ namesIn value, renames.lookup name = none) :
    renameInValue renames value = value := by
  apply String.toList_injective
  rw [rename_in_value_eq, render_of_none h]

theorem rename_in_value_of_no_paren (renames : Renaming) {value : String} (h : '(' ∉ value.toList) :
    renameInValue renames value = value := by
  apply rename_in_value_of_none
  rw [names_in_eq, names_of_no_paren h]
  exact fun _ hmem => absurd hmem List.not_mem_nil

/-- The mark of a link is no part of a reference. -/
theorem names_in_mark (name : String) : namesIn ("#" ++ name) = namesIn name := by
  have htake : takeReference? ('#' :: name.toList) = none := rfl
  rw [names_in_eq, names_in_eq, String.toList_append]
  exact names_of_plain htake

theorem target_iff {a : Attribute} {name : String} :
    target? a = some name ↔ isLink a.name ∧ a.value = "#" ++ name := by
  rw [target?]
  split
  · rename_i h
    simp [Markup.drop_prefix_eq_some_iff, h]
  · rename_i h
    simp [h]

/-- Where there are no links only the references in a value are renamed. -/
theorem follow_of_not_link (renames : Renaming) {a : Attribute} (h : isLink a.name = false) :
    follow renames a = renameInValue renames a.value := by
  have htarget : target? ⟨a.name, renameInValue renames a.value⟩ = none := by
    rw [target?, h, if_neg Bool.false_ne_true]
  simp only [follow, htarget, Option.bind_none]

theorem id_not_link : isLink "id" = false := by decide +kernel

/-- Whether links to renamed names can be told from values in which references are renamed: no
reference that is renamed is written in a renamed name, and every reference that is written anew
holds more opening parentheses than a renamed name. -/
structure Renaming.IsPlain (renames : Renaming) : Prop where
  names : ∀ name, renames.has name → ∀ inner ∈ namesIn name, renames.lookup inner = none
  opens : ∀ name, renames.has name → ∀ old new, renames.lookup old = some new →
    name.toList.count '(' ≤ new.toList.count '('

theorem plain_of_no_paren {renames : Renaming} (h : ∀ name, renames.has name → '(' ∉ name.toList) :
    renames.IsPlain where
  names name hname inner hinner := by
    rw [names_in_eq, names_of_no_paren (h name hname)] at hinner
    cases hinner
  opens name hname old new hnew := by
    rw [List.count_eq_zero_of_not_mem (h name hname)]
    exact Nat.zero_le _

section Plain

variable {renames : Renaming} (hplain : renames.IsPlain)

include hplain

/-- A link to an identifier that is renamed. -/
theorem follow_link {a : Attribute} {name new : String} (hlink : target? a = some name)
    (hnew : renames.lookup name = some new) : follow renames a = "#" ++ new := by
  have hvalue := (target_iff.mp hlink).2
  have hsame : renameInValue renames a.value = a.value := by
    apply rename_in_value_of_none
    rw [hvalue, names_in_mark]
    exact hplain.names name (has_iff_lookup.mpr ⟨new, hnew⟩)
  have htarget : target? ⟨a.name, a.value⟩ = some name := hlink
  simp only [follow, hsame, htarget, Option.bind_some, hnew]

/-- Everything else: only the references in it are renamed. -/
theorem follow_other {a : Attribute}
    (h : ∀ name, target? a = some name → renames.lookup name = none) :
    follow renames a = renameInValue renames a.value := by
  rw [follow]
  split
  · rename_i new hbind
    obtain ⟨name, htarget, hnew⟩ := Option.bind_eq_some_iff.mp hbind
    obtain ⟨hlink, hvalue⟩ : isLink a.name ∧ renameInValue renames a.value = "#" ++ name :=
      target_iff.mp htarget
    -- the value was the same before, so it was a link to that identifier then
    have hsame : renameInValue renames a.value = a.value := by
      apply rename_in_value_of_none
      intro old hold
      rw [Option.eq_none_iff_forall_ne_some]
      intro found hfound
      obtain ⟨front, back, hrender⟩ := render_of_some hold hfound
      have hopens := hplain.opens name (has_iff_lookup.mpr ⟨new, hnew⟩) old found hfound
      rw [← rename_in_value_eq, hvalue] at hrender
      have hcount := congrArg (List.count '(') hrender
      simp only [String.toList_append, List.count_append] at hcount
      have hmark : "#".toList.count '(' = 0 := by decide
      have hbegin : "url(#".toList.count '(' = 1 := by decide
      omega
    rw [hsame] at hvalue
    rw [h name (target_iff.mpr ⟨hlink, hvalue⟩)] at hnew
    cases hnew
  · rfl

/-- An attribute is a link that is renamed, or the references in it are renamed one by one. -/
theorem follow_cases (a : Attribute) :
    (∃ name new, target? a = some name ∧ renames.lookup name = some new ∧
      follow renames a = "#" ++ new) ∨
    (∀ name, target? a = some name → renames.lookup name = none) ∧
      follow renames a = renameInValue renames a.value := by
  by_cases hlink : ∃ name new, target? a = some name ∧ renames.lookup name = some new
  · obtain ⟨name, new, htarget, hnew⟩ := hlink
    exact .inl ⟨name, new, htarget, hnew, follow_link hplain htarget hnew⟩
  · have hother : ∀ name, target? a = some name → renames.lookup name = none := by
      intro name htarget
      rw [Option.eq_none_iff_forall_ne_some]
      exact fun new hnew => hlink ⟨name, new, htarget, hnew⟩
    exact .inr ⟨hother, follow_other hplain hother⟩

end Plain

section Follow

variable {renames : Renaming} (hkeys : ∀ name, renames.has name → '(' ∉ name.toList)

include hkeys

/-- The references in an attribute follow a renaming exactly if they can be told apart. -/
theorem follow_names_iff {follows : String → String → Prop}
    (hmade : ∀ name new, renames.lookup name = some new → IsMade new.toList)
    (hnew : ∀ name new, renames.lookup name = some new → ∀ found, follows name found ↔ found = new)
    {a : Attribute}
    (hold : ∀ name ∈ namesIn a.value, renames.lookup name = none → follows name name) :
    List.Forall₂ follows (namesIn a.value) (namesIn (follow renames a)) ↔
      IsClean renames (segments a.value) := by
  rcases follow_cases (plain_of_no_paren hkeys) a with
    ⟨name, new, htarget, hlookup, hfollow⟩ | ⟨-, hfollow⟩
  · have hvalue := (target_iff.mp htarget).2
    have hbefore : '(' ∉ a.value.toList := by
      have hkey := hkeys name (has_iff_lookup.mpr ⟨new, hlookup⟩)
      simpa [hvalue] using hkey
    have hafter : '(' ∉ ("#" ++ new).toList := by
      obtain ⟨front, last, hsplit, -, hlast, hfront⟩ := hmade name new hlookup
      rw [String.toList_append, List.mem_append, hsplit, List.mem_append, List.mem_singleton]
      rintro (hmark | hmem | rfl)
      · exact absurd hmark (by decide)
      · exact (hfront _ hmem).2.2.2 rfl
      · exact hlast rfl
    rw [hfollow, names_in_eq, names_in_eq, names_of_no_paren hbefore, names_of_no_paren hafter]
    exact iff_of_true .nil (clean_of_no_paren renames hbefore)
  · rw [hfollow, names_in_eq, names_in_eq, rename_in_value_eq]
    exact names_render_iff hmade hnew hold

end Follow

end SvgPress.Identifiers
