import SvgPress.Pass.Builtin
import SvgPress.Proofs.Identifiers.Cleanup
import SvgPress.Proofs.Pass.Ordinary

/-!
The passes that change tags. None of them changes what a tag is called, takes a request to keep
white space away, or gives the prefix `xml` another meaning.
-/

namespace SvgPress

/-- The request to keep white space. -/
def spaceRequest : Attribute :=
  ⟨"xml:space", "preserve"⟩

/-- The declaration of a prefix as what it stands for anyway. -/
def xmlDeclaration : Attribute :=
  ⟨"xmlns:xml", xmlNamespace⟩

theorem preserves_space_iff {tag : Tag} :
    tag.preservesSpace ↔ tag.attribute? "xml:space" = some "preserve" :=
  beq_iff_eq

namespace Retags

theorem id : Retags fun tag => tag :=
  ⟨fun _ => rfl, fun _ h => h, fun _ _ h => h⟩

theorem comp {f g : Tag → Tag} (hg : Retags g) (hf : Retags f) : Retags fun tag => g (f tag) where
  name tag := (hg.name (f tag)).trans (hf.name tag)
  ordinary tag h := hg.ordinary (f tag) (hf.ordinary tag h)
  space tag h hspace := hg.space (f tag) (hf.ordinary tag h) (hf.space tag h hspace)

theorem ite {f g : Tag → Tag} (p : Tag → Bool) (hf : Retags f) (hg : Retags g) :
    Retags fun tag => if p tag then f tag else g tag where
  name tag := by
    split
    · exact hf.name tag
    · exact hg.name tag
  ordinary tag h := by
    split
    · exact hf.ordinary tag h
    · exact hg.ordinary tag h
  space tag h hspace := by
    split
    · exact hf.space tag h hspace
    · exact hg.space tag h hspace

theorem map_values {f : Attribute → String} (hspace : f spaceRequest = "preserve")
    (hdeclared : f xmlDeclaration = xmlNamespace) : Retags (·.mapValues f) where
  name _ := rfl
  ordinary tag h := by
    refine h.of_sublist rfl ?_ ?_
    · rw [Tag.mapValues, List.map_map]
      exact List.Sublist.refl _
    · intro a ha
      obtain ⟨b, hb, rfl⟩ := List.mem_map.mp ha
      intro hname
      have hsame : b = xmlDeclaration := by
        cases b
        cases hname
        exact congrArg (Attribute.mk _) (h.attributes _ hb rfl)
      rw [hsame]
      exact hdeclared
  space tag _ h := by
    rw [preserves_space_iff] at h ⊢
    have hget : (tag.mapValues f).attribute? "xml:space" =
        (tag.attribute? "xml:space").map fun value => f ⟨"xml:space", value⟩ :=
      Attributes.get_map_value f
    rw [hget, h]
    exact congrArg some hspace

theorem keep {keep : Attribute → Bool} (hspace : keep spaceRequest) :
    Retags (·.keepAttributes keep) where
  name _ := rfl
  ordinary tag h := by
    refine h.of_sublist rfl (List.Sublist.map _ List.filter_sublist) ?_
    exact fun a ha => h.attributes a (List.mem_filter.mp ha).1
  space tag _ h := by
    rw [preserves_space_iff] at h ⊢
    exact Attributes.get_filter_of_keep h hspace

end Retags

/-! ### The passes -/

namespace AttributeText

theorem retags_cleaning :
    Retags (·.mapValues fun a => (Cleaning.mk true true true).clean a.value) :=
  .map_values (by decide +kernel) (by decide +kernel)

end AttributeText

namespace AttributeRemoval

theorem retags_telling : Retags (·.keepAttributes isTelling) :=
  .keep (by decide +kernel)

end AttributeRemoval

namespace Numerals

theorem retags_clean (style : Style) (dropPixels : Bool) :
    Retags (·.mapValues (clean style dropPixels)) := by
  have hother (a : Attribute) (hbox : a.name ≠ "viewBox")
      (hnumber : attributes.contains a.name = false) : clean style dropPixels a = a.value := by
    rw [clean, if_neg hbox, hnumber]
    rfl
  refine .map_values (hother spaceRequest ?_ ?_) (hother xmlDeclaration ?_ ?_) <;> decide +kernel

end Numerals

namespace Colors

theorem retags_convert (conversion : Conversion) : Retags (·.mapValues fun a =>
    if attributes.contains a.name then conversion.convert a.value else a.value) := by
  refine .map_values (if_neg ?_) (if_neg ?_) <;> decide +kernel

end Colors

namespace PathData

theorem retags_minify (style : Numerals.Style) : Retags (minifyTag style) := by
  refine .ite (fun tag => elements.contains tag.name) (.map_values (if_neg ?_) (if_neg ?_)) .id <;>
    decide +kernel

end PathData

namespace Identifiers

theorem retags_settle_id (policy : Policy) (used : List String) (renames : Renaming) :
    Retags (policy.settleId used renames) := by
  have hne : "xml:space" ≠ "id" := by decide
  have hkey : Markup.isPlainKey "id".toList := by decide
  have hdeclares : "id" ≠ "xmlns:xml" := by decide
  constructor
  · intro tag
    rcases settle_id_cases policy used renames tag with h | ⟨new, h⟩ | h
    · rw [h]
    · rw [h]
      rfl
    · rw [h]
      rfl
  · intro tag hordinary
    rcases settle_id_cases policy used renames tag with h | ⟨new, h⟩ | h
    · rwa [h]
    · rw [h]
      exact hordinary.set (a := ⟨"id", new⟩) hkey fun hname => absurd hname hdeclares
    · rw [h]
      exact hordinary.remove "id"
  · intro tag _ hspace
    rw [preserves_space_iff] at hspace ⊢
    rcases settle_id_cases policy used renames tag with h | ⟨new, h⟩ | h
    · rwa [h]
    · rw [h]
      exact (Attributes.get_set_of_ne hne new).trans hspace
    · rw [h]
      exact (Attributes.get_remove_of_ne hne).trans hspace

theorem follow_of_other (renames : Renaming) {a : Attribute} (hlink : isLink a.name = false)
    (hparen : '(' ∉ a.value.toList) : follow renames a = a.value := by
  rw [follow, rename_in_value_of_no_paren renames hparen, target?, hlink]
  rfl

theorem retags_settled (policy : Policy) (used : List String) (renames : Renaming) :
    Retags (settled policy used renames) := by
  have hfollow : Retags (·.mapValues (follow renames)) := by
    refine .map_values ?_ ?_
    · exact follow_of_other renames (by decide +kernel) (by decide +kernel)
    · exact follow_of_other renames (by decide +kernel) (by decide +kernel)
  exact hfollow.comp (retags_settle_id policy used renames)

end Identifiers

end SvgPress
