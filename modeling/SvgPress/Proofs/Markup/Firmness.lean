import Mathlib.Tactic.ByContra
import SvgPress.Proofs.Markup.Pretty
import SvgPress.Proofs.Shrinking

/-!
Texts that stay. Reading joins the texts of an element and trims them unless the element keeps its
white space, so what is written again for the element is the same text or a shorter one.
-/

namespace SvgPress

open Markup

namespace Entity

theorem escape_text_char_ne_nil (c : Char) : escapeTextChar c ≠ [] := by
  unfold escapeTextChar
  repeat' split
  all_goals simp

theorem to_list_escape_text (s : String) :
    (escapeText s).toList = s.toList.flatMap escapeTextChar := by
  rw [escapeText, String.toList_ofList]

theorem escape_text_append (s t : String) : escapeText (s ++ t) = escapeText s ++ escapeText t := by
  apply String.toList_injective
  simp [to_list_escape_text]

theorem escape_text_empty : escapeText "" = "" := rfl

theorem length_escape_text_pos {s : String} (h : s ≠ "") : 0 < (escapeText s).length := by
  have hne : s.toList ≠ [] := fun hnil => h (String.toList_injective hnil)
  obtain ⟨c, cs, hcs⟩ := List.exists_cons_of_ne_nil hne
  have hchar := List.length_pos_iff.mpr (escape_text_char_ne_nil c)
  rw [← String.length_toList, to_list_escape_text, hcs, List.flatMap_cons, List.length_append]
  omega

/-- A text without anything to escape. -/
theorem escape_text_of_blank {s : String} (h : ∀ c ∈ s.toList, Text.isBlank c) :
    escapeText s = s := by
  apply String.toList_injective
  rw [to_list_escape_text]
  generalize s.toList = cs at h
  induction cs with
  | nil => rfl
  | cons c cs ih =>
      have hc := h c List.mem_cons_self
      have hself : escapeTextChar c = [c] := by
        unfold escapeTextChar
        repeat' split
        all_goals first | rfl | simp_all [Text.isBlank]
      rw [List.flatMap_cons, hself, ih fun d hd => h d (List.mem_cons_of_mem c hd)]
      rfl

theorem shrinks_trim (s : String) :
    Shrinks String.length (escapeText s) (escapeText (Text.trim s)) (Text.trim s = s) where
  same h := by rw [h]
  less h := by
    obtain ⟨front, back, hsplit, -, -⟩ := Text.trim_chars_split s.toList
    have hparts : s = String.ofList front ++ (Text.trim s ++ String.ofList back) := by
      apply String.toList_injective
      simp [← hsplit]
    have hdropped : front ≠ [] ∨ back ≠ [] := by
      by_contra hnone
      rw [not_or, Classical.not_not, Classical.not_not] at hnone
      rw [hnone.1, hnone.2] at hparts
      exact h (by simpa using hparts.symm)
    have hlength : (escapeText s).length = (escapeText (String.ofList front)).length +
        ((escapeText (Text.trim s)).length + (escapeText (String.ofList back)).length) := by
      rw [← String.length_append, ← String.length_append, ← escape_text_append,
        ← escape_text_append, ← hparts]
    rcases hdropped with hfront | hback
    · have := length_escape_text_pos (s := String.ofList front) (by simpa using hfront)
      omega
    · have := length_escape_text_pos (s := String.ofList back) (by simpa using hback)
      omega

end Entity

namespace Node

theorem write_inline_all_append (ns ms : List Node) :
    writeInlineAll (ns ++ ms) = writeInlineAll ns ++ writeInlineAll ms := by
  induction ns with
  | nil => simp [writeInlineAll]
  | cons n ns ih => rw [List.cons_append, writeInlineAll, writeInlineAll, ih, String.append_assoc]

theorem write_inline_text (s : String) : (Node.leaf .text s).writeInline = Entity.escapeText s := by
  simp [writeInline, writeLeaf, LeafKind.opening, LeafKind.closing]

theorem write_inline_blank {s : String} (h : ∀ c ∈ s.toList, Text.isBlank c) :
    (Node.leaf .text s).writeInline = s := by
  rw [write_inline_text, Entity.escape_text_of_blank h]

/-- Joined texts are written as the texts one after another. -/
theorem write_inline_join_texts (ns : List Node) :
    writeInlineAll (joinTexts ns) = writeInlineAll ns := by
  have hfront (s : String) (ms : List Node) :
      writeInlineAll (joinFront s ms) = Entity.escapeText s ++ writeInlineAll ms := by
    unfold joinFront
    split
    · rw [writeInlineAll, writeInlineAll, write_inline_text, write_inline_text,
        Entity.escape_text_append, String.append_assoc]
    · rw [writeInlineAll, write_inline_text]
  induction ns with
  | nil => rfl
  | cons n ns ih =>
      rcases n.text_or_other with ⟨s, rfl⟩ | hother
      · by_cases hs : s = ""
        · rw [hs, join_texts_empty, ih, writeInlineAll, write_inline_text, Entity.escape_text_empty,
            String.empty_append]
        · rw [join_texts_text hs, hfront, ih, writeInlineAll, write_inline_text]
      · rw [join_texts_other hother, writeInlineAll, writeInlineAll, ih]

theorem length_trim_texts_le (ns : List Node) : (trimTexts ns).length ≤ ns.length :=
  List.length_filterMap_le _ _

theorem trim_texts_eq_iff {ns : List Node} :
    trimTexts ns = ns ↔ ∀ s, .leaf .text s ∈ ns → s ≠ "" ∧ Text.trim s = s := by
  induction ns with
  | nil => simp [trimTexts]
  | cons n ns ih =>
      rcases n.text_or_other with ⟨s, rfl⟩ | hother
      · rw [trim_texts_text]
        split
        · rename_i hgone
          have hgone : Text.trim s = "" := String.isEmpty_iff.mp hgone
          refine iff_of_false (fun heq => ?_) fun h => ?_
          · have hlength := length_trim_texts_le ns
            rw [heq, List.length_cons] at hlength
            omega
          · obtain ⟨hs, htrim⟩ := h s List.mem_cons_self
            exact hs (by rw [← htrim, hgone])
        · rename_i hkept
          rw [List.cons_eq_cons, ih]
          simp only [List.mem_cons, Node.leaf.injEq, true_and]
          constructor
          · rintro ⟨htrim, hrest⟩ t (rfl | ht)
            · refine ⟨?_, htrim⟩
              rintro rfl
              exact hkept (by rw [htrim]; rfl)
            · exact hrest t ht
          · exact fun h => ⟨(h s (.inl rfl)).2, fun t ht => h t (.inr ht)⟩
      · rw [trim_texts_other hother, List.cons_eq_cons, ih]
        have hne (s : String) : Node.leaf .text s ≠ n := by
          rintro rfl
          cases hother
        simp [hne]

theorem shrinks_trim_texts {ns : List Node} (h : Node.leaf .text "" ∉ ns) :
    Shrinks String.length (writeInlineAll ns) (writeInlineAll (trimTexts ns))
      (trimTexts ns = ns) := by
  induction ns with
  | nil => exact .refl _ rfl
  | cons n ns ih =>
      rw [List.mem_cons, not_or] at h
      have hrest := ih h.2
      rcases n.text_or_other with ⟨s, rfl⟩ | hother
      · have hs : s ≠ "" := by
          rintro rfl
          exact h.1 rfl
        rw [trim_texts_text, writeInlineAll, write_inline_text]
        split
        · rename_i hgone
          refine .of_less (fun heq => ?_) ?_
          · have hlength := length_trim_texts_le ns
            rw [heq, List.length_cons] at hlength
            omega
          · have hpos := Entity.length_escape_text_pos hs
            have hle := hrest.size_le
            rw [String.length_append]
            omega
        · rw [writeInlineAll, write_inline_text]
          refine ((Entity.shrinks_trim s).append String.length_append hrest).congr ?_
          simp
      · rw [trim_texts_other hother, writeInlineAll, writeInlineAll]
        refine ((Shrinks.refl n.writeInline trivial).append String.length_append hrest).congr ?_
        simp

theorem not_mem_join_texts (ns : List Node) : Node.leaf .text "" ∉ joinTexts ns :=
  (joined_join_texts ns).1

/-- What an element writes between its tags, before and after it was read. -/
theorem shrinks_settle (tag : Tag) (kept : Bool) (ns : List Node) :
    Shrinks String.length (writeInlineAll ns) (writeInlineAll (settle tag kept (joinTexts ns)))
      (settle tag kept (joinTexts ns) = joinTexts ns) := by
  rw [← write_inline_join_texts ns]
  unfold settle
  split
  · exact .refl _ rfl
  · exact shrinks_trim_texts (not_mem_join_texts ns)

end Node

end SvgPress
