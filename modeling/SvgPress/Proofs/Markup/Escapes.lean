import SvgPress.Proofs.Markup.Resume

/-!
Escaping and decoding. An escaped character is either the character itself or the name of a
reference to it, so decoding an attribute value and reading character data both give back what was
escaped, whatever characters it holds.
-/

namespace SvgPress

namespace Entity

/-- A character that needs no escape stands for itself; any other is written as a reference that
decodes to it. -/
def Stands (special : List Char) (c : Char) (written : List Char) : Prop :=
  (written = [c] ∧ c ∉ special) ∨
    ∃ name ∈ ["lt", "gt", "amp", "apos", "quot"],
      written = '&' :: name.toList ++ [';'] ∧ decode? name.toList = some c

theorem stands_escape_text_char (c : Char) : Stands ['<', '>', '&'] c (escapeTextChar c) := by
  unfold escapeTextChar
  split
  · rename_i hc
    exact .inr ⟨"lt", by decide, rfl, by rw [hc]; decide⟩
  · split
    · rename_i hc
      exact .inr ⟨"gt", by decide, rfl, by rw [hc]; decide⟩
    · split
      · rename_i hc
        exact .inr ⟨"amp", by decide, rfl, by rw [hc]; decide⟩
      · exact .inl ⟨rfl, by simp_all⟩

theorem stands_escape_value_char (c : Char) :
    Stands ['<', '>', '&', '\'', '"'] c (escapeValueChar c) := by
  unfold escapeValueChar
  split
  · rename_i hc
    exact .inr ⟨"apos", by decide, rfl, by rw [hc]; decide⟩
  · split
    · rename_i hc
      exact .inr ⟨"quot", by decide, rfl, by rw [hc]; decide⟩
    · rename_i hapos hquot
      rcases stands_escape_text_char c with ⟨hself, hc⟩ | hnamed
      · exact .inl ⟨hself, by simp_all⟩
      · exact .inr hnamed

/-- The name of a reference is taken up to its semicolon, whatever stops are looked for. -/
theorem take_name_of_named {name : String} (h : name ∈ ["lt", "gt", "amp", "apos", "quot"])
    (stops : List Char) (hstops : ∀ s ∈ stops, s = '&' ∨ s = '<') (rest : List Char) :
    takeName? stops (name.toList ++ ';' :: rest) = some (name.toList, rest) := by
  have hnone (c : Char) (hamp : c ≠ '&') (hlt : c ≠ '<') : c ∉ stops := by
    intro hc
    rcases hstops c hc with rfl | rfl
    · exact hamp rfl
    · exact hlt rfl
  simp only [List.mem_cons, List.not_mem_nil, or_false] at h
  rcases h with rfl | rfl | rfl | rfl | rfl <;>
    simp [takeName?, hnone]

/-- Every reference stands for a character, so what is decoded of some text is some text. -/
theorem decode_value_ne_empty {cs : List Char} (h : cs ≠ []) : decodeValue cs ≠ "" := by
  rw [decodeValue]
  cases hall : decodeAll? cs with
  | none => simpa using h
  | some ds =>
      rw [Option.getD_some]
      unfold decodeAll? at hall
      split at hall
      · exact absurd rfl h
      · rename_i c rest
        split at hall
        · split at hall
          · cases hall
          · split at hall
            · cases hall
            · obtain ⟨more, -, rfl⟩ := Option.map_eq_some_iff.mp hall
              simp
        · obtain ⟨more, -, rfl⟩ := Option.map_eq_some_iff.mp hall
          simp

/-- Decoding undoes escaping, for every attribute value. -/
theorem decode_all_escape (cs : List Char) :
    decodeAll? (cs.flatMap escapeValueChar) = some cs := by
  induction cs with
  | nil => simp [decodeAll?]
  | cons c cs ih =>
      rw [List.flatMap_cons]
      rcases stands_escape_value_char c with ⟨hself, hc⟩ | ⟨name, hname, hnamed, hdecode⟩
      · have hamp : c ≠ '&' := by simp_all
        rw [hself, List.singleton_append, decodeAll?, if_neg hamp, ih]
        rfl
      · have htake := take_name_of_named hname ['&'] (by simp)
          (cs.flatMap escapeValueChar)
        rw [hnamed, List.append_assoc, List.cons_append, decodeAll?, if_pos rfl]
        simp only [List.singleton_append]
        split
        · simp_all
        · rename_i name' after h'
          obtain ⟨rfl, rfl⟩ : name.toList = name' ∧ cs.flatMap escapeValueChar = after := by
            simpa [htake] using h'
          simp [hdecode, ih]

theorem decode_value_escape (s : String) : decodeValue (s.toList.flatMap escapeValueChar) = s := by
  simp [decodeValue, decode_all_escape]

/-- No character that could end an attribute value or a tag is left in an escaped value. -/
theorem not_mem_escape {d : Char} (hd : d ∈ ['<', '>', '\'', '"']) (cs : List Char) :
    d ∉ cs.flatMap escapeValueChar := by
  rw [List.mem_flatMap]
  rintro ⟨c, -, hmem⟩
  rcases stands_escape_value_char c with ⟨hself, hc⟩ | ⟨name, hname, hnamed, -⟩
  · rw [hself, List.mem_singleton] at hmem
    subst hmem
    simp only [List.mem_cons, List.not_mem_nil, or_false] at hd
    rcases hd with rfl | rfl | rfl | rfl <;> simp at hc
  · rw [hnamed] at hmem
    simp only [List.mem_cons, List.not_mem_nil, or_false] at hd hname
    rcases hd with rfl | rfl | rfl | rfl <;>
      rcases hname with rfl | rfl | rfl | rfl | rfl <;> simp at hmem

end Entity

namespace Assembly

/-- Characters that neither open markup nor a reference are character data. -/
theorem resume_chars (a : Assembly) (cs : List Char) (h : ∀ c ∈ cs, c ≠ '<' ∧ c ≠ '&')
    (rest : List Char) : a.resume (cs ++ rest) = (a.addChars cs).resume rest := by
  induction cs generalizing a with
  | nil => rfl
  | cons c cs ih =>
      obtain ⟨hlt, hamp⟩ := h c List.mem_cons_self
      rw [List.cons_append, resume_char a hlt hamp,
        ih (a.addChars [c]) fun d hd => h d (List.mem_cons_of_mem c hd), ← add_chars_append]
      rfl

/-- Escaped character data is read as the text it was made from. The reader cuts it at every
reference; the pieces come together again. -/
theorem resume_escaped (a : Assembly) (cs rest : List Char) :
    a.resume (cs.flatMap Entity.escapeTextChar ++ rest) = (a.addChars cs).resume rest := by
  induction cs generalizing a with
  | nil => rfl
  | cons c cs ih =>
      have hcons : a.addChars (c :: cs) = (a.addChars [c]).addChars cs :=
        add_chars_append a [c] cs
      rw [List.flatMap_cons, List.append_assoc, hcons, ← ih]
      rcases Entity.stands_escape_text_char c with ⟨hself, hc⟩ | ⟨name, hname, hnamed, hdecode⟩
      · rw [hself]
        exact resume_chars a [c] (by simp_all) _
      · have htake := Entity.take_name_of_named hname ['&', '<'] (by simp)
          (cs.flatMap Entity.escapeTextChar ++ rest)
        rw [hnamed, List.cons_append, List.cons_append, List.append_assoc,
          List.singleton_append, resume_reference a htake]
        simp [Entity.decodeReference, hdecode, addChars]

end Assembly

end SvgPress
