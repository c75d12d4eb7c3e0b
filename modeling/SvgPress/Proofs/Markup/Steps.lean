import SvgPress.Markup.Reader

/-!
What each kind of markup is read as. There is one statement for every kind: it names the event, the
names of the open elements afterwards, and the cut in the text. Everything that is said about the
events of a reading goes back to these.
-/

namespace SvgPress.Markup

open Text (cutAt? dropBack stripFront?)

variable {opened : List String} {cs : List Char} {step : Step cs}

theorem comment_ok (h : comment opened cs = .ok step) :
    ∃ content, cutAt? "-->".toList (cs.drop 3) = some (content, step.rest) ∧
      step.event = .leaf .comment (String.ofList content) ∧ step.opened = opened := by
  unfold comment at h
  split at h
  · cases h
  · rename_i content rest hcut
    split at h
    · cases h
      exact ⟨content, hcut, rfl, rfl⟩
    · cases h

theorem cdata_ok (h : cdata opened cs = .ok step) :
    ∃ content, cutAt? "]]>".toList cs = some ("![CDATA[".toList ++ content, step.rest) ∧
      step.event = .leaf .cdata (String.ofList content) ∧ step.opened = opened := by
  unfold cdata at h
  split at h
  · cases h
  · rename_i content rest hcut
    split at h
    · rename_i hmark
      cases h
      refine ⟨content.drop 8, ?_, rfl, rfl⟩
      rw [← hmark, List.take_append_drop]
      exact hcut
    · cases h

theorem doctype_ok (h : doctype opened cs = .ok step) :
    ∃ content, doctypeContent? 0 cs = some (content, step.rest) ∧
      (content.take 8).map Char.toUpper = "!DOCTYPE".toList ∧
      step.event = .leaf .doctype (String.ofList ((content.drop 8).dropWhile isSpace)) ∧
      step.opened = opened := by
  unfold doctype at h
  split at h
  · cases h
  · rename_i content rest hcut
    split at h
    · rename_i hkeyword
      split at h
      · cases h
      · cases h
        exact ⟨content, hcut, hkeyword, rfl, rfl⟩
    · cases h

theorem instruction_ok (h : instruction opened cs = .ok step) :
    ∃ mark content, cutAt? "?>".toList cs = some (mark :: content, step.rest) ∧
      step.event = .leaf (if declares content then .declaration else .instruction)
        (String.ofList content) ∧
      step.opened = opened := by
  unfold instruction at h
  split at h
  · cases h
  · cases h
  · rename_i mark content rest hcut
    cases h
    exact ⟨mark, content, hcut, rfl, rfl⟩

theorem end_tag_ok (h : endTag opened cs = .ok step) :
    ∃ content, tagContent? none cs = some (content, step.rest) ∧
      step.event = .close (String.ofList (closingName (content.drop 1))) ∧
      opened = String.ofList (closingName (content.drop 1)) :: step.opened := by
  unfold endTag at h
  split at h
  · cases h
  · rename_i content rest hcut
    dsimp only at h
    split at h
    · cases h
    · rename_i expected outer
      split at h
      · rename_i hexpected
        cases h
        exact ⟨content, hcut, rfl, by rw [hexpected]⟩
      · cases h

theorem start_tag_ok (h : startTag opened cs = .ok step) :
    ∃ content, tagContent? none cs = some (content, step.rest) ∧
      let body := tagBody content
      let name := String.ofList (tagName body)
      (content.getLast? = some '/' ∧ step.event = .empty name (tagAttributes body) ∧
          step.opened = opened) ∨
        (content.getLast? ≠ some '/' ∧ step.event = .start name (tagAttributes body) ∧
          step.opened = name :: opened) := by
  unfold startTag at h
  split at h
  · cases h
  · rename_i content rest hcut
    dsimp only at h
    split at h
    · rename_i hclosed
      cases h
      exact ⟨content, hcut, .inl ⟨hclosed, rfl, rfl⟩⟩
    · rename_i hopen
      cases h
      exact ⟨content, hcut, .inr ⟨hopen, rfl, rfl⟩⟩

/-- One statement for all of markup: the first characters choose the kind. -/
theorem markup_ok (h : markup opened cs = .ok step) :
    (∃ rest, cs = '!' :: '[' :: rest ∧ cdata opened cs = .ok step) ∨
      (∃ rest, cs = '!' :: '-' :: rest ∧ comment opened cs = .ok step) ∨
      (∃ c rest, cs = '!' :: c :: rest ∧ doctype opened cs = .ok step) ∨
      (∃ rest, cs = '?' :: rest ∧ instruction opened cs = .ok step) ∨
      (∃ rest, cs = '/' :: rest ∧ endTag opened cs = .ok step) ∨
      (∃ c rest, cs = c :: rest ∧ c ∉ ['!', '?', '/'] ∧ startTag opened cs = .ok step) := by
  unfold markup at h
  split at h
  · cases h
  · exact .inl ⟨_, rfl, h⟩
  · exact .inr (.inl ⟨_, rfl, h⟩)
  · exact .inr (.inr (.inl ⟨_, _, rfl, h⟩))
  · exact .inr (.inr (.inl ⟨_, _, rfl, h⟩))
  · cases h
  · exact .inr (.inr (.inr (.inl ⟨_, rfl, h⟩)))
  · exact .inr (.inr (.inr (.inr (.inl ⟨_, rfl, h⟩))))
  · rename_i c rest _ _ _ _ hbang hquestion hslash
    refine .inr (.inr (.inr (.inr (.inr ⟨_, _, rfl, ?_, h⟩))))
    simp only [List.mem_cons, List.not_mem_nil, or_false, not_or]
    exact ⟨hbang, hquestion, hslash⟩

/-- What is taken of a text: the event and the text after it; the open elements stay as they are. -/
def Takes (taken : Except StepFault (Step cs)) (opened : List String) (event : Event)
    (rest : List Char) : Prop :=
  ∃ step, taken = .ok step ∧ step.event = event ∧ step.opened = opened ∧ step.rest = rest

section Takes

variable (opened) {content rest : List Char}

theorem comment_takes (h : cutAt? "-->".toList cs = some (content, rest)) :
    Takes (comment opened ("!--".toList ++ cs)) opened (.leaf .comment (String.ofList content))
      rest := by
  have hdrop : cutAt? "-->".toList (("!--".toList ++ cs).drop 3) = some (content, rest) := h
  unfold comment
  split
  · rename_i hnone
    rw [hdrop] at hnone
    cases hnone
  · rename_i content' rest' hcut
    rw [hdrop] at hcut
    cases hcut
    exact ⟨_, if_pos rfl, rfl, rfl, rfl⟩

theorem cdata_takes (h : cutAt? "]]>".toList cs = some ("![CDATA[".toList ++ content, rest)) :
    Takes (cdata opened cs) opened (.leaf .cdata (String.ofList content)) rest := by
  unfold cdata
  split
  · rename_i hnone
    rw [h] at hnone
    cases hnone
  · rename_i content' rest' hcut
    rw [h] at hcut
    cases hcut
    exact ⟨_, if_pos rfl, rfl, rfl, rfl⟩

theorem instruction_takes {mark : Char}
    (h : cutAt? "?>".toList cs = some (mark :: content, rest)) :
    Takes (instruction opened cs) opened
      (.leaf (if declares content then .declaration else .instruction) (String.ofList content))
      rest := by
  unfold instruction
  split
  · rename_i hnone
    rw [h] at hnone
    cases hnone
  · rename_i hnil
    rw [h] at hnil
    cases hnil
  · rename_i mark' content' rest' hcut
    rw [h] at hcut
    cases hcut
    exact ⟨_, rfl, rfl, rfl, rfl⟩

theorem doctype_takes {name : List Char} (h : doctypeContent? 0 cs = some (content, rest))
    (hkeyword : (content.take 8).map Char.toUpper = "!DOCTYPE".toList)
    (hname : (content.drop 8).dropWhile isSpace = name) (hne : name ≠ []) :
    Takes (doctype opened cs) opened (.leaf .doctype (String.ofList name)) rest := by
  subst hname
  unfold doctype
  split
  · rename_i hnone
    rw [h] at hnone
    cases hnone
  · rename_i content' rest' hcut
    rw [h] at hcut
    cases hcut
    rw [if_pos hkeyword]
    split
    · rename_i hnil
      exact absurd hnil hne
    · exact ⟨_, rfl, rfl, rfl, rfl⟩

theorem end_tag_takes {name : String} (h : tagContent? none cs = some (content, rest))
    (hname : String.ofList (closingName (content.drop 1)) = name) :
    Takes (endTag (name :: opened) cs) opened (.close name) rest := by
  subst hname
  unfold endTag
  split
  · rename_i hnone
    rw [h] at hnone
    cases hnone
  · rename_i content' rest' hcut
    rw [h] at hcut
    cases hcut
    exact ⟨_, if_pos rfl, rfl, rfl, rfl⟩

theorem start_tag_takes (h : tagContent? none cs = some (content, rest))
    (hopen : content.getLast? ≠ some '/') :
    let name := String.ofList (tagName content)
    Takes (startTag opened cs) (name :: opened) (.start name (tagAttributes content)) rest := by
  have hbody : tagBody content = content := if_neg hopen
  intro name
  unfold startTag
  split
  · rename_i hnone
    rw [h] at hnone
    cases hnone
  · rename_i content' rest' hcut
    rw [h] at hcut
    cases hcut
    exact ⟨_, if_neg hopen, by rw [hbody], by rw [hbody], rfl⟩

theorem empty_tag_takes (h : tagContent? none cs = some (content ++ ['/'], rest)) :
    Takes (startTag opened cs) opened
      (.empty (String.ofList (tagName content)) (tagAttributes content)) rest := by
  have hclosed : (content ++ ['/']).getLast? = some '/' := by simp
  have hbody : tagBody (content ++ ['/']) = content := by simp [tagBody]
  unfold startTag
  split
  · rename_i hnone
    rw [h] at hnone
    cases hnone
  · rename_i content' rest' hcut
    rw [h] at hcut
    cases hcut
    exact ⟨_, if_pos hclosed, by rw [hbody], rfl, rfl⟩

end Takes

end SvgPress.Markup
