import Mathlib.Data.List.Chain
import SvgPress.Proofs.Text.Trim

/-!
Texts without spare white space. Joining lines leaves no line feed and squeezing leaves no two white
space characters side by side; where there were none, neither changes anything. Squeezing puts a
space for a run of white space only, so a trimmed text stays trimmed.
-/

namespace SvgPress.Text

variable {cs : List Char}

/-- No two white space characters stand side by side. -/
def IsSpaced (cs : List Char) : Prop :=
  cs.IsChain fun c d => ¬ (isBlank c ∧ isBlank d)

theorem trimmed_of_no_blank (h : ∀ c ∈ cs, isBlank c = false) : IsTrimmed cs :=
  ⟨fun c hc => h c (List.mem_of_mem_head? hc), fun c hc => h c (List.mem_of_mem_getLast? hc)⟩

/-- A trimmed text is found again with any white space around it. -/
theorem trim_chars_around {front back : List Char} (hfront : ∀ c ∈ front, isBlank c)
    (hback : ∀ c ∈ back, isBlank c) (h : IsTrimmed cs) :
    trimChars (front ++ (cs ++ back)) = cs := by
  have hdrop : trimChars (front ++ (cs ++ back)) = trimChars (cs ++ back) := by
    rw [trimChars, dropFront, List.dropWhile_append_of_pos hfront]
    rfl
  rw [hdrop]
  cases cs with
  | nil => exact trim_chars_eq_nil_iff.mpr hback
  | cons c cs =>
      have hstay (ds : List Char) : dropFront isBlank (c :: ds) = c :: ds :=
        List.dropWhile_cons_of_neg (by simp [h.1 c rfl])
      have hsame := trim_chars_eq_self_iff.mpr h
      rw [trimChars, hstay] at hsame
      rw [trimChars, List.cons_append, hstay, ← List.cons_append,
        drop_back_append_of_all hback, hsame]

/-- White space around a text does not count when it is trimmed. -/
theorem trim_chars_padded {front back : List Char} (hfront : ∀ c ∈ front, isBlank c)
    (hback : ∀ c ∈ back, isBlank c) (cs : List Char) :
    trimChars (front ++ (cs ++ back)) = trimChars cs := by
  obtain ⟨before, after, hsplit, hbefore, hafter⟩ := trim_chars_split cs
  have hpadded :
      front ++ (cs ++ back) = (front ++ before) ++ (trimChars cs ++ (after ++ back)) := by
    conv => lhs; rw [hsplit]
    simp only [List.append_assoc]
  rw [hpadded]
  exact trim_chars_around (List.forall_mem_append.mpr ⟨hfront, hbefore⟩)
    (List.forall_mem_append.mpr ⟨hafter, hback⟩) (is_trimmed_trim_chars cs)

/-! ### Line feeds -/

theorem feed_not_mem_join_lines (cs : List Char) : '\n' ∉ joinLines cs := by
  fun_induction joinLines cs with
  | case1 rest ih => simpa using ih
  | case2 rest ih => simpa using ih
  | case3 c rest _ hfeed ih =>
      rw [List.mem_cons, not_or]
      exact ⟨fun hc => hfeed hc.symm, ih⟩
  | case4 => exact List.not_mem_nil

theorem join_lines_of_no_feed (h : '\n' ∉ cs) : joinLines cs = cs := by
  fun_induction joinLines cs with
  | case1 rest ih => simp at h
  | case2 rest ih => simp at h
  | case3 c rest _ _ ih => rw [ih fun hmem => h (List.mem_cons_of_mem c hmem)]
  | case4 => rfl

/-! ### Runs of white space -/

theorem mem_squeeze {c : Char} (h : c ∈ squeeze cs) : c ∈ cs ∨ c = ' ' := by
  fun_induction squeeze cs with
  | case1 first second rest _ ih =>
      rcases ih h with h | h
      · rcases List.mem_cons.mp h with h | h
        · exact .inr h
        · exact .inl (List.mem_cons_of_mem _ (List.mem_cons_of_mem _ h))
      · exact .inr h
  | case2 first second rest _ ih =>
      rcases List.mem_cons.mp h with h | h
      · exact .inl (h ▸ List.mem_cons_self)
      · exact (ih h).imp_left (List.mem_cons_of_mem _)
  | case3 => exact .inl h

/-- A text begins with white space exactly if it did before its runs were put together. -/
theorem head_squeeze (cs : List Char) :
    (squeeze cs).head?.map isBlank = cs.head?.map isBlank := by
  fun_induction squeeze cs with
  | case1 c d rest h ih =>
      rw [Bool.and_eq_true] at h
      rw [ih, List.head?_cons, List.head?_cons, Option.map_some, Option.map_some, h.1]
      rfl
  | case2 c d rest _ ih => rfl
  | case3 => rfl

theorem last_squeeze (cs : List Char) :
    (squeeze cs).getLast?.map isBlank = cs.getLast?.map isBlank := by
  fun_induction squeeze cs with
  | case1 c d rest h ih =>
      rw [Bool.and_eq_true] at h
      rw [ih, List.getLast?_cons_cons]
      cases rest with
      | nil => exact congrArg some h.2.symm
      | cons e rest => rw [List.getLast?_cons_cons, List.getLast?_cons_cons]
  | case2 c d rest _ ih =>
      rw [List.getLast?_cons_cons, ← ih]
      cases hrest : squeeze (d :: rest) with
      | nil =>
          rw [hrest, List.getLast?_cons] at ih
          cases ih
      | cons e es => rw [List.getLast?_cons_cons]
  | case3 => rfl

theorem IsTrimmed.squeeze (h : IsTrimmed cs) : IsTrimmed (squeeze cs) := by
  have hends {c : Char} {before after : Option Char}
      (hsame : after.map isBlank = before.map isBlank)
      (hbefore : ∀ d ∈ before, isBlank d = false) (hc : c ∈ after) : isBlank c = false := by
    rw [Option.mem_def.mp hc, Option.map_some] at hsame
    obtain ⟨d, hd, hblank⟩ := Option.map_eq_some_iff.mp hsame.symm
    exact hblank ▸ hbefore d hd
  exact ⟨fun c => hends (head_squeeze cs) h.1, fun c => hends (last_squeeze cs) h.2⟩

theorem spaced_squeeze (cs : List Char) : IsSpaced (squeeze cs) := by
  fun_induction squeeze cs with
  | case1 c d rest _ ih => exact ih
  | case2 c d rest h ih =>
      refine List.isChain_cons.mpr ⟨fun e he hblank => h ?_, ih⟩
      have hfirst := head_squeeze (d :: rest)
      rw [Option.mem_def.mp he, List.head?_cons, Option.map_some, Option.map_some] at hfirst
      rw [hblank.1, ← Option.some.inj hfirst, hblank.2]
      rfl
  | case3 cs h =>
      cases cs with
      | nil => exact .nil
      | cons c cs =>
          cases cs with
          | nil => exact .singleton c
          | cons d rest => exact absurd rfl (h c d rest)

theorem squeeze_of_spaced (h : IsSpaced cs) : squeeze cs = cs := by
  fun_induction squeeze cs with
  | case1 c d rest hblank ih =>
      rw [Bool.and_eq_true] at hblank
      exact absurd hblank (List.isChain_cons_cons.mp h).1
  | case2 c d rest _ ih => rw [ih (List.isChain_cons_cons.mp h).2]
  | case3 => rfl

end SvgPress.Text
