import SvgPress.Text.Blank

/-!
Trimming. A trimmed text is what is left between two runs of white space, and it begins and ends
with something else, so trimming again changes nothing.
-/

namespace SvgPress.Text

/-- What is asked of the characters of a text is decided by looking at these, not at all characters
there are. -/
instance decidableForallChars (p : Char → Prop) [DecidablePred p] (cs : List Char) :
    Decidable (∀ c ∈ cs, p c) :=
  List.decidableBAll p cs

section DropBack

variable {α : Type} {p : α → Bool}

@[simp] theorem drop_back_nil : dropBack p ([] : List α) = [] := rfl

theorem drop_back_append_of_all {cs ds : List α} (h : ∀ d ∈ ds, p d) :
    dropBack p (cs ++ ds) = dropBack p cs := by
  have hreverse : ∀ d ∈ ds.reverse, p d := fun d hd => h d (List.mem_reverse.mp hd)
  simp only [dropBack, List.reverse_append]
  rw [List.dropWhile_append_of_pos hreverse]

/-- What is dropped at the end of a list stands behind the last item that is not of the class. -/
theorem drop_back_stop {x : α} (hx : p x = false) (xs ys : List α) :
    dropBack p (xs ++ x :: ys) = xs ++ x :: dropBack p ys := by
  have hreverse (zs : List α) : (zs ++ x :: xs.reverse).dropWhile p =
      zs.dropWhile p ++ x :: xs.reverse := by
    induction zs with
    | nil => exact List.dropWhile_cons_of_neg (by simp [hx])
    | cons z zs ih =>
        rw [List.cons_append, List.dropWhile_cons, List.dropWhile_cons, ih]
        split
        · rfl
        · rfl
  simp [dropBack, hreverse]

theorem drop_back_concat_of_not {cs : List α} {d : α} (h : p d = false) :
    dropBack p (cs ++ [d]) = cs ++ [d] :=
  drop_back_stop h cs []

/-- What is dropped at the end is of the class, and what stays does not end in it. -/
theorem drop_back_split (cs : List α) :
    ∃ back, cs = dropBack p cs ++ back ∧ (∀ c ∈ back, p c) ∧
      ∀ c ∈ (dropBack p cs).getLast?, p c = false := by
  refine ⟨(cs.reverse.takeWhile p).reverse, ?_, ?_, ?_⟩
  · rw [dropBack, ← List.reverse_append, List.takeWhile_append_dropWhile, List.reverse_reverse]
  · intro c hc
    have hall := List.all_takeWhile (p := p) (l := cs.reverse)
    rw [List.all_eq_true] at hall
    exact hall c (List.mem_reverse.mp hc)
  · intro c hc
    rw [dropBack, List.getLast?_reverse] at hc
    have hhead := List.head?_dropWhile_not p cs.reverse
    rw [Option.mem_def.mp hc] at hhead
    simpa using hhead

theorem drop_back_eq_nil_iff {cs : List α} : dropBack p cs = [] ↔ ∀ c ∈ cs, p c := by
  constructor
  · intro h c hc
    obtain ⟨back, hsplit, hback, -⟩ := drop_back_split (p := p) cs
    rw [h, List.nil_append] at hsplit
    exact hback c (hsplit ▸ hc)
  · intro h
    rw [← List.nil_append cs, drop_back_append_of_all h]
    rfl

end DropBack

/-- A text is white space, its trimmed form, and white space again. -/
theorem trim_chars_split (cs : List Char) :
    ∃ front back, cs = front ++ (trimChars cs ++ back) ∧
      (∀ c ∈ front, isBlank c) ∧ ∀ c ∈ back, isBlank c := by
  obtain ⟨back, hsplit, hback, -⟩ := drop_back_split (p := isBlank) (cs.dropWhile isBlank)
  refine ⟨cs.takeWhile isBlank, back, ?_, ?_, hback⟩
  · calc
      cs = cs.takeWhile isBlank ++ cs.dropWhile isBlank :=
        List.takeWhile_append_dropWhile.symm
      _ = cs.takeWhile isBlank ++ (trimChars cs ++ back) := congrArg (_ ++ ·) hsplit
  · have hall := List.all_takeWhile (p := isBlank) (l := cs)
    rwa [List.all_eq_true] at hall

/-- Neither end of a text is white space. -/
def IsTrimmed (cs : List Char) : Prop :=
  (∀ c ∈ cs.head?, isBlank c = false) ∧ ∀ c ∈ cs.getLast?, isBlank c = false

theorem is_trimmed_trim_chars (cs : List Char) : IsTrimmed (trimChars cs) := by
  obtain ⟨back, hsplit, hback, hlast⟩ := drop_back_split (p := isBlank) (cs.dropWhile isBlank)
  refine ⟨?_, hlast⟩
  intro c hc
  have hhead := List.head?_dropWhile_not isBlank cs
  rw [hsplit] at hhead
  change c ∈ (dropBack isBlank (cs.dropWhile isBlank)).head? at hc
  cases hkept : dropBack isBlank (cs.dropWhile isBlank) with
  | nil => simp [hkept] at hc
  | cons d ds =>
      rw [hkept] at hhead hc
      simp only [List.cons_append, List.head?_cons, Option.mem_def, Option.some.injEq] at hhead hc
      rw [← hc]
      simpa using hhead

theorem trim_chars_eq_self_iff {cs : List Char} : trimChars cs = cs ↔ IsTrimmed cs := by
  constructor
  · intro h
    rw [← h]
    exact is_trimmed_trim_chars cs
  · rintro ⟨hhead, hlast⟩
    have hfront : dropFront isBlank cs = cs := by
      cases cs with
      | nil => rfl
      | cons c cs => exact List.dropWhile_cons_of_neg (by simp [hhead c rfl])
    rw [trimChars, hfront]
    rcases List.eq_nil_or_concat cs with rfl | ⟨front, last, rfl⟩
    · rfl
    · rw [List.concat_eq_append] at hlast ⊢
      exact drop_back_concat_of_not (hlast last (by simp))

theorem trim_chars_idem (cs : List Char) : trimChars (trimChars cs) = trimChars cs :=
  trim_chars_eq_self_iff.mpr (is_trimmed_trim_chars cs)

theorem trim_chars_eq_nil_iff {cs : List Char} : trimChars cs = [] ↔ ∀ c ∈ cs, isBlank c := by
  constructor
  · intro h c hc
    obtain ⟨front, back, hsplit, hfront, hback⟩ := trim_chars_split cs
    rw [h, List.nil_append] at hsplit
    rw [hsplit] at hc
    rcases List.mem_append.mp hc with hc | hc
    · exact hfront c hc
    · exact hback c hc
  · intro h
    rw [trimChars, drop_back_eq_nil_iff]
    intro c hc
    exact h c ((List.dropWhile_sublist isBlank).mem hc)

@[simp] theorem to_list_trim (s : String) : (trim s).toList = trimChars s.toList := by
  simp [trim]

theorem trim_chars_sublist (cs : List Char) : (trimChars cs).Sublist cs := by
  obtain ⟨front, back, hsplit, -, -⟩ := trim_chars_split cs
  conv => rhs; rw [hsplit]
  exact (List.sublist_append_left _ back).trans (List.sublist_append_right front _)

theorem trim_sublist (s : String) : (trim s).toList.Sublist s.toList := by
  rw [to_list_trim]
  exact trim_chars_sublist s.toList

theorem trim_idem (s : String) : trim (trim s) = trim s := by
  simp [trim, trim_chars_idem]

/-- White space is only taken from what stands around a text that is trimmed. -/
theorem trim_around (u v : String) : ∃ u' v', ∀ t, t ≠ "" → trim t = t →
    trim (u ++ (t ++ v)) = u' ++ (t ++ v') := by
  refine ⟨String.ofList (dropFront isBlank u.toList), String.ofList (dropBack isBlank v.toList),
    fun t hne htrim => ?_⟩
  apply String.toList_injective
  have htrimmed : IsTrimmed t.toList := by
    rw [← trim_chars_eq_self_iff, ← to_list_trim, htrim]
  obtain ⟨c, cs, hfirst⟩ :=
    List.exists_cons_of_ne_nil fun hnil => hne (String.toList_injective hnil)
  obtain ⟨ds, d, hlast⟩ : ∃ ds d, t.toList = ds ++ [d] := by
    rcases List.eq_nil_or_concat t.toList with hnil | ⟨ds, d, hconcat⟩
    · rw [hfirst] at hnil
      cases hnil
    · exact ⟨ds, d, by rw [hconcat, List.concat_eq_append]⟩
  have hfront : dropFront isBlank (u.toList ++ (t.toList ++ v.toList)) =
      dropFront isBlank u.toList ++ (t.toList ++ v.toList) := by
    have hc := htrimmed.1 c (by rw [hfirst]; rfl)
    rw [dropFront, dropFront, List.dropWhile_append, hfirst, List.cons_append,
      List.dropWhile_cons_of_neg (by simp [hc])]
    split
    · rename_i hempty
      rw [List.isEmpty_iff.mp hempty, List.nil_append]
    · rfl
  have hd : isBlank d = false := htrimmed.2 d (by rw [hlast]; simp)
  rw [to_list_trim, String.toList_append, String.toList_append, trimChars, hfront, hlast,
    List.append_assoc ds, List.singleton_append, ← List.append_assoc (dropFront ..),
    drop_back_stop hd]
  simp [hlast]

/-- White space is taken from the end of what stands last. -/
theorem trim_end_append {s : String} {cs : List Char} {c : Char} (h : s.toList = cs ++ [c])
    (hc : isBlank c = false) (t : String) : trimEnd (s ++ t) = s ++ trimEnd t := by
  apply String.toList_injective
  rw [trimEnd, String.toList_ofList, String.toList_append, String.toList_append, trimEnd,
    String.toList_ofList, h, List.append_assoc, List.singleton_append, drop_back_stop hc,
    List.append_assoc, List.singleton_append]

end SvgPress.Text
