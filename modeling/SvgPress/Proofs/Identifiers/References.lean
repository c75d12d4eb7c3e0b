import Mathlib.Data.List.TakeDrop
import SvgPress.Pass.Identifiers
import SvgPress.Proofs.Markup.Leaves

/-!
References as they are read. A reference is cut into its parts in one way only, and it ends at its
first closing parenthesis, so what it is does not depend on the text behind it. A text is therefore
read from the front, one character or one reference at a time.
-/

namespace SvgPress.Identifiers

open Text (stripFront? isBlank)
open Markup (strip_front_append span_exact stripFront?_eq)

/-- At most one quotation mark. -/
def IsQuote (cs : List Char) : Prop :=
  cs = [] ∨ cs = ['"'] ∨ cs = ['\'']

/-- A text that begins a reference: everything up to the mark before the name. -/
def IsLead (cs : List Char) : Prop :=
  ∃ blanks quote, cs = "url(".toList ++ (blanks ++ (quote ++ ['#'])) ∧
    (∀ c ∈ blanks, isBlank c) ∧ IsQuote quote

/-- A text that ends a reference: everything behind the name. -/
def IsTrail (cs : List Char) : Prop :=
  ∃ quote blanks, cs = quote ++ (blanks ++ [')']) ∧ (∀ c ∈ blanks, isBlank c) ∧ IsQuote quote

/-- A name that can be read in a reference. -/
def IsName (cs : List Char) : Prop :=
  cs ≠ [] ∧ ∀ c ∈ cs, isNameChar c

theorem name_char_not_blank {c : Char} (h : isNameChar c) : isBlank c = false := by
  simp only [isNameChar, Bool.and_eq_true, Bool.not_eq_true'] at h
  exact h.2

theorem name_char_ne {c : Char} (h : isNameChar c) : c ≠ '\'' ∧ c ≠ '"' ∧ c ≠ ')' := by
  simp only [isNameChar, Bool.and_eq_true, bne_iff_ne, ne_eq] at h
  exact ⟨h.1.1.1, h.1.1.2, h.1.2⟩

theorem drop_quote_append {quote rest : List Char} (hquote : IsQuote quote)
    (hrest : ∀ c ∈ rest.head?, c ≠ '"' ∧ c ≠ '\'') : dropQuote (quote ++ rest) = rest := by
  rcases hquote with rfl | rfl | rfl
  · rw [List.nil_append]
    unfold dropQuote
    split
    · simp at hrest
    · simp at hrest
    · rfl
  · rfl
  · rfl

theorem drop_quote_split (cs : List Char) :
    ∃ quote, cs = quote ++ dropQuote cs ∧ IsQuote quote := by
  unfold dropQuote
  split
  · exact ⟨['"'], rfl, .inr (.inl rfl)⟩
  · exact ⟨['\''], rfl, .inr (.inr rfl)⟩
  · exact ⟨[], rfl, .inl rfl⟩

theorem drop_blanks_split (cs : List Char) :
    ∃ blanks, cs = blanks ++ cs.dropWhile isBlank ∧ ∀ c ∈ blanks, isBlank c :=
  ⟨cs.takeWhile isBlank, List.takeWhile_append_dropWhile.symm,
    List.all_eq_true.mp List.all_takeWhile⟩

theorem head_blanks {blanks : List Char} (hblanks : ∀ c ∈ blanks, isBlank c) (d : Char)
    (rest : List Char) : ∀ c ∈ (blanks ++ d :: rest).head?, isBlank c ∨ c = d := by
  intro c hc
  cases blanks with
  | nil => exact .inr (by simpa using hc.symm)
  | cons b blanks =>
      obtain rfl : b = c := by simpa using hc
      exact .inl (hblanks b List.mem_cons_self)

/-- What stands behind the mark before a name. -/
def afterLead? (cs : List Char) : Option (List Char) :=
  (stripFront? "url(".toList cs).bind fun rest =>
    stripFront? ['#'] (dropQuote (rest.dropWhile isBlank))

theorem after_lead_iff {cs after : List Char} :
    afterLead? cs = some after ↔ ∃ lead, cs = lead ++ after ∧ IsLead lead := by
  constructor
  · intro h
    obtain ⟨rest, hurl, hmark⟩ := Option.bind_eq_some_iff.mp h
    obtain ⟨blanks, hrest, hblanks⟩ := drop_blanks_split rest
    obtain ⟨quote, hbare, hquote⟩ := drop_quote_split (rest.dropWhile isBlank)
    rw [stripFront?_eq hmark] at hbare
    generalize rest.dropWhile isBlank = bare at hrest hbare
    refine ⟨"url(".toList ++ (blanks ++ (quote ++ ['#'])), ?_, blanks, quote, rfl, hblanks, hquote⟩
    rw [stripFront?_eq hurl, hrest, hbare]
    simp
  · rintro ⟨lead, rfl, blanks, quote, rfl, hblanks, hquote⟩
    have hfront : (blanks ++ (quote ++ '#' :: after)).dropWhile isBlank =
        quote ++ '#' :: after := by
      refine (span_exact isBlank blanks _ hblanks ?_).2
      rcases hquote with rfl | rfl | rfl <;> simp [isBlank]
    have hmark : dropQuote (quote ++ '#' :: after) = '#' :: after :=
      drop_quote_append hquote (by simp)
    simp only [afterLead?, List.append_assoc, strip_front_append, List.singleton_append,
      Option.bind_some, hfront, hmark, stripFront?, if_true]

/-- What stands behind a reference, if a text ends one. -/
def afterTrail? (cs : List Char) : Option (List Char) :=
  stripFront? [')'] ((dropQuote cs).dropWhile isBlank)

theorem after_trail_iff {cs after : List Char} :
    afterTrail? cs = some after ↔ ∃ trail, cs = trail ++ after ∧ IsTrail trail := by
  constructor
  · intro h
    obtain ⟨quote, hbare, hquote⟩ := drop_quote_split cs
    obtain ⟨blanks, hspace, hblanks⟩ := drop_blanks_split (dropQuote cs)
    rw [stripFront?_eq h] at hspace
    generalize dropQuote cs = bare at hbare hspace
    refine ⟨quote ++ (blanks ++ [')']), ?_, quote, blanks, rfl, hblanks, hquote⟩
    rw [hbare, hspace]
    simp
  · rintro ⟨trail, rfl, quote, blanks, rfl, hblanks, hquote⟩
    have hback : dropQuote (quote ++ (blanks ++ ')' :: after)) = blanks ++ ')' :: after := by
      refine drop_quote_append hquote fun c hc => ?_
      rcases head_blanks hblanks ')' after c hc with hblank | rfl
      · constructor <;> (rintro rfl; simp [isBlank] at hblank)
      · decide
    have hend : (blanks ++ ')' :: after).dropWhile isBlank = ')' :: after :=
      (span_exact isBlank blanks _ hblanks (by simp [isBlank])).2
    simp only [afterTrail?, List.append_assoc, List.singleton_append, hback, hend, stripFront?,
      if_true]

/-- The end of a reference is no part of its name. -/
theorem IsTrail.head_not_name {trail : List Char} (h : IsTrail trail) (rest : List Char) :
    ∀ c ∈ (trail ++ rest).head?, isNameChar c = false := by
  obtain ⟨quote, blanks, rfl, hblanks, hquote⟩ := h
  rcases hquote with rfl | rfl | rfl
  · intro c hc
    rw [List.nil_append, List.append_assoc] at hc
    rcases head_blanks hblanks ')' rest c hc with hblank | rfl
    · simp [isNameChar, hblank]
    · rfl
  · simp [isNameChar]
  · simp [isNameChar]

theorem take_reference_eq (cs : List Char) :
    takeReference? cs = (afterLead? cs).bind fun after =>
      if (after.takeWhile isNameChar).isEmpty then none
      else (afterTrail? (after.dropWhile isNameChar)).map
        fun rest => (after.takeWhile isNameChar, rest) := by
  simp only [takeReference?, afterLead?, afterTrail?, List.span_eq_takeWhile_dropWhile,
    Option.bind_eq_bind, Option.bind_assoc, Option.map_eq_bind]
  rfl

/-- A reference is what its parts say, and it can be cut into them in one way only. -/
theorem take_reference_iff {cs name rest : List Char} :
    takeReference? cs = some (name, rest) ↔
      ∃ lead trail, cs = lead ++ (name ++ (trail ++ rest)) ∧ IsLead lead ∧ IsName name ∧
        IsTrail trail := by
  rw [take_reference_eq]
  constructor
  · intro h
    obtain ⟨after, hfront, h⟩ := Option.bind_eq_some_iff.mp h
    split at h
    · cases h
    · rename_i hname
      obtain ⟨rest', hback, hpair⟩ := Option.map_eq_some_iff.mp h
      obtain ⟨rfl, rfl⟩ : after.takeWhile isNameChar = name ∧ rest' = rest := by simpa using hpair
      obtain ⟨lead, rfl, hlead⟩ := after_lead_iff.mp hfront
      obtain ⟨trail, hbehind, htrail⟩ := after_trail_iff.mp hback
      refine ⟨lead, trail, ?_, hlead, ⟨by simpa using hname,
        List.all_eq_true.mp List.all_takeWhile⟩, htrail⟩
      rw [← hbehind, List.takeWhile_append_dropWhile]
  · rintro ⟨lead, trail, rfl, hlead, ⟨hne, hname⟩, htrail⟩
    have hspan := span_exact isNameChar name (trail ++ rest) hname (htrail.head_not_name rest)
    have hbehind : afterTrail? (trail ++ rest) = some rest :=
      after_trail_iff.mpr ⟨trail, rfl, htrail⟩
    rw [after_lead_iff.mpr ⟨lead, rfl, hlead⟩, Option.bind_some, hspan.1, hspan.2, hbehind]
    simp [hne]

theorem take_reference_parts {lead name trail : List Char} (hlead : IsLead lead)
    (hname : IsName name) (htrail : IsTrail trail) (rest : List Char) :
    takeReference? (lead ++ (name ++ (trail ++ rest))) = some (name, rest) :=
  take_reference_iff.mpr ⟨lead, trail, rfl, hlead, hname, htrail⟩

/-- A reference closes with the only closing parenthesis in it, and what stands between it and the
name could not be a part of the name. -/
theorem IsTrail.split {trail : List Char} (h : IsTrail trail) :
    ∃ front, trail = front ++ [')'] ∧ ')' ∉ front ∧ ∀ c ∈ front, isNameChar c = false := by
  obtain ⟨quote, blanks, rfl, hblanks, hquote⟩ := h
  refine ⟨quote ++ blanks, by simp, ?_, fun c hc => ?_⟩
  · rw [List.mem_append]
    rintro (hmem | hmem)
    · rcases hquote with rfl | rfl | rfl <;> simp at hmem
    · exact absurd (hblanks _ hmem) (by decide)
  · rcases List.mem_append.mp hc with hc | hc
    · rcases hquote with rfl | rfl | rfl
      · cases hc
      · obtain rfl : c = '"' := by simpa using hc
        rfl
      · obtain rfl : c = '\'' := by simpa using hc
        rfl
    · simp [isNameChar, hblanks c hc]

theorem IsLead.ne_nil {lead : List Char} (h : IsLead lead) : lead ≠ [] := by
  obtain ⟨blanks, quote, rfl, -, -⟩ := h
  simp

theorem IsLead.not_mem_close {lead : List Char} (h : IsLead lead) : ')' ∉ lead := by
  obtain ⟨blanks, quote, rfl, hblanks, hquote⟩ := h
  have hblank : ')' ∉ blanks := fun hmem => absurd (hblanks _ hmem) (by decide)
  have hmark : ')' ∉ quote := by
    rcases hquote with rfl | rfl | rfl <;> simp
  simp [hblank, hmark]

theorem IsName.not_mem_close {name : List Char} (h : IsName name) : ')' ∉ name :=
  fun hmem => absurd (h.2 _ hmem) (by decide)

/-! ### The segments of a value -/

theorem split_plain {c : Char} {cs : List Char} (h : takeReference? (c :: cs) = none)
    (budget : Nat) : split (budget + 1) (c :: cs) = .plain c :: split budget cs := by
  rw [split, h]

theorem split_reference {c : Char} {cs name rest : List Char}
    (h : takeReference? (c :: cs) = some (name, rest)) (budget : Nat) :
    split (budget + 1) (c :: cs) =
      .reference ((c :: cs).take (cs.length + 1 - rest.length)) name :: split budget rest := by
  rw [split, h]

/-- The segments of a text. -/
def segmentsOf (cs : List Char) : List Segment :=
  split cs.length cs

theorem segments_eq (value : String) : segments value = segmentsOf value.toList := rfl

theorem length_take_reference {cs name rest : List Char}
    (h : takeReference? cs = some (name, rest)) : rest.length < cs.length := by
  obtain ⟨lead, trail, rfl, -, ⟨hne, -⟩, -⟩ := take_reference_iff.mp h
  have hpos := List.length_pos_iff.mpr hne
  simp only [List.length_append]
  omega

/-- More budget than characters makes no difference. -/
theorem split_of_le {budget : Nat} {cs : List Char} (h : cs.length ≤ budget) :
    split budget cs = segmentsOf cs := by
  induction hlength : cs.length using Nat.strongRecOn generalizing cs budget with
  | ind n ih =>
      cases cs with
      | nil => cases budget <;> rfl
      | cons c cs =>
          obtain ⟨budget, rfl⟩ : ∃ b, budget = b + 1 :=
            ⟨budget - 1, by simp only [List.length_cons] at h; omega⟩
          simp only [List.length_cons] at h hlength
          rw [segmentsOf, List.length_cons]
          cases htake : takeReference? (c :: cs) with
          | none =>
              rw [split_plain htake, split_plain htake, ih cs.length (by omega) (by omega) rfl,
                ih cs.length (by omega) (by omega) rfl]
          | some found =>
              obtain ⟨name, rest⟩ := found
              have hrest := length_take_reference htake
              rw [List.length_cons] at hrest
              rw [split_reference htake, split_reference htake,
                ih rest.length (by omega) (by omega) rfl, ih rest.length (by omega) (by omega) rfl]

theorem segments_of_plain {c : Char} {cs : List Char} (h : takeReference? (c :: cs) = none) :
    segmentsOf (c :: cs) = .plain c :: segmentsOf cs := by
  rw [segmentsOf, List.length_cons, split_plain h]
  rfl

theorem segments_of_reference {lead name trail : List Char} (hlead : IsLead lead)
    (hname : IsName name) (htrail : IsTrail trail) (rest : List Char) :
    segmentsOf (lead ++ (name ++ (trail ++ rest))) =
      .reference (lead ++ (name ++ trail)) name :: segmentsOf rest := by
  have htake := take_reference_parts hlead hname htrail rest
  cases hcs : lead ++ (name ++ (trail ++ rest)) with
  | nil => simp [hname.1] at hcs
  | cons c cs =>
      have hlength := length_take_reference htake
      have htaken : (c :: cs).take (cs.length + 1 - rest.length) = lead ++ (name ++ trail) := by
        have hsplit : c :: cs = (lead ++ (name ++ trail)) ++ rest := by simp [← hcs]
        have hcount : cs.length + 1 - rest.length = (lead ++ (name ++ trail)).length := by
          have := congrArg List.length hsplit
          simp only [List.length_cons, List.length_append] at this ⊢
          omega
        rw [hcount, hsplit, List.take_left]
      rw [hcs] at htake hlength
      simp only [List.length_cons] at hlength
      rw [segmentsOf, List.length_cons, split_reference htake, htaken, split_of_le (by omega)]

/-- A text is read from the front: one character that begins no reference, or one reference. A
character may be what makes a reference of the text behind it later, so all that is known of shorter
texts may be used there. -/
theorem segments_strong_induction {p : List Char → Prop} (nil : p [])
    (plain : ∀ c cs, takeReference? (c :: cs) = none → (∀ ds, ds.length ≤ cs.length → p ds) →
      p (c :: cs))
    (reference : ∀ lead name trail rest, IsLead lead → IsName name → IsTrail trail → p rest →
      p (lead ++ (name ++ (trail ++ rest)))) (cs : List Char) : p cs := by
  induction hlength : cs.length using Nat.strongRecOn generalizing cs with
  | ind n ih =>
      cases cs with
      | nil => exact nil
      | cons c cs =>
          rw [List.length_cons] at hlength
          cases htake : takeReference? (c :: cs) with
          | none => exact plain c cs htake fun ds hds => ih ds.length (by omega) ds rfl
          | some found =>
              obtain ⟨name, rest⟩ := found
              have hrest := length_take_reference htake
              rw [List.length_cons, hlength] at hrest
              obtain ⟨lead, trail, hcs, hlead, hname, htrail⟩ := take_reference_iff.mp htake
              rw [hcs]
              exact reference lead name trail rest hlead hname htrail
                (ih rest.length hrest rest rfl)

theorem segments_induction {p : List Char → Prop} (nil : p [])
    (plain : ∀ c cs, takeReference? (c :: cs) = none → p cs → p (c :: cs))
    (reference : ∀ lead name trail rest, IsLead lead → IsName name → IsTrail trail → p rest →
      p (lead ++ (name ++ (trail ++ rest)))) (cs : List Char) : p cs :=
  segments_strong_induction nil (fun c cs htake ih => plain c cs htake (ih cs (Nat.le_refl _)))
    reference cs

end SvgPress.Identifiers
