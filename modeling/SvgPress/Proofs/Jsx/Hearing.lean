import Mathlib.Data.List.DropRight
import SvgPress.Proofs.Storage.Places
import SvgPress.Proofs.Text.Trim

/-!
What is read of literal text in JSX. The text is cut into lines, white space next to a line break is
dropped, and what is left of the lines is joined with one space. Words that stand apart in one text
are apart in what is read, and white space is lost at the two ends of the text only: there, where it
has a line break and nothing that has to stay.
-/

namespace SvgPress

namespace Text

section Runs

variable {α : Type} {p : α → Bool} {x : α}

theorem take_back_stop (hx : p x = false) (xs ys : List α) :
    (xs ++ x :: ys).rtakeWhile p = ys.rtakeWhile p := by
  have hreverse (zs : List α) : (zs ++ x :: xs.reverse).takeWhile p = zs.takeWhile p := by
    induction zs with
    | nil => exact List.takeWhile_cons_of_neg (by simp [hx])
    | cons z zs ih => rw [List.cons_append, List.takeWhile_cons, List.takeWhile_cons, ih]
  simp [List.rtakeWhile, hreverse]

/-- A list is of the class, or there is a first item that is not. -/
theorem all_or_first (p : α → Bool) (xs : List α) :
    (∀ y ∈ xs, p y) ∨ ∃ front y rest, xs = front ++ y :: rest ∧ (∀ z ∈ front, p z) ∧
      p y = false := by
  induction xs with
  | nil => exact .inl fun y hy => absurd hy List.not_mem_nil
  | cons x xs ih =>
      by_cases hx : p x
      · rcases ih with hall | ⟨front, y, rest, rfl, hfront, hy⟩
        · exact .inl (List.forall_mem_cons.mpr ⟨hx, hall⟩)
        · exact .inr ⟨x :: front, y, rest, rfl, List.forall_mem_cons.mpr ⟨hx, hfront⟩, hy⟩
      · exact .inr ⟨[], x, xs, rfl, fun z hz => absurd hz List.not_mem_nil, by simpa using hx⟩

end Runs

/-- A text is one piece, or its first piece ends at a character of the class. -/
theorem split_chars_cases (p : Char → Bool) (cs : List Char) :
    ((∀ c ∈ cs, p c = false) ∧ splitChars p cs = [cs]) ∨
      ∃ piece c rest, cs = piece ++ c :: rest ∧ (∀ d ∈ piece, p d = false) ∧ p c ∧
        splitChars p cs = piece :: splitChars p rest := by
  rcases all_or_first (fun c => !p c) cs with hall | ⟨piece, c, rest, rfl, hpiece, hc⟩
  · have hplain : ∀ c ∈ cs, p c = false := fun c hc => by simpa using hall c hc
    exact .inl ⟨hplain, split_chars_of_not hplain⟩
  · have hplain : ∀ d ∈ piece, p d = false := fun d hd => by simpa using hpiece d hd
    have hend : p c := by simpa using hc
    refine .inr ⟨piece, c, rest, rfl, hplain, hend, ?_⟩
    rw [split_chars_append hend, split_chars_of_not hplain, List.singleton_append]

section Words

/-- The characters that are not white space, each with whether white space stands in front of it;
`apart` tells whether there was some before the text. -/
def wordsFrom (apart : Bool) : List Char → List (Char × Bool)
  | [] => []
  | c :: cs => if isBlank c then wordsFrom true cs else (c, apart) :: wordsFrom false cs

/-- Whether white space stands at the end of a text. -/
def apartAfter (apart : Bool) : List Char → Bool
  | [] => apart
  | c :: cs => apartAfter (isBlank c) cs

variable (apart : Bool)

theorem words_from_append (cs ds : List Char) :
    wordsFrom apart (cs ++ ds) = wordsFrom apart cs ++ wordsFrom (apartAfter apart cs) ds := by
  induction cs generalizing apart with
  | nil => rfl
  | cons c cs ih =>
      rw [List.cons_append, wordsFrom, wordsFrom, apartAfter]
      split
      · rename_i hc
        rw [ih, hc]
      · rename_i hc
        rw [ih, List.cons_append, Bool.eq_false_iff.mpr hc]

theorem apart_after_append (cs ds : List Char) :
    apartAfter apart (cs ++ ds) = apartAfter (apartAfter apart cs) ds := by
  induction cs generalizing apart with
  | nil => rfl
  | cons c cs ih => exact ih (isBlank c)

theorem words_from_blank {cs : List Char} (h : ∀ c ∈ cs, isBlank c) : wordsFrom apart cs = [] := by
  induction cs generalizing apart with
  | nil => rfl
  | cons c cs ih =>
      rw [List.forall_mem_cons] at h
      rw [wordsFrom, if_pos h.1, ih true h.2]

theorem apart_after_blank {cs : List Char} (h : ∀ c ∈ cs, isBlank c) :
    apartAfter apart cs = (apart || !cs.isEmpty) := by
  induction cs generalizing apart with
  | nil => simp [apartAfter]
  | cons c cs ih =>
      rw [List.forall_mem_cons] at h
      rw [apartAfter, ih _ h.2, h.1]
      simp

/-- White space, a first character of a word, and more. -/
theorem words_from_first {front : List Char} {c : Char} (hfront : ∀ d ∈ front, isBlank d)
    (hc : isBlank c = false) (rest : List Char) :
    wordsFrom apart (front ++ c :: rest) =
      (c, apart || !front.isEmpty) :: wordsFrom false rest := by
  rw [words_from_append, words_from_blank apart hfront, List.nil_append,
    apart_after_blank apart hfront, wordsFrom, if_neg (by simp [hc])]

/-- White space at the end of a text is what stands behind its last word. -/
theorem apart_after_eq (cs : List Char) :
    apartAfter false cs = !(cs.rtakeWhile isBlank).isEmpty := by
  rcases List.eq_nil_or_concat cs with rfl | ⟨front, c, rfl⟩
  · rfl
  · rw [List.concat_eq_append, apart_after_append, apartAfter, apartAfter, List.rtakeWhile_concat]
    split
    · rename_i hc
      simp [hc]
    · rename_i hc
      simpa using hc

end Words

end Text

namespace Jsx

open Text (isBlank dropFront dropBack splitChars wordsFrom apartAfter)

/-- How JSX takes literal text: which characters break lines, and which are dropped next to a line
break. All of them are white space; the line feeds and spaces that elements are laid out with are
among them. -/
structure Spacing where
  space : Char → Bool
  breaks : Char → Bool
  blank_of_space : ∀ c, space c → isBlank c
  blank_of_breaks : ∀ c, breaks c → isBlank c
  space_space : space ' '
  breaks_feed : breaks '\n'

namespace Spacing

/-- Spaces and tabs are dropped at line feeds and carriage returns. -/
def ascii : Spacing where
  space c := c == ' ' || c == '\t'
  breaks c := c == '\n' || c == '\r'
  blank_of_space c h := by
    simp only [Bool.or_eq_true, beq_iff_eq] at h
    rcases h with rfl | rfl <;> rfl
  blank_of_breaks c h := by
    simp only [Bool.or_eq_true, beq_iff_eq] at h
    rcases h with rfl | rfl <;> rfl
  space_space := rfl
  breaks_feed := rfl

variable (sp : Spacing)

/-- Lines behind a line break, without the white space at line breaks. -/
def laterLines : List (List Char) → List (List Char)
  | [] => []
  | [line] => [dropFront sp.space line]
  | line :: lines => dropBack sp.space (dropFront sp.space line) :: laterLines lines

/-- All lines of a text, without the white space at line breaks. -/
def trimLines : List (List Char) → List (List Char)
  | first :: second :: lines => dropBack sp.space first :: sp.laterLines (second :: lines)
  | lines => lines

/-- What is read of a literal text. -/
def literal (cs : List Char) : List Char :=
  [' '].intercalate ((sp.trimLines (splitChars sp.breaks cs)).filter (!·.isEmpty))

/-- What may be dropped. -/
def soft (c : Char) : Bool :=
  sp.space c || sp.breaks c

theorem blank_of_soft {c : Char} (h : sp.soft c = true) : isBlank c = true := by
  rw [soft, Bool.or_eq_true] at h
  exact h.elim (sp.blank_of_space c) (sp.blank_of_breaks c)

theorem hard_of_word {c : Char} (h : isBlank c = false) : sp.soft c = false := by
  rw [Bool.eq_false_iff]
  exact fun hsoft => by rw [sp.blank_of_soft hsoft] at h; cases h

/-- What becomes of characters that may be dropped, in front of one that stays. `started` tells
whether one that stays was before them. -/
def between (started : Bool) (pending : List Char) : List Char :=
  if pending.any sp.breaks then if started then [' '] else [] else pending

/-- The reading of a text character by character, the characters that may be dropped held back. -/
def scan (started : Bool) (pending : List Char) : List Char → List Char
  | [] => if pending.any sp.breaks then [] else pending
  | c :: cs =>
    if sp.soft c then scan started (pending ++ [c]) cs
    else sp.between started pending ++ c :: scan true [] cs

section Scanning

variable {sp} {started : Bool} {pending : List Char}

theorem scan_soft (started : Bool) (pending : List Char) {cs : List Char}
    (h : ∀ c ∈ cs, sp.soft c) (rest : List Char) :
    sp.scan started pending (cs ++ rest) = sp.scan started (pending ++ cs) rest := by
  induction cs generalizing pending with
  | nil => rw [List.nil_append, List.append_nil]
  | cons c cs ih =>
      rw [List.forall_mem_cons] at h
      rw [List.cons_append, scan, if_pos h.1, ih (pending ++ [c]) h.2, List.append_assoc,
        List.singleton_append]

theorem scan_hard {c : Char} (h : sp.soft c = false) (rest : List Char) :
    sp.scan started pending (c :: rest) =
      sp.between started pending ++ c :: sp.scan true [] rest := by
  rw [scan, if_neg (by simp [h])]

/-- In a line, all is read but the white space at its end, which is held back. -/
theorem scan_line (sp : Spacing) (pending : List Char) {cs : List Char}
    (hpending : ∀ c ∈ pending, sp.space c ∧ sp.breaks c = false)
    (h : ∀ c ∈ cs, sp.breaks c = false) (rest : List Char) :
    sp.scan true pending (cs ++ rest) = dropBack sp.space (pending ++ cs) ++
      sp.scan true ((pending ++ cs).rtakeWhile sp.space) rest := by
  induction cs generalizing pending with
  | nil =>
      have hall : ∀ c ∈ pending, sp.space c := fun c hc => (hpending c hc).1
      rw [List.append_nil, Text.drop_back_eq_nil_iff.mpr hall, List.rtakeWhile_eq_self_iff.mpr hall]
      rfl
  | cons c cs ih =>
      rw [List.forall_mem_cons] at h
      by_cases hc : sp.space c
      · have hmore := ih (pending ++ [c]) (by
          rw [List.forall_mem_append, List.forall_mem_singleton]
          exact ⟨hpending, hc, h.1⟩) h.2
        have hsplit : pending ++ [c] ++ cs = pending ++ c :: cs := by simp
        rw [List.cons_append, scan, if_pos (by rw [soft, hc, Bool.true_or]), hmore, hsplit]
      · have hspace : sp.space c = false := by simpa using hc
        have hbetween : sp.between true pending = pending := by
          rw [between, if_neg]
          simpa using fun d hd => (hpending d hd).2
        have hmore := ih [] (by simp) h.2
        rw [List.nil_append] at hmore
        rw [List.cons_append, scan_hard (by rw [soft, hspace, h.1, Bool.or_false]), hbetween, hmore,
          Text.drop_back_stop hspace, Text.take_back_stop hspace, List.append_assoc,
          List.cons_append]

/-- The lines of a text in front of which something stands, if there is something. -/
def glue (started : Bool) (lines : List (List Char)) : List Char :=
  if started then lines.flatMap (' ' :: ·) else [' '].intercalate lines

theorem intercalate_cons (line : List Char) (lines : List (List Char)) :
    [' '].intercalate (line :: lines) = line ++ glue true lines := by
  induction lines generalizing line with
  | nil => simp [glue]
  | cons next lines ih =>
      have hcons : [' '].intercalate (line :: next :: lines) =
          line ++ ' ' :: [' '].intercalate (next :: lines) := by
        simp [List.intercalate]
      rw [hcons, ih]
      simp [glue]

theorem glue_cons (started : Bool) (line : List Char) (lines : List (List Char)) :
    glue started (line :: lines) =
      (if started then [' '] else []) ++ (line ++ glue true lines) := by
  cases started with
  | false => exact intercalate_cons line lines
  | true => simp [glue]

theorem glue_filter_cons_empty (started : Bool) (lines : List (List Char)) :
    glue started (([] :: lines).filter (!·.isEmpty)) = glue started (lines.filter (!·.isEmpty)) :=
      rfl

theorem later_lines_cons (line : List Char) {lines : List (List Char)} (h : lines ≠ []) :
    sp.laterLines (line :: lines) =
      dropBack sp.space (dropFront sp.space line) :: sp.laterLines lines := by
  obtain ⟨next, lines, rfl⟩ := List.exists_cons_of_ne_nil h
  rfl

/-- What is left of a line that begins and goes on after white space. -/
theorem drop_front_stop {front : List Char} {c : Char} (hfront : ∀ d ∈ front, sp.space d)
    (hc : sp.space c = false) (rest : List Char) :
    dropFront sp.space (front ++ c :: rest) = c :: rest := by
  rw [dropFront, List.dropWhile_append_of_pos hfront, List.dropWhile_cons_of_neg (by simp [hc])]

theorem soft_of_space {cs : List Char} (h : ∀ c ∈ cs, sp.space c) : ∀ c ∈ cs, sp.soft c :=
  fun c hc => by rw [soft, h c hc, Bool.true_or]

/-- The last line of a text, behind a character that stays. -/
theorem scan_last {cs : List Char} (h : ∀ c ∈ cs, sp.breaks c = false) :
    sp.scan true [] cs = cs := by
  have hline := sp.scan_line [] (by simp) h []
  have hback : ¬ ((cs.rtakeWhile sp.space).any sp.breaks = true) := by
    simp only [List.any_eq_true, not_exists, not_and, Bool.not_eq_true]
    exact fun c hc => h c ((List.rtakeWhile_suffix _ _).mem hc)
  rw [List.append_nil, List.nil_append, scan, if_neg hback] at hline
  rw [hline]
  exact List.rdropWhile_append_rtakeWhile

/-- A line without a line break at its end: spaces alone are held back, and otherwise all is read
but the spaces in front. -/
theorem scan_unended (started : Bool) (pending : List Char) {line : List Char}
    (h : ∀ d ∈ line, sp.breaks d = false) :
    ((∀ d ∈ line, sp.space d) ∧ sp.scan started pending line =
      if (pending ++ line).any sp.breaks then [] else pending ++ line) ∨
    ∃ front d more, line = front ++ d :: more ∧ (∀ e ∈ front, sp.space e) ∧ sp.space d = false ∧
      sp.scan started pending line = sp.between started (pending ++ front) ++ d :: more := by
  rcases Text.all_or_first sp.space line with hall | ⟨front, d, more, rfl, hfront, hd⟩
  · have hscan := scan_soft started pending (soft_of_space hall) []
    rw [List.append_nil, scan] at hscan
    exact .inl ⟨hall, hscan⟩
  · rw [List.forall_mem_append, List.forall_mem_cons] at h
    refine .inr ⟨front, d, more, rfl, hfront, hd, ?_⟩
    rw [scan_soft _ _ (soft_of_space hfront), scan_hard (by rw [soft, hd, h.2.1, Bool.or_false]),
      scan_last h.2.2]

/-- A line with a line break at its end: the break is held back, with the whole line if it is spaces
alone; otherwise all is read but the spaces at both ends. -/
theorem scan_ended (started : Bool) (pending : List Char) {line : List Char} {c : Char}
    (h : ∀ d ∈ line, sp.breaks d = false) (hc : sp.breaks c) (rest : List Char) :
    ∃ held, held.any sp.breaks ∧
      (((∀ d ∈ line, sp.space d) ∧
        sp.scan started pending (line ++ c :: rest) = sp.scan started held rest) ∨
      ∃ front d more, line = front ++ d :: more ∧ (∀ e ∈ front, sp.space e) ∧ sp.space d = false ∧
        sp.scan started pending (line ++ c :: rest) = sp.between started (pending ++ front) ++
          (d :: dropBack sp.space more ++ sp.scan true held rest)) := by
  have hbreak : sp.soft c := by rw [soft, hc, Bool.or_true]
  rcases Text.all_or_first sp.space line with hall | ⟨front, d, more, rfl, hfront, hd⟩
  · refine ⟨pending ++ line ++ [c], by simp [hc], .inl ⟨hall, ?_⟩⟩
    rw [scan_soft _ _ (soft_of_space hall), scan, if_pos hbreak]
  · rw [List.forall_mem_append, List.forall_mem_cons] at h
    refine ⟨more.rtakeWhile sp.space ++ [c], by simp [hc],
      .inr ⟨front, d, more, rfl, hfront, hd, ?_⟩⟩
    rw [List.append_assoc, List.cons_append, scan_soft _ _ (soft_of_space hfront),
      scan_hard (by rw [soft, hd, h.2.1, Bool.or_false]), scan_line sp [] (by simp) h.2.2,
      List.nil_append, scan, if_pos hbreak, List.cons_append]

/-- Behind a line break the scan reads the lines without the white space at line breaks. -/
theorem scan_later (started : Bool) {pending : List Char} (h : pending.any sp.breaks)
    (cs : List Char) : sp.scan started pending cs =
      glue started ((sp.laterLines (splitChars sp.breaks cs)).filter (!·.isEmpty)) := by
  have hbroken (more : List Char) : (pending ++ more).any sp.breaks := by
    rw [List.any_append, h, Bool.true_or]
  have hbetween (more : List Char) :
      sp.between started (pending ++ more) = if started then [' '] else [] := by
    rw [between, if_pos (hbroken more)]
  rcases Text.split_chars_cases sp.breaks cs with
    ⟨hplain, hsplit⟩ | ⟨line, c, rest, hcs, hplain, hc, hsplit⟩
  · rw [hsplit, laterLines]
    rcases scan_unended started pending hplain with
      ⟨hall, hscan⟩ | ⟨front, d, more, rfl, hfront, hd, hscan⟩
    · rw [hscan, if_pos (hbroken cs), dropFront, List.dropWhile_eq_nil_iff.mpr hall,
        glue_filter_cons_empty]
      cases started <;> rfl
    · rw [hscan, hbetween, drop_front_stop hfront hd, List.filter_cons_of_pos (by simp),
        List.filter_nil, glue_cons]
      simp [glue]
  · have hlength : rest.length < cs.length := by
      rw [hcs, List.length_append, List.length_cons]
      omega
    rw [hsplit, later_lines_cons _ (Text.split_chars_ne_nil rest), hcs]
    obtain ⟨held, hheld, ⟨hall, hscan⟩ | ⟨front, d, more, rfl, hfront, hd, hscan⟩⟩ :=
      scan_ended started pending hplain hc rest
    · rw [hscan, scan_later started hheld rest, dropFront, List.dropWhile_eq_nil_iff.mpr hall,
        Text.drop_back_nil, glue_filter_cons_empty]
    · have htrim : dropBack sp.space (d :: more) = d :: dropBack sp.space more :=
        Text.drop_back_stop hd [] more
      rw [hscan, hbetween, scan_later true hheld rest, drop_front_stop hfront hd, htrim,
        List.filter_cons_of_pos (by simp), glue_cons]
termination_by cs.length

/-- The scan reads what is read by lines. -/
theorem scan_eq_literal (cs : List Char) : sp.scan false [] cs = sp.literal cs := by
  rw [literal]
  rcases Text.split_chars_cases sp.breaks cs with
    ⟨hplain, hsplit⟩ | ⟨line, c, rest, hcs, hplain, hc, hsplit⟩
  · have hread : [' '].intercalate ((sp.trimLines [cs]).filter (!·.isEmpty)) = cs := by
      cases cs with
      | nil => rfl
      | cons d ds => simp [trimLines, List.intercalate]
    rw [hsplit, hread]
    rcases scan_unended false [] hplain with ⟨-, hscan⟩ | ⟨front, d, more, rfl, -, -, hscan⟩
    · rw [hscan, List.nil_append, if_neg (by simpa using hplain)]
    · rw [List.forall_mem_append] at hplain
      rw [hscan, List.nil_append, between, if_neg (by simpa using hplain.1)]
  · obtain ⟨next, lines, hnext⟩ := List.exists_cons_of_ne_nil
      (Text.split_chars_ne_nil (p := sp.breaks) rest)
    have htrim : sp.trimLines (splitChars sp.breaks cs) =
        dropBack sp.space line :: sp.laterLines (splitChars sp.breaks rest) := by
      rw [hsplit, hnext]
      rfl
    rw [htrim, hcs]
    obtain ⟨held, hheld, ⟨hall, hscan⟩ | ⟨front, d, more, rfl, -, hd, hscan⟩⟩ :=
      scan_ended false [] hplain hc rest
    · rw [hscan, scan_later false hheld rest, Text.drop_back_eq_nil_iff.mpr hall]
      rfl
    · rw [List.forall_mem_append] at hplain
      have hfront : sp.between false ([] ++ front) = front := by
        rw [List.nil_append, between, if_neg (by simpa using hplain.1)]
      rw [hscan, hfront, scan_later true hheld rest, Text.drop_back_stop hd,
        List.filter_cons_of_pos (by simp), intercalate_cons]
      simp

end Scanning

/-- Whether something is read of white space at an end of a literal text: it has no line break, or a
character in it that is not dropped at one. -/
def keepsEdge (cs : List Char) : Bool :=
  !cs.isEmpty && (!cs.any sp.breaks || cs.any fun c => !sp.soft c)

section Edges

variable {sp} {pending : List Char}

theorem keeps_edge_soft (h : ∀ c ∈ pending, sp.soft c) :
    sp.keepsEdge pending = (!pending.isEmpty && !pending.any sp.breaks) := by
  have hnone : pending.any (fun c => !sp.soft c) = false := by
    simpa using h
  rw [keepsEdge, hnone, Bool.or_false]

theorem keeps_edge_hard {cs : List Char} {c : Char} (hc : c ∈ cs) (hhard : sp.soft c = false) :
    sp.keepsEdge cs = true := by
  have hany : cs.any (fun c => !sp.soft c) = true :=
    List.any_eq_true.mpr ⟨c, hc, by rw [hhard]; rfl⟩
  rw [keepsEdge, hany, Bool.or_true, Bool.and_true]
  cases cs with
  | nil => exact absurd hc List.not_mem_nil
  | cons d ds => rfl

theorem blank_between (h : ∀ c ∈ pending, sp.soft c) (started : Bool) :
    (∀ c ∈ sp.between started pending, isBlank c) ∧
      (!(sp.between started pending).isEmpty) =
        (started && !pending.isEmpty || sp.keepsEdge pending) := by
  rw [keeps_edge_soft h, between]
  by_cases hbroken : pending.any sp.breaks = true
  · have hsome : pending.isEmpty = false := by
      cases pending with
      | nil => cases hbroken
      | cons c cs => rfl
    rw [if_pos hbroken, hbroken, hsome]
    cases started with
    | false => exact ⟨by simp, rfl⟩
    | true => exact ⟨by decide, rfl⟩
  · rw [if_neg hbroken, Bool.eq_false_iff.mpr hbroken]
    refine ⟨fun c hc => sp.blank_of_soft (h c hc), ?_⟩
    cases started <;> simp

/-- White space in front of the first character of a word. -/
theorem scan_front (sp : Spacing) {pending front : List Char} {c : Char}
    (hpending : ∀ d ∈ pending, sp.soft d)
    (hfront : ∀ d ∈ front, isBlank d) (hc : isBlank c = false) (started : Bool) (rest : List Char) :
    ∃ read, sp.scan started pending (front ++ c :: rest) = read ++ c :: sp.scan true [] rest ∧
      (∀ d ∈ read, isBlank d) ∧
      (!read.isEmpty) =
        (started && !(pending ++ front).isEmpty || sp.keepsEdge (pending ++ front)) := by
  induction front generalizing started pending with
  | nil =>
      obtain ⟨hblank, hread⟩ := blank_between hpending started
      rw [List.append_nil, List.nil_append, scan_hard (sp.hard_of_word hc)]
      exact ⟨_, rfl, hblank, hread⟩
  | cons d front ih =>
      rw [List.forall_mem_cons] at hfront
      by_cases hd : sp.soft d
      · have hmore : ∀ e ∈ pending ++ [d], sp.soft e := by
          rw [List.forall_mem_append, List.forall_mem_singleton]
          exact ⟨hpending, hd⟩
        have hfound := ih hmore hfront.2 started
        rw [List.append_assoc, List.singleton_append] at hfound
        rwa [List.cons_append, scan, if_pos hd]
      · have hhard : sp.soft d = false := by simpa using hd
        obtain ⟨read, hscan, hblank, -⟩ := ih (List.forall_mem_nil _) hfront.2 true
        refine ⟨sp.between started pending ++ d :: read, ?_, ?_, ?_⟩
        · rw [List.cons_append, scan_hard hhard, hscan, List.append_assoc, List.cons_append]
        · rw [List.forall_mem_append, List.forall_mem_cons]
          exact ⟨(blank_between hpending started).1, hfront.1, hblank⟩
        · rw [keeps_edge_hard (c := d) (by simp) hhard, Bool.or_true]
          simp

/-- White space up to the end of a text. -/
theorem scan_blank (sp : Spacing) {pending cs : List Char} (hpending : ∀ d ∈ pending, sp.soft d)
    (hcs : ∀ d ∈ cs, isBlank d) (started : Bool) :
    (∀ d ∈ sp.scan started pending cs, isBlank d) ∧
      (!(sp.scan started pending cs).isEmpty) = sp.keepsEdge (pending ++ cs) := by
  induction cs generalizing started pending with
  | nil =>
      rw [List.append_nil, keeps_edge_soft hpending, scan]
      split
      · rename_i hbroken
        exact ⟨by simp, by simp [hbroken]⟩
      · rename_i hwhole
        exact ⟨fun c hc => sp.blank_of_soft (hpending c hc), by
          rw [Bool.eq_false_iff.mpr hwhole]; simp⟩
  | cons d cs ih =>
      rw [List.forall_mem_cons] at hcs
      by_cases hd : sp.soft d
      · have hmore : ∀ e ∈ pending ++ [d], sp.soft e := by
          rw [List.forall_mem_append, List.forall_mem_singleton]
          exact ⟨hpending, hd⟩
        have hfound := ih hmore hcs.2 started
        rw [List.append_assoc, List.singleton_append] at hfound
        rwa [scan, if_pos hd]
      · have hhard : sp.soft d = false := by simpa using hd
        rw [scan_hard hhard, keeps_edge_hard (c := d) (by simp) hhard, List.forall_mem_append,
          List.forall_mem_cons]
        exact ⟨⟨(blank_between hpending started).1, hcs.1, (ih (by simp) hcs.2 true).1⟩, by simp⟩

/-- Behind a character that stays, words are apart in what is read where they are apart in the text;
white space at the end may be lost. -/
theorem scan_words (sp : Spacing) (cs : List Char) :
    wordsFrom false (sp.scan true [] cs) = wordsFrom false cs ∧
      apartAfter false (sp.scan true [] cs) = sp.keepsEdge (cs.rtakeWhile isBlank) := by
  rcases Text.all_or_first isBlank cs with hall | ⟨front, c, rest, hcs, hfront, hc⟩
  · obtain ⟨hblank, hread⟩ := sp.scan_blank (List.forall_mem_nil _) hall true
    rw [Text.words_from_blank false hblank, Text.words_from_blank false hall,
      Text.apart_after_blank false hblank, hread, List.rtakeWhile_eq_self_iff.mpr hall]
    exact ⟨rfl, rfl⟩
  · have hlength : rest.length < cs.length := by
      rw [hcs, List.length_append, List.length_cons]
      omega
    obtain ⟨hwords, hend⟩ := sp.scan_words rest
    obtain ⟨read, hscan, hblank, hread⟩ :=
      sp.scan_front (List.forall_mem_nil _) hfront hc true rest
    have hsame : (!read.isEmpty) = !front.isEmpty := by
      rw [hread, List.nil_append, keepsEdge]
      cases front <;> simp
    rw [hcs, hscan, Text.words_from_first false hblank hc, Text.words_from_first false hfront hc,
      hsame, hwords, Text.take_back_stop hc, Text.apart_after_append, apartAfter, hc, hend]
    exact ⟨rfl, rfl⟩
termination_by cs.length

end Edges

/-- In what is read of a literal text with words in it, the first one is apart from what was before
where white space in front of it is kept, and all others are apart as in the text. -/
theorem literal_words {front : List Char} {c : Char} (hfront : ∀ d ∈ front, isBlank d)
    (hc : isBlank c = false) (rest : List Char) (apart : Bool) :
    wordsFrom apart (sp.literal (front ++ c :: rest)) =
        (c, apart || sp.keepsEdge front) :: wordsFrom false rest ∧
      apartAfter apart (sp.literal (front ++ c :: rest)) =
        sp.keepsEdge (rest.rtakeWhile isBlank) := by
  obtain ⟨read, hscan, hblank, hread⟩ :=
    sp.scan_front (List.forall_mem_nil _) hfront hc false rest
  obtain ⟨hwords, hend⟩ := sp.scan_words rest
  rw [Bool.false_and, Bool.false_or, List.nil_append] at hread
  rw [← scan_eq_literal, hscan, Text.words_from_first apart hblank hc, hread, hwords,
    Text.apart_after_append, apartAfter, hc, hend]
  exact ⟨rfl, rfl⟩

/-- White space alone is read as white space, if anything is read of it. -/
theorem literal_blank {cs : List Char} (h : ∀ c ∈ cs, isBlank c) :
    (∀ c ∈ sp.literal cs, isBlank c) ∧ (!(sp.literal cs).isEmpty) = sp.keepsEdge cs := by
  rw [← scan_eq_literal]
  exact sp.scan_blank (List.forall_mem_nil _) h false

end Spacing

end Jsx

end SvgPress
