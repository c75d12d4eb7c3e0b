import Mathlib.Data.List.Forall2
import SvgPress.Proofs.Jsx.Hearing
import SvgPress.Proofs.Jsx.Tree

/-!
Word spacing in converted markup. Between two words of an element there may be tags, and then the
white space between them is in more than one part: at the end of one text, in texts of white space,
and at the beginning of another. Words that are apart in the markup are apart in what JSX reads
exactly if one of these parts is read. White space within one text is never lost.
-/

namespace SvgPress.Jsx

open Text (isBlank wordsFrom apartAfter)

/-- Whether white space stands between two characters of a text, each told by how many other
characters that are not white space stand before it. -/
def Separated (cs : List Char) (i j : Nat) : Prop :=
  ∃ k c, i < k ∧ k ≤ j ∧ (wordsFrom true cs)[k]? = some (c, true)

/-- Whether a text is heard with all that is not white space, and with white space between any two
characters between which there is some. -/
def KeepsSpacing (told heard : List Char) : Prop :=
  (wordsFrom true told).map Prod.fst = (wordsFrom true heard).map Prod.fst ∧
    ∀ i j, Separated told i j → Separated heard i j

/-- Whether a character stands, apart from the one before it if it has to. -/
def StaysApart (told heard : Char × Bool) : Prop :=
  told.1 = heard.1 ∧ (told.2 = true → heard.2 = true)

theorem stay_apart_append (words told heard : List (Char × Bool)) :
    List.Forall₂ StaysApart (words ++ told) (words ++ heard) ↔
      List.Forall₂ StaysApart told heard := by
  constructor
  · intro hboth
    have hdrop := List.forall₂_drop words.length hboth
    rwa [List.drop_left, List.drop_left] at hdrop
  · intro hmore
    exact List.rel_append (List.forall₂_same.mpr fun word _ => ⟨rfl, id⟩) hmore

theorem head_words_from (apart : Bool) (cs : List Char) :
    ∀ word ∈ (wordsFrom apart cs).head?, apart = true → word.2 = true := by
  induction cs generalizing apart with
  | nil => exact fun word hword => by cases hword
  | cons c cs ih =>
      rw [wordsFrom]
      split
      · exact fun word hword _ => ih true word hword rfl
      · rintro word hword rfl
        cases hword
        rfl

/-- It is enough that each character is apart from the one just before it. -/
theorem keeps_spacing_iff (told heard : List Char) :
    KeepsSpacing told heard ↔
      List.Forall₂ StaysApart (wordsFrom true told) (wordsFrom true heard) := by
  rw [List.forall₂_iff_get]
  constructor
  · rintro ⟨hchars, hsep⟩
    have hlength : (wordsFrom true told).length = (wordsFrom true heard).length := by
      simpa using congrArg List.length hchars
    refine ⟨hlength, fun k htold hheard => ⟨?_, fun hapart => ?_⟩⟩
    · have hk := congrArg (·[k]?) hchars
      simpa [List.getElem?_eq_getElem htold, List.getElem?_eq_getElem hheard] using hk
    · simp only [List.get_eq_getElem] at hapart ⊢
      cases k with
      | zero =>
          refine head_words_from true heard _ ?_ rfl
          rw [List.head?_eq_getElem?, List.getElem?_eq_getElem hheard]
          rfl
      | succ k =>
          have hword :
              (wordsFrom true told)[k + 1]? = some ((wordsFrom true told)[k + 1].1, true) := by
            rw [List.getElem?_eq_getElem htold]
            exact congrArg some (Prod.ext rfl hapart)
          obtain ⟨l, c, hl, hlk, hfound⟩ := hsep k (k + 1) ⟨k + 1, _, by omega, le_refl _, hword⟩
          obtain rfl : l = k + 1 := by omega
          rw [List.getElem?_eq_getElem hheard, Option.some.injEq] at hfound
          rw [hfound]
  · rintro ⟨hlength, hall⟩
    constructor
    · refine List.ext_getElem (by simpa using hlength) fun k htold hheard => ?_
      rw [List.length_map] at htold hheard
      simpa using (hall k htold hheard).1
    · rintro i j ⟨k, c, hik, hkj, hword⟩
      obtain ⟨htold, hget⟩ := List.getElem?_eq_some_iff.mp hword
      have hheard : k < (wordsFrom true heard).length := hlength ▸ htold
      refine ⟨k, (wordsFrom true heard)[k].1, hik, hkj, ?_⟩
      have hapart := (hall k htold hheard).2 (by
        rw [List.get_eq_getElem, hget])
      rw [List.getElem?_eq_getElem hheard, Option.some.injEq]
      exact Prod.ext rfl hapart

/-- A text that is read at one go: literal text, or the string of an expression. -/
structure Run where
  spoken : Bool
  chars : List Char
  deriving DecidableEq, Repr

def Piece.run? : Piece → Option Run
  | .literal s => some ⟨false, s.toList⟩
  | .braces (.string s) => some ⟨true, s.toList⟩
  | _ => none

def runsOf (ps : List Piece) : List Run :=
  ps.filterMap Piece.run?

namespace Run

/-- White space in front of the first word. -/
def front (run : Run) : Run :=
  { run with chars := run.chars.takeWhile isBlank }

/-- White space behind the last word. -/
def back (run : Run) : Run :=
  { run with chars := run.chars.rtakeWhile isBlank }

end Run

/-- The white space between words of different texts, as far as it is in one text each, after some
of it was met. -/
def gapsFrom (parts : List Run) : List Run → List (List Run)
  | [] => []
  | run :: runs =>
    if run.chars.all isBlank then gapsFrom (parts ++ [run]) runs
    else (parts ++ [run.front]) :: gapsFrom [run.back] runs

/-- The gaps between words of different texts. What is in front of the first word is no gap. -/
def gaps (runs : List Run) : List (List Run) :=
  (gapsFrom [] runs).tail

/-- White space that was met before is part of the first gap only. -/
theorem gaps_from_cases (runs : List Run) :
    (∀ parts, gapsFrom parts runs = []) ∨
      ∃ first rest, ∀ parts, gapsFrom parts runs = (parts ++ first) :: rest := by
  induction runs with
  | nil => exact .inl fun _ => rfl
  | cons run runs ih =>
      simp only [gapsFrom]
      split
      · rcases ih with hnone | ⟨first, rest, hgaps⟩
        · exact .inl fun parts => hnone _
        · exact .inr ⟨run :: first, rest, fun parts => by rw [hgaps]; simp⟩
      · exact .inr ⟨[run.front], gapsFrom [run.back] runs, fun _ => rfl⟩

/-- A way to read texts that keeps their words, and the white space between words of one text. What
it makes of white space at the ends of a literal text is open. -/
structure TextReader where
  literal : List Char → List Char
  /-- Whether something is read of white space at an end of a literal text. -/
  keepsEdge : List Char → Bool
  literal_blank : ∀ {cs : List Char}, (∀ c ∈ cs, isBlank c) →
    (∀ c ∈ literal cs, isBlank c) ∧ (!(literal cs).isEmpty) = keepsEdge cs
  literal_words : ∀ {front : List Char} {c : Char}, (∀ d ∈ front, isBlank d) → isBlank c = false →
    ∀ (rest : List Char) (apart : Bool),
      wordsFrom apart (literal (front ++ c :: rest)) =
          (c, apart || keepsEdge front) :: wordsFrom false rest ∧
        apartAfter apart (literal (front ++ c :: rest)) = keepsEdge (rest.rtakeWhile isBlank)

namespace TextReader

variable (reader : TextReader)

/-- What is read of a text. -/
def hear (run : Run) : List Char :=
  if run.spoken then run.chars else reader.literal run.chars

/-- Whether something is read of white space at an end of a text. -/
def stays (part : Run) : Bool :=
  if part.spoken then !part.chars.isEmpty else reader.keepsEdge part.chars

/-- Whether something is read of a gap, if there is white space in it. -/
def KeepsGap (gap : List Run) : Prop :=
  gap.any (fun part => !part.chars.isEmpty) = true → gap.any reader.stays = true

instance (gap : List Run) : Decidable (reader.KeepsGap gap) :=
  inferInstanceAs (Decidable (_ → _))

theorem hear_blank {run : Run} (h : run.chars.all isBlank = true) (apart : Bool) :
    wordsFrom apart (reader.hear run) = [] ∧
      apartAfter apart (reader.hear run) = (apart || reader.stays run) := by
  rw [List.all_eq_true] at h
  rw [hear, stays]
  split
  · exact ⟨Text.words_from_blank apart h, Text.apart_after_blank apart h⟩
  · obtain ⟨hblank, hread⟩ := reader.literal_blank h
    rw [Text.words_from_blank apart hblank, Text.apart_after_blank apart hblank, hread]
    exact ⟨rfl, rfl⟩

/-- A text with words in it is told and heard with the same words, apart in the same places. Only
the white space at its ends may be lost. -/
theorem hear_words {run : Run} (h : ¬ run.chars.all isBlank = true) :
    ∃ c words, ∀ apart,
      wordsFrom apart run.chars = (c, apart || !run.front.chars.isEmpty) :: words ∧
      apartAfter apart run.chars = !run.back.chars.isEmpty ∧
      wordsFrom apart (reader.hear run) = (c, apart || reader.stays run.front) :: words ∧
      apartAfter apart (reader.hear run) = reader.stays run.back := by
  rcases Text.all_or_first isBlank run.chars with hall | ⟨front, c, rest, hchars, hfront, hc⟩
  · exact absurd (List.all_eq_true.mpr hall) h
  · have htake : run.chars.takeWhile isBlank = front := by
      rw [hchars, List.takeWhile_append_of_pos hfront, List.takeWhile_cons_of_neg (by simp [hc]),
        List.append_nil]
    have hback : run.chars.rtakeWhile isBlank = rest.rtakeWhile isBlank := by
      rw [hchars, Text.take_back_stop hc]
    refine ⟨c, wordsFrom false rest, fun apart => ?_⟩
    have htold : wordsFrom apart run.chars =
          (c, apart || !front.isEmpty) :: wordsFrom false rest ∧
        apartAfter apart run.chars = !(rest.rtakeWhile isBlank).isEmpty := by
      rw [hchars, Text.words_from_first apart hfront hc, Text.apart_after_append, apartAfter, hc,
        Text.apart_after_eq]
      exact ⟨rfl, rfl⟩
    simp only [Run.front, Run.back, stays, hear, htake, hback]
    refine ⟨htold.1, htold.2, ?_⟩
    split
    · exact htold
    · rw [hchars]
      exact reader.literal_words hfront hc rest apart

/-- From any white space on: the words of the texts stay apart where something is read of every
gap. -/
theorem stay_apart_from_iff (runs parts : List Run) :
    List.Forall₂ StaysApart
        (wordsFrom (parts.any fun part => !part.chars.isEmpty) (runs.flatMap Run.chars))
        (wordsFrom (parts.any reader.stays) (runs.flatMap reader.hear)) ↔
      ∀ gap ∈ gapsFrom parts runs, reader.KeepsGap gap := by
  induction runs generalizing parts with
  | nil => simp [wordsFrom, gapsFrom]
  | cons run runs ih =>
      rw [List.flatMap_cons, List.flatMap_cons, Text.words_from_append, Text.words_from_append,
        gapsFrom]
      split
      · rename_i hblank
        have hall := List.all_eq_true.mp hblank
        rw [Text.words_from_blank _ hall, Text.apart_after_blank _ hall,
          (reader.hear_blank hblank _).1, (reader.hear_blank hblank _).2, ← ih]
        simp only [List.any_append, List.any_cons, List.any_nil, Bool.or_false, List.nil_append]
      · rename_i hwords
        obtain ⟨c, words, hrun⟩ := reader.hear_words hwords
        obtain ⟨htold, hback, -, -⟩ := hrun (parts.any fun part => !part.chars.isEmpty)
        obtain ⟨-, -, hheard, hstays⟩ := hrun (parts.any reader.stays)
        rw [htold, hback, hheard, hstays, List.forall_mem_cons, ← ih, List.cons_append,
          List.cons_append, List.forall₂_cons]
        have hgap : StaysApart (c, (parts.any fun part => !part.chars.isEmpty) ||
              !run.front.chars.isEmpty) (c, parts.any reader.stays || reader.stays run.front) ↔
            reader.KeepsGap (parts ++ [run.front]) := by
          simp [StaysApart, KeepsGap]
        rw [hgap, stay_apart_append]
        simp only [List.any_cons, List.any_nil, Bool.or_false]

/-- The words of texts stay apart exactly where something is read of every gap between them. -/
theorem stay_apart_iff (runs : List Run) :
    List.Forall₂ StaysApart (wordsFrom true (runs.flatMap Run.chars))
        (wordsFrom true (runs.flatMap reader.hear)) ↔
      ∀ gap ∈ gaps runs, reader.KeepsGap gap := by
  -- White space that is read in front of all texts makes the first gap one that is kept.
  have hfrom := reader.stay_apart_from_iff runs [⟨true, [' ']⟩]
  rw [gaps]
  rcases gaps_from_cases runs with hnone | ⟨first, rest, hgaps⟩
  · rw [hnone] at hfrom ⊢
    exact hfrom
  · rw [hgaps, List.forall_mem_cons] at hfrom
    rw [hgaps, List.tail_cons]
    exact hfrom.trans (and_iff_right fun _ => rfl)

end TextReader

namespace Spacing

variable (sp : Spacing)

/-- JSX as a way to read texts. -/
def reader : TextReader where
  literal := sp.literal
  keepsEdge := sp.keepsEdge
  literal_blank := sp.literal_blank
  literal_words := sp.literal_words

/-- What is read of a text. -/
def hear (run : Run) : List Char :=
  sp.reader.hear run

/-- Whether something is read of a gap, if there is white space in it. -/
def KeepsGap (gap : List Run) : Prop :=
  sp.reader.KeepsGap gap

instance (gap : List Run) : Decidable (sp.KeepsGap gap) :=
  inferInstanceAs (Decidable (sp.reader.KeepsGap gap))

/-- What is read of the texts among pieces. -/
def hearAll (ps : List Piece) : List Char :=
  (runsOf ps).flatMap sp.hear

end Spacing

section Joined

/-- Pieces in front of one that is no literal text are put together on their own. -/
theorem joined_append {p : Piece} (h : ∀ s, p ≠ .literal s) (ps qs : List Piece) :
    joined (ps ++ p :: qs) = joined ps ++ p :: joined qs := by
  induction ps with
  | nil =>
      have honto : p.onto (joined qs) = p :: joined qs := by
        cases p with
        | literal s => exact absurd rfl (h s)
        | opening _ _ | single _ _ | closing _ | braces _ => rfl
      exact honto
  | cons q ps ih =>
      have hcons (rs : List Piece) : joined (q :: rs) = q.onto (joined rs) := rfl
      rw [List.cons_append, hcons, hcons, ih]
      cases q with
      | literal s =>
          match joined ps with
          | .literal t :: rest => rfl
          | [] =>
              rw [List.nil_append, Piece.onto, consLiteral]
              · rw [Piece.onto, consLiteral]
                · split
                  · rfl
                  · rfl
                · simp
              · simpa using fun t => h t
          | .opening .. :: _ | .single .. :: _ | .closing _ :: _ | .braces _ :: _ =>
              simp only [Piece.onto, consLiteral, List.cons_append]
              split
              · rfl
              · rfl
      | opening _ _ | single _ _ | closing _ | braces _ => rfl

theorem runs_of_append (ps qs : List Piece) : runsOf (ps ++ qs) = runsOf ps ++ runsOf qs :=
  List.filterMap_append

/-- A tag is heard as nothing, and parts what stands before it from what stands behind it. -/
theorem hear_joined_tag (sp : Spacing) {p : Piece} (h : p.tag?.isSome ∨ ∃ name, p = .closing name)
    (ps qs : List Piece) : sp.hearAll (joined (ps ++ p :: qs)) =
      sp.hearAll (joined ps) ++ sp.hearAll (joined qs) := by
  have hliteral : ∀ s, p ≠ .literal s := by
    rintro s rfl
    rcases h with h | ⟨name, h⟩
    · cases h
    · cases h
  have hrun : p.run? = none := by
    cases p with
    | opening _ _ | single _ _ | closing _ => rfl
    | literal s => exact absurd rfl (hliteral s)
    | braces meaning =>
        rcases h with h | ⟨name, h⟩
        · cases h
        · cases h
  rw [joined_append hliteral, Spacing.hearAll, runs_of_append, runsOf, runsOf, List.filterMap_cons,
    hrun, List.flatMap_append]
  rfl

/-- An element between other pieces is heard between them. -/
theorem hear_joined_element (sp : Spacing) (name : String) (attributes : Meanings)
    (before inner after : List Piece) :
    sp.hearAll (joined (before ++ .opening name attributes :: (inner ++ .closing name :: after))) =
      sp.hearAll (joined before) ++ (sp.hearAll (joined inner) ++ sp.hearAll (joined after)) := by
  rw [hear_joined_tag sp (.inl rfl), hear_joined_tag sp (.inr ⟨name, rfl⟩)]

theorem told_cons_literal (s : String) (ps : List Piece) :
    (runsOf (consLiteral s ps)).flatMap Run.chars =
      s.toList ++ (runsOf ps).flatMap Run.chars := by
  unfold consLiteral
  split
  · simp [runsOf, Piece.run?, String.toList_append]
  · split
    · rename_i hempty
      have hs : s = "" := by simpa using hempty
      simp [hs]
    · simp [runsOf, Piece.run?]

/-- Literal texts are told as before when they are put together. -/
theorem told_joined (ps : List Piece) :
    (runsOf (joined ps)).flatMap Run.chars = (runsOf ps).flatMap Run.chars := by
  induction ps with
  | nil => rfl
  | cons p ps ih =>
      have hcons : joined (p :: ps) = p.onto (joined ps) := rfl
      rw [hcons]
      cases p with
      | literal s =>
          rw [Piece.onto, told_cons_literal, ih]
          simp [runsOf, Piece.run?]
      | braces meaning =>
          cases meaning with
          | string s => simpa [Piece.onto, runsOf, Piece.run?] using ih
          | code source => exact ih
      | opening _ _ | single _ _ | closing _ => exact ih

end Joined

section Layout

mutual

/-- The character data of a node and its descendants, in document order. -/
def characters : Node → List Char
  | .element _ children => charactersOf children
  | .leaf kind s => (Node.leaf kind s).characterData.toList
termination_by structural n => n

def charactersOf : List Node → List Char
  | [] => []
  | n :: rest => characters n ++ charactersOf rest
termination_by structural ns => ns

end

/-- The texts of a node, each up to the next tag or to where an expression begins or ends. -/
def runs (n : Node) : List Run :=
  runsOf (joined (inline n))

mutual

theorem told_inline : (n : Node) → (runsOf (inline n)).flatMap Run.chars = characters n
  | .element tag children => by
      rw [inline, characters]
      split
      · rw [← told_inline_all children, ← List.singleton_append, runs_of_append, runs_of_append,
          List.flatMap_append, List.flatMap_append]
        exact List.append_nil _
      · rename_i hhidden
        rw [← told_inline_all children, inline_all_of_hidden hhidden]
        rfl
  | .leaf kind s => by
      rw [inline, characters]
      split
      · rename_i hdata
        have hchars : (Node.leaf kind s).characterData = s := by
          cases kind with
          | text | cdata => rfl
          | comment | declaration | instruction | doctype => cases hdata
        rw [hchars, textPiece]
        split <;> simp [runsOf, Piece.run?]
      · rename_i hdata
        rw [character_data_of_other hdata]
        rfl

theorem told_inline_all :
    (ns : List Node) → (runsOf (inlineAll ns)).flatMap Run.chars = charactersOf ns
  | [] => rfl
  | n :: rest => by
      rw [inlineAll, charactersOf, runs_of_append, List.flatMap_append, told_inline n,
        told_inline_all rest]

end

/-- The texts of a node make up its character data. -/
theorem told_runs (n : Node) : (runs n).flatMap Run.chars = characters n := by
  rw [runs, told_joined, told_inline]

/-- A line feed and a margin are heard as nothing. -/
theorem hear_gap (sp : Spacing) (indent depth : Nat) :
    sp.hearAll (joined [.literal "\n", margin indent depth]) = [] := by
  have hchars : ("\n" ++ Text.spaces (depth * indent)).toList =
      '\n' :: List.replicate (depth * indent) ' ' := by
    simp [Text.spaces, String.toList_append]
  have hsoft : ∀ c ∈ '\n' :: List.replicate (depth * indent) ' ', sp.soft c := by
    rw [List.forall_mem_cons]
    refine ⟨by rw [Spacing.soft, sp.breaks_feed, Bool.or_true], fun c hc => ?_⟩
    rw [List.eq_of_mem_replicate hc, Spacing.soft, sp.space_space, Bool.true_or]
  have hjoined : joined [.literal "\n", margin indent depth] =
      [.literal ("\n" ++ Text.spaces (depth * indent))] := by
    have hlast : joined [margin indent depth] = consLiteral (Text.spaces (depth * indent)) [] := rfl
    have hboth : joined [.literal "\n", margin indent depth] =
        consLiteral "\n" (joined [margin indent depth]) := rfl
    rw [hboth, hlast, ← cons_literal_append]
    simp [consLiteral]
  have hread := (sp.literal_blank fun c hc => sp.blank_of_soft (hsoft c hc)).2
  rw [Spacing.keeps_edge_soft hsoft, List.any_cons, sp.breaks_feed] at hread
  rw [hjoined]
  simpa [Spacing.hearAll, runsOf, Piece.run?, Spacing.hear, TextReader.hear, Spacing.reader, hchars]
    using hread

/-- An element on one line is heard between what is around it. -/
theorem hear_inline (sp : Spacing) (tag : Tag) (children : List Node) (before after : List Piece) :
    sp.hearAll (joined (before ++ (inline (.element tag children) ++ after))) =
      sp.hearAll (joined before) ++
        (sp.hearAll (joined (inlineAll children)) ++ sp.hearAll (joined after)) := by
  rw [inline]
  split
  · rw [← hear_joined_element sp tag.name (meanings tag) before (inlineAll children) after]
    simp
  · rename_i hhidden
    rw [inline_all_of_hidden hhidden, List.singleton_append, hear_joined_tag sp (.inl rfl)]
    rfl

mutual

/-- An element on lines of its own is heard as on one line. -/
theorem hear_laid (sp : Spacing) (indent depth : Nat) : (n : Node) → n.isElement = true →
    (before after : List Piece) →
    sp.hearAll (joined (before ++ (laid indent depth n ++ after))) =
      sp.hearAll (joined (before ++ (inline n ++ after)))
  | .element tag children, _, before, after => by
      rw [hear_inline, laid]
      split
      · rw [← hear_joined_element sp tag.name (meanings tag)]
        simp
      · split
        · rename_i hdata hshown
          rw [← hear_laid_all sp indent (depth + 1) children depth hdata,
            ← hear_joined_element sp tag.name (meanings tag)]
          simp
        · rename_i hhidden
          have hinline := hear_inline sp tag children before after
          rw [inline, if_neg hhidden] at hinline
          exact hinline

theorem hear_laid_all (sp : Spacing) (indent depth : Nat) : (ns : List Node) → (last : Nat) →
    ¬ ns.any isCharacterData = true →
    sp.hearAll (joined (.literal "\n" :: (laidAll indent depth ns ++ [margin indent last]))) =
      sp.hearAll (joined (inlineAll ns))
  | [], last, _ => hear_gap sp indent last
  | n :: rest, last, h => by
      rw [List.any_cons, Bool.or_eq_true, not_or] at h
      have hrest := hear_laid_all sp indent depth rest last h.2
      rw [laidAll, inlineAll]
      cases n with
      | element tag children =>
          have hsplit : Piece.literal "\n" :: (margin indent depth ::
              (laid indent depth (.element tag children) ++
                .literal "\n" :: laidAll indent depth rest) ++ [margin indent last]) =
              [.literal "\n", margin indent depth] ++ (laid indent depth (.element tag children) ++
                (.literal "\n" :: (laidAll indent depth rest ++ [margin indent last]))) := by simp
          have hbefore := hear_inline sp tag children [] (inlineAll rest)
          rw [List.nil_append] at hbefore
          rw [if_pos (by rfl), hsplit, hear_laid sp indent depth _ rfl, hear_inline,
            hear_gap, hrest, hbefore]
          rfl
      | leaf kind s =>
          rw [if_neg (by simp [Node.isElement]), inline, if_neg h.1]
          exact hrest

end

end Layout

/-- Markup that can be read is converted. Where every tag stands out, the JSX can be read, and words
of the root element that are apart stay apart exactly if something is read of the white space of
each gap between words of different texts. Of white space at an end of a literal text nothing is
read if it has a line break, and no character that is not dropped at one. -/
theorem spacing_kept_iff (sp : Spacing) {markup : String} {doc : Document}
    (h : Document.parse markup = .ok doc) (indent : Nat) :
    ∃ tag children jsx, doc.root? = some (tag, children) ∧ convert indent markup = .ok jsx ∧
      ((∀ t ∈ (Node.element tag children).tags, StandsOut t) → ∃ ps, read? jsx = some ps ∧
        (KeepsSpacing (characters (.element tag children)) (sp.hearAll ps) ↔
          ∀ gap ∈ gaps (runs (.element tag children)), sp.KeepsGap gap)) := by
  obtain ⟨tag, children, hroot, hconvert⟩ := convert_pieces h indent
  refine ⟨tag, children, _, hroot, hconvert, fun hout =>
    ⟨joined (laid indent 0 (.element tag children)), ?_, ?_⟩⟩
  · rw [read?, String.toList_ofList, pieces_spell_all (laid_clear indent 0 _ hout)]
  · have hlaid := hear_laid sp indent 0 (.element tag children) rfl [] []
    rw [List.nil_append, List.nil_append, List.append_nil, List.append_nil] at hlaid
    rw [hlaid, keeps_spacing_iff, ← told_runs, Spacing.hearAll]
    exact sp.reader.stay_apart_iff (runs (.element tag children))

/-- A line break between two words of one text, and one at the end of a text that is in braces. -/
theorem spacing_kept_label :
    let markup :=
      "<svg><text>One <tspan>two\nthree</tspan> \x7bfour\x7d\n<tspan>five</tspan></text></svg>"
    let root : Node := .element ⟨"svg", []⟩ [.element ⟨"text", []⟩ [.leaf .text "One ",
      .element ⟨"tspan", []⟩ [.leaf .text "two\nthree"], .leaf .text " \x7bfour\x7d\n",
      .element ⟨"tspan", []⟩ [.leaf .text "five"]]]
    Document.parse markup = .ok ⟨[root]⟩ ∧ ∃ jsx ps, convert 2 markup = .ok jsx ∧
      read? jsx = some ps ∧ KeepsSpacing (characters root) (Spacing.ascii.hearAll ps) := by
  intro markup root
  have hparse : Document.parse markup = .ok ⟨[root]⟩ := by decide +kernel
  obtain ⟨tag, children, jsx, hroot, hconvert, hread⟩ := spacing_kept_iff Spacing.ascii hparse 2
  cases hroot
  obtain ⟨ps, hps, hkept⟩ := hread (by decide +kernel)
  exact ⟨hparse, jsx, ps, hconvert, hps, hkept.mpr (by decide +kernel)⟩

/-- Text is not put in braces for a line break in it, so words are joined where a line ends in front
of a tag. -/
theorem spacing_lost_at_line_end :
    let markup := "<svg><text>Hello\n<tspan>World</tspan></text></svg>"
    let root : Node := .element ⟨"svg", []⟩ [.element ⟨"text", []⟩ [.leaf .text "Hello\n",
      .element ⟨"tspan", []⟩ [.leaf .text "World"]]]
    let jsx := "<svg>\n  <text>Hello\n<tspan>World</tspan></text>\n</svg>"
    Document.parse markup = .ok ⟨[root]⟩ ∧ convert 2 markup = .ok jsx ∧
      characters root = "Hello\nWorld".toList ∧
      (read? jsx).map Spacing.ascii.hearAll = some "HelloWorld".toList ∧
      ¬ KeepsSpacing "Hello\nWorld".toList "HelloWorld".toList := by
  intro markup root jsx
  refine ⟨by decide +kernel, by decide +kernel, by decide +kernel, by decide +kernel,
    fun hkept => ?_⟩
  obtain ⟨k, c, hk, hlast, hword⟩ := hkept.2 4 5 ⟨5, 'W', by decide, le_refl 5, by decide⟩
  obtain rfl : k = 5 := by omega
  have hjoined : (wordsFrom true "HelloWorld".toList)[5]? = some ('W', false) := by decide
  rw [hjoined] at hword
  cases hword

end SvgPress.Jsx
