import SvgPress.Proofs.Markup.Events
import SvgPress.Proofs.Markup.Nesting

/-!
How a text spells the events that are read from it. The events are spelled one after another, and
nothing of the text is left over, so each event of a reading has its place in the text. An attribute
stands in its tag with its value in quotation marks, before anything in it is decoded.
-/

namespace SvgPress

open Markup

/-- A text put together from parts that spell the items of a list, one after another. -/
def InTurn {α : Type} (spelled : α → List Char → Prop) : List α → List Char → Prop
  | [], cs => cs = []
  | a :: as, cs => ∃ part rest, cs = part ++ rest ∧ spelled a part ∧ InTurn spelled as rest

theorem in_turn_append_iff {α : Type} {spelled : α → List Char → Prop} {as bs : List α}
    {cs : List Char} : InTurn spelled (as ++ bs) cs ↔
      ∃ front back, cs = front ++ back ∧ InTurn spelled as front ∧ InTurn spelled bs back := by
  induction as generalizing cs with
  | nil =>
      constructor
      · exact fun h => ⟨[], cs, rfl, rfl, h⟩
      · rintro ⟨_, back, rfl, rfl, hback⟩
        exact hback
  | cons a as ih =>
      rw [List.cons_append, InTurn]
      constructor
      · rintro ⟨part, rest, rfl, hpart, hrest⟩
        obtain ⟨front, back, rfl, hfront, hback⟩ := ih.mp hrest
        exact ⟨part ++ front, back, (List.append_assoc ..).symm, ⟨part, front, rfl, hpart, hfront⟩,
          hback⟩
      · rintro ⟨_, back, rfl, ⟨part, front, rfl, hpart, hfront⟩, hback⟩
        exact ⟨part, front ++ back, List.append_assoc .., hpart,
          ih.mpr ⟨front, back, rfl, hfront, hback⟩⟩

/-- The place of one item. -/
theorem in_turn_split {α : Type} {spelled : α → List Char → Prop} {as bs : List α} {a : α}
    {cs : List Char} (h : InTurn spelled (as ++ a :: bs) cs) :
    ∃ front part back, cs = front ++ (part ++ back) ∧ InTurn spelled as front ∧ spelled a part ∧
      InTurn spelled bs back := by
  obtain ⟨front, _, rfl, hfront, part, back, rfl, hpart, hback⟩ := in_turn_append_iff.mp h
  exact ⟨front, part, back, rfl, hfront, hpart, hback⟩

/-- An attribute from the white space in front of it to its last quotation mark. `raw` is the value
as it stands there. -/
def Attribute.SpelledAs (a : Attribute) (raw cs : List Char) : Prop :=
  ∃ blanks gap quote, cs = blanks ++ (a.name.toList ++ (gap ++ quote :: (raw ++ [quote]))) ∧
    (∀ c ∈ blanks, isSpace c) ∧ (∀ c ∈ gap, c = '=' ∨ isSpace c) ∧
    (quote = '"' ∨ quote = '\'') ∧ quote ∉ raw ∧ a.value = Entity.decodeValue raw

def Attribute.Spelled (a : Attribute) (cs : List Char) : Prop :=
  ∃ raw, a.SpelledAs raw cs

/-- Attributes one after another, and white space behind them. -/
def Attributes.Spelled (attributes : Attributes) (cs : List Char) : Prop :=
  ∃ written blanks, cs = written ++ blanks ∧ (∀ c ∈ blanks, isSpace c) ∧
    InTurn Attribute.Spelled attributes written

/-- One attribute of a tag between the others, with its value as it stands there. -/
def Markup.SpelledValue (name : String) (as : Attributes) (a : Attribute) (raw : List Char)
    (bs : Attributes) (cs : List Char) : Prop :=
  ∃ front part back closing, cs = '<' :: (name.toList ++ (front ++ (part ++ (back ++ closing)))) ∧
    InTurn Attribute.Spelled as front ∧ a.SpelledAs raw part ∧ Attributes.Spelled bs back ∧
    (closing = ">".toList ∨ closing = "/>".toList)

theorem Markup.SpelledValue.decoded {name : String} {as bs : Attributes} {a : Attribute}
    {raw cs : List Char} (h : SpelledValue name as a raw bs cs) :
    a.value = Entity.decodeValue raw := by
  obtain ⟨-, -, -, -, -, -, ⟨-, -, -, -, -, -, -, -, hvalue⟩, -, -⟩ := h
  exact hvalue

/-- A tag with attributes, to the brackets. -/
def Markup.SpelledTag (name : String) (attributes : Except AttributeFault Attributes)
    (closing cs : List Char) : Prop :=
  ∃ inner, cs = '<' :: (name.toList ++ (inner ++ closing)) ∧
    ∀ as, attributes = .ok as → Attributes.Spelled as inner

/-- How an event stands in a text. -/
def Event.Spelled : Event → List Char → Prop
  | .start name attributes, cs => SpelledTag name attributes ">".toList cs
  | .empty name attributes, cs => SpelledTag name attributes "/>".toList cs
  | .close name, cs =>
    ∃ gap, cs = "</".toList ++ (name.toList ++ (gap ++ ['>'])) ∧ ∀ c ∈ gap, isSpace c
  | .reference name, cs => cs = '&' :: (name.toList ++ [';'])
  | .leaf .doctype s, cs =>
    ∃ keyword gap, cs = '<' :: (keyword ++ (gap ++ (s.toList ++ ['>']))) ∧
      keyword.map Char.toUpper = "!DOCTYPE".toList ∧ ∀ c ∈ gap, isSpace c
  | .leaf kind s, cs => cs = kind.opening.toList ++ (s.toList ++ kind.closing.toList)

section Tags

theorem attributes_spelled {position : Nat} {seen : List (List Char × Nat)} {cs : List Char}
    {attributes : Attributes} (h : attributesFrom position seen cs = .ok attributes) :
    attributes.Spelled cs := by
  induction attributes generalizing position seen cs with
  | nil =>
      rcases attributes_from_ok h with ⟨-, hblank⟩ |
        ⟨blanks, first, more, gap, value, quote, rest, next, start, others, -, -, -, -, -, -, -, -,
          hcons, -⟩
      · exact ⟨[], cs, rfl, hblank, rfl⟩
      · cases hcons
  | cons a as ih =>
      rcases attributes_from_ok h with ⟨hnil, -⟩ |
        ⟨blanks, first, more, gap, value, quote, rest, next, start, others, rfl,
          hblanks, -, -, hgap, hquote, hvalue, -, hcons, hothers⟩
      · cases hnil
      · obtain ⟨rfl, rfl⟩ := List.cons_eq_cons.mp hcons
        obtain ⟨written, tail, rfl, htail, hwritten⟩ := ih hothers
        refine ⟨blanks ++ (first :: more ++ (gap ++ quote :: (value ++ [quote]))) ++ written, tail,
          by simp, htail, _, written, rfl, ⟨value, blanks, gap, quote, ?_, hblanks, hgap, hquote,
            hvalue, rfl⟩, hwritten⟩
        rw [String.toList_ofList]

theorem value_of_tag {name : String} {as bs : Attributes} {a : Attribute} {closing cs : List Char}
    (hclosing : closing = ">".toList ∨ closing = "/>".toList)
    (h : SpelledTag name (.ok (as ++ a :: bs)) closing cs) :
    ∃ raw, SpelledValue name as a raw bs cs := by
  obtain ⟨inner, rfl, hinner⟩ := h
  obtain ⟨written, blanks, rfl, hblanks, hwritten⟩ := hinner _ rfl
  obtain ⟨front, part, back, rfl, hfront, ⟨raw, hraw⟩, hback⟩ := in_turn_split hwritten
  exact ⟨raw, front, part, back ++ blanks, closing, by simp only [List.append_assoc], hfront, hraw,
    ⟨back, blanks, rfl, hblanks, hback⟩, hclosing⟩

theorem tag_spelled (body closing : List Char) :
    SpelledTag (String.ofList (tagName body)) (tagAttributes body) closing
      ('<' :: (body ++ closing)) := by
  refine ⟨body.dropWhile (!isSpace ·), ?_, fun as has => attributes_spelled has⟩
  rw [String.toList_ofList, ← List.append_assoc, tagName, List.takeWhile_append_dropWhile]

end Tags

section Markup

/-- What a step takes of the text behind a `<` spells its event. -/
def Markup.Step.IsSpelled {cs : List Char} (step : Step cs) : Prop :=
  ∃ part, cs = part ++ step.rest ∧ step.event.Spelled ('<' :: part)

variable {opened : List String} {cs rest : List Char} {step : Step cs}

theorem comment_mark (h : comment opened cs = .ok step) : cs.take 3 = "!--".toList := by
  unfold comment at h
  split at h
  · cases h
  · split at h
    · rename_i hmark
      exact hmark
    · cases h

theorem cdata_spelled (h : cdata opened cs = .ok step) : step.IsSpelled := by
  obtain ⟨content, hcut, hevent, -⟩ := cdata_ok h
  refine ⟨"![CDATA[".toList ++ content ++ "]]>".toList, cutAt?_eq hcut, ?_⟩
  rw [hevent, Event.Spelled, String.toList_ofList (l := content), List.append_assoc]
  · rfl
  · simp

theorem comment_spelled (h : comment opened cs = .ok step) : step.IsSpelled := by
  have hmark := comment_mark h
  obtain ⟨content, hcut, hevent, -⟩ := comment_ok h
  refine ⟨"!--".toList ++ (content ++ "-->".toList), ?_, ?_⟩
  · rw [List.append_assoc, ← cutAt?_eq hcut, ← hmark, List.take_append_drop]
  · rw [hevent, Event.Spelled, String.toList_ofList (l := content)]
    · rfl
    · simp

theorem doctype_spelled (h : doctype opened cs = .ok step) : step.IsSpelled := by
  obtain ⟨content, hcut, hkeyword, hevent, -⟩ := doctype_ok h
  refine ⟨content ++ ['>'], (doctypeContent?_eq hcut).trans (by simp), ?_⟩
  rw [hevent]
  refine ⟨content.take 8, (content.drop 8).takeWhile isSpace, ?_, hkeyword,
    List.all_eq_true.mp List.all_takeWhile⟩
  rw [String.toList_ofList, ← List.append_assoc (List.takeWhile ..),
    List.takeWhile_append_dropWhile, ← List.append_assoc, List.take_append_drop]

theorem instruction_spelled {step : Step ('?' :: rest)}
    (h : instruction opened ('?' :: rest) = .ok step) : step.IsSpelled := by
  obtain ⟨mark, content, hcut, hevent, -⟩ := instruction_ok h
  have hcs := cutAt?_eq hcut
  obtain ⟨rfl, -⟩ := List.cons_eq_cons.mp hcs
  refine ⟨'?' :: content ++ "?>".toList, hcs, ?_⟩
  rw [hevent]
  split
  · rw [Event.Spelled, String.toList_ofList (l := content)]
    · rfl
    · simp
  · rw [Event.Spelled, String.toList_ofList (l := content)]
    · rfl
    · simp

/-- The name that an end tag closes, and the white space behind it. -/
theorem exists_gap_of_closing_name (body : List Char) :
    ∃ gap, body = closingName body ++ gap ∧ ∀ c ∈ gap, isSpace c := by
  unfold closingName
  split
  · exact ⟨[], (List.append_nil _).symm, List.forall_mem_nil _⟩
  · obtain ⟨gap, hsplit, hgap, -⟩ := Text.drop_back_split (p := isSpace) body
    exact ⟨gap, hsplit, hgap⟩

theorem end_tag_spelled {step : Step ('/' :: rest)}
    (h : endTag opened ('/' :: rest) = .ok step) : step.IsSpelled := by
  obtain ⟨content, hcut, hevent, -⟩ := end_tag_ok h
  have hcs := tagContent?_eq hcut
  refine ⟨content ++ ['>'], hcs.trans (by simp), ?_⟩
  cases content with
  | nil => cases hcs
  | cons slash body =>
      obtain ⟨rfl, -⟩ := List.cons_eq_cons.mp hcs
      obtain ⟨gap, hbody, hgap⟩ := exists_gap_of_closing_name body
      rw [hevent]
      refine ⟨gap, ?_, hgap⟩
      rw [List.drop_one, List.tail_cons, String.toList_ofList (l := closingName body),
        ← List.append_assoc (closingName body), ← hbody]
      rfl

theorem start_tag_spelled (h : startTag opened cs = .ok step) : step.IsSpelled := by
  obtain ⟨content, hcut, ⟨hlast, hevent, -⟩ | ⟨hlast, hevent, -⟩⟩ := start_tag_ok h
  · have hcs := tagContent?_eq hcut
    obtain ⟨front, rfl⟩ := List.getLast?_eq_some_iff.mp hlast
    have hbody : tagBody (front ++ ['/']) = front := by simp [tagBody]
    refine ⟨front ++ "/>".toList, hcs.trans (by simp), ?_⟩
    rw [hevent, hbody]
    exact tag_spelled front _
  · have hcs := tagContent?_eq hcut
    have hbody : tagBody content = content := if_neg hlast
    refine ⟨content ++ ">".toList, hcs.trans (by simp), ?_⟩
    rw [hevent, hbody]
    exact tag_spelled content _

theorem markup_spelled (h : markup opened cs = .ok step) : step.IsSpelled := by
  obtain ⟨rest, rfl, h⟩ | ⟨rest, rfl, h⟩ | ⟨c, rest, rfl, h⟩ | ⟨rest, rfl, h⟩ | ⟨rest, rfl, h⟩ |
    ⟨c, rest, rfl, hc, h⟩ := markup_ok h
  · exact cdata_spelled h
  · exact comment_spelled h
  · exact doctype_spelled h
  · exact instruction_spelled h
  · exact end_tag_spelled h
  · exact start_tag_spelled h

end Markup

/-- A text that is read to its end spells the events of the reading. -/
theorem read_from_spelled (p : Nat) (opened : List String) (cs : List Char)
    (h : (readFrom p opened cs).fault = none) :
    InTurn Event.Spelled (readFrom p opened cs).events cs := by
  induction p, opened, cs using readFrom.induct with
  | case1 p opened => simp [readFrom, Reading.done, InTurn]
  | case2 p opened rest distance fault hmarkup =>
      rw [readFrom] at h
      simp [hmarkup, Reading.stopped] at h
  | case3 p opened rest step hmarkup ih =>
      rw [readFrom] at h ⊢
      simp only [hmarkup, if_true] at h ⊢
      obtain ⟨part, hrest, hspelled⟩ := markup_spelled hmarkup
      refine ⟨'<' :: part, step.rest, ?_, hspelled, ih h⟩
      rw [List.cons_append, ← hrest]
  | case4 p opened rest hname hne =>
      rw [readFrom, if_neg hne, if_pos rfl] at h
      split at h
      · cases h
      · simp_all
  | case5 p opened rest name after hname hne ih =>
      rw [readFrom, if_neg hne, if_pos rfl] at h ⊢
      split at h
      · simp_all
      · rename_i name' after' hname'
        obtain ⟨rfl, rfl⟩ : name = name' ∧ after = after' := by simpa [hname] using hname'
        refine ⟨'&' :: (name ++ [';']), after, ?_, ?_, ih h⟩
        · rw [Entity.takeName?_eq hname]
          simp
        · rw [Event.Spelled, String.toList_ofList]
  | case6 p opened c rest hlt hamp text ih =>
      rw [readFrom, if_neg hlt, if_neg hamp] at h ⊢
      refine ⟨text, rest.dropWhile fun d => d != '<' && d != '&', ?_, ?_, ih h⟩
      · rw [List.cons_append, List.takeWhile_append_dropWhile]
      · rw [Event.Spelled, String.toList_ofList]
        · simp [LeafKind.opening, LeafKind.closing, text]
        · simp

/-- The part of a text that stands between those that spell the events before it and after it. -/
def Markup.Stands (source : String) (before : List Event) (part : List Char) (after : List Event) :
    Prop :=
  ∃ mark front back, source.toList = mark ++ (front ++ (part ++ back)) ∧
    (mark = [] ∨ mark = ['\uFEFF']) ∧ InTurn Event.Spelled before front ∧
    InTurn Event.Spelled after back

/-- A document spells the events it is read from, behind the byte order mark if there is one. -/
theorem Document.spelled_of_parse {source : String} {doc : Document} (h : parse source = .ok doc) :
    ∃ mark cs, source.toList = mark ++ cs ∧ (mark = [] ∨ mark = ['\uFEFF']) ∧
      InTurn Event.Spelled (Markup.read source).events cs := by
  have hfault : (Markup.read source).fault = none := (of_reading_ok_iff.mp h).1
  unfold Markup.read at hfault ⊢
  split
  · rename_i cs hcs
    exact ⟨['\uFEFF'], cs, hcs, .inr rfl, read_from_spelled 0 [] cs (by simpa [hcs] using hfault)⟩
  · rename_i hne
    refine ⟨[], source.toList, rfl, .inl rfl, read_from_spelled 0 [] _ ?_⟩
    split at hfault
    · rename_i cs hcs
      exact absurd hcs (hne cs)
    · exact hfault

/-- Each event that is read has its place in the text. -/
theorem Document.stands_of_parse {source : String} {doc : Document} (h : parse source = .ok doc)
    {before after : List Event} {e : Event}
    (hevents : (Markup.read source).events = before ++ e :: after) :
    ∃ part, Markup.Stands source before part after ∧ e.Spelled part := by
  obtain ⟨mark, cs, hsource, hmark, hspelled⟩ := spelled_of_parse h
  rw [hevents] at hspelled
  obtain ⟨front, part, back, rfl, hfront, hpart, hback⟩ := in_turn_split hspelled
  exact ⟨part, ⟨mark, front, back, hsource, hmark, hfront, hback⟩, hpart⟩

end SvgPress
