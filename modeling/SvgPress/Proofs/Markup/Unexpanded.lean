import SvgPress.Proofs.Markup.Firmness
import SvgPress.Proofs.Markup.Spelling
import SvgPress.Proofs.Markup.Surroundings

/-!
References that are not expanded. A reference in character data whose name means nothing stays as it
was written, and so does an attribute value with such a reference in it; what stays is from then on
text like any other. When the document is written its ampersands are escaped with all others, so a
reference comes out as text that looks like one, and no declaration of it counts any more. Where it
comes out is told by what is written there for any other text.
-/

namespace SvgPress

open Entity (decode? decodeAll? decodeReference decodeValue escapeText escapeValue escapeTextChar)
open Text (isBlank)

/-! ### Events in place of another -/

/-- Whether two events open and close the same elements. -/
structure Event.Matches (e other : Event) : Prop where
  fits : ∀ opened, e.fits opened ↔ other.fits opened
  names : ∀ opened, e.namesAfter opened = other.namesAfter opened
  opens : e.opensElement = other.opensElement

theorem open_after_replace {e other : Event} (h : e.Matches other) (before after : List Event)
    (opened : List String) :
    openAfter opened (before ++ e :: after) = openAfter opened (before ++ other :: after) := by
  induction before generalizing opened with
  | nil =>
      rw [List.nil_append, List.nil_append, openAfter, openAfter, h.names]
      simp only [h.fits]
  | cons first before ih =>
      rw [List.cons_append, List.cons_append, openAfter, openAfter, ih]

theorem open_after_append (before after : List Event) (opened : List String) :
    openAfter opened (before ++ after) = (openAfter opened before).bind (openAfter · after) := by
  induction before generalizing opened with
  | nil => rfl
  | cons first before ih =>
      rw [List.cons_append, openAfter, openAfter, ih]
      split <;> rfl

/-- The number of elements that marks leave open is told by the names that events leave open. -/
theorem depth_of_open_after {events : List Event} {opened left : List String}
    (h : openAfter opened events = some left) :
    (events.flatMap Event.marks).foldl Mark.depthAfter opened.length = left.length := by
  induction events generalizing opened with
  | nil =>
      obtain rfl : opened = left := by simpa [openAfter] using h
      rfl
  | cons e events ih =>
      rw [openAfter] at h
      split at h
      · rename_i hfits
        have hmarks : e.marks.foldl Mark.depthAfter opened.length =
            (e.namesAfter opened).length := by
          cases e with
          | start name attributes => rfl
          | empty name attributes => simp [Event.marks, Mark.depthAfter, Event.namesAfter]
          | close name => simp [Event.marks, Mark.depthAfter, Event.namesAfter]
          | reference name => rfl
          | leaf kind s => cases kind <;> rfl
        rw [List.flatMap_cons, List.foldl_append, hmarks, ih h]
      · cases h

/-- An event that shows a text. -/
theorem Event.matches_of_text {e other : Event} {s t : String} (he : e.marks = [.leaf .text s])
    (hother : other.marks = [.leaf .text t]) : e.Matches other ∧ other.isReadable := by
  cases e with
  | start | empty | close => simp [marks] at he
  | reference | leaf =>
      cases other with
      | start | empty | close => simp [marks] at hother
      | reference | leaf => exact ⟨⟨fun _ => Iff.rfl, fun _ => rfl, rfl⟩, rfl⟩

/-- A tag with other attributes. -/
theorem Event.matches_of_tag {make : String → Except AttributeFault Attributes → Event}
    (hmake : make = .start ∨ make = .empty) (name : String) (as bs : Attributes) :
    (make name (.ok as)).Matches (make name (.ok bs)) ∧ (make name (.ok bs)).isReadable := by
  rcases hmake with rfl | rfl <;> exact ⟨⟨fun _ => Iff.rfl, fun _ => rfl, rfl⟩, rfl⟩

namespace Document

/-- An event that opens and closes the same can stand in place of another. -/
theorem of_reading_replace {before after : List Event} {e other : Event} {doc : Document}
    (h : ofReading ⟨before ++ e :: after, none⟩ = .ok doc) (hmatches : e.Matches other)
    (hother : other.isReadable) :
    ∃ next, ofReading ⟨before ++ other :: after, none⟩ = .ok next := by
  obtain ⟨-, hreadable, hnested, htop⟩ := (of_reading_ok_iff_nested _).mp ⟨doc, h⟩
  have hopen := open_after_eq_nil_iff.mpr hnested
  rw [open_after_replace hmatches] at hopen
  have hnext : WellNested (before ++ other :: after) := open_after_eq_nil_iff.mp hopen
  rw [hnested.has_top_iff, List.any_append, List.any_cons, hmatches.opens, ← List.any_cons,
    ← List.any_append] at htop
  refine (of_reading_ok_iff_nested _).mpr ⟨rfl, fun event hevent => ?_, hnext,
    hnext.has_top_iff.mpr htop⟩
  rcases List.mem_append.mp hevent with hbefore | hafter
  · exact hreadable event (List.mem_append_left _ hbefore)
  · rcases List.mem_cons.mp hafter with rfl | hafter
    · exact hother
    · exact hreadable event (List.mem_append_right _ (List.mem_cons_of_mem _ hafter))

end Document

/-! ### Marks in place of another -/

/-- A text among marks is joined to what stands beside it, whatever text it is. -/
theorem join_marks_around_text (ps qs : List Mark) :
    ∃ front u v back, ∀ t, joinMarks (ps ++ .leaf .text t :: qs) =
      front ++ .leaf .text (u ++ (t ++ v)) :: back := by
  obtain ⟨v, back, hback⟩ : ∃ v back, ∀ t, joinMarks (.leaf .text t :: qs) =
      .leaf .text (t ++ v) :: back := by
    cases hqs : joinMarks qs with
    | nil => exact ⟨"", [], fun t => by rw [joinMarks, hqs, Mark.onto_nil, String.append_empty]⟩
    | cons q behind =>
        by_cases hq : q.isText
        · obtain ⟨v, rfl⟩ := Mark.is_text_iff.mp hq
          exact ⟨v, behind, fun t => by rw [joinMarks, hqs]; rfl⟩
        · refine ⟨"", q :: behind, fun t => ?_⟩
          rw [joinMarks, hqs, Mark.onto_cons fun both => hq both.2, String.append_empty]
  induction ps with
  | nil => exact ⟨[], "", v, back, fun t => by rw [String.empty_append]; exact hback t⟩
  | cons p ps ih =>
      obtain ⟨front, u, v, back, hall⟩ := ih
      cases front with
      | cons first more =>
          refine ⟨p.onto (first :: more), u, v, back, fun t => ?_⟩
          rw [List.cons_append, joinMarks, hall, p.onto_append (List.cons_ne_nil _ _)]
      | nil =>
          by_cases hp : p.isText
          · obtain ⟨s, rfl⟩ := Mark.is_text_iff.mp hp
            refine ⟨[], s ++ u, v, back, fun t => ?_⟩
            rw [List.cons_append, joinMarks, hall, String.append_assoc]
            rfl
          · refine ⟨[p], u, v, back, fun t => ?_⟩
            rw [List.cons_append, joinMarks, hall, Mark.onto_other hp]
            rfl

/-- A mark that is no text is not joined to anything. -/
theorem join_marks_around_other (ps qs : List Mark) {p : Mark} (hp : ¬ p.isText) :
    joinMarks (ps ++ p :: qs) = joinMarks ps ++ p :: joinMarks qs := by
  induction ps with
  | nil => exact Mark.onto_other hp _
  | cons q ps ih =>
      rw [List.cons_append, joinMarks, ih, joinMarks]
      cases hps : joinMarks ps with
      | nil => rw [List.nil_append, Mark.onto_nil, Mark.onto_cons fun both => hp both.2]; rfl
      | cons first more => rw [q.onto_append (List.cons_ne_nil _ _)]

namespace Document

open Node (marksOf settledAll)

/-- The events before any place in a document fit each other, and leave some elements open there. -/
theorem open_before {before after : List Event} {doc : Document}
    (h : ofReading ⟨before ++ after, none⟩ = .ok doc) :
    ∃ opened, openAfter [] before = some opened := by
  obtain ⟨-, -, hnested, -⟩ := (of_reading_ok_iff_nested _).mp ⟨doc, h⟩
  have hall := open_after_eq_nil_iff.mpr hnested
  rw [open_after_append] at hall
  obtain ⟨opened, hopen, -⟩ := Option.bind_eq_some_iff.mp hall
  exact ⟨opened, hopen⟩

/-- What events with one among them make: the marks of that one stand between those of the
others. -/
theorem nodes_around {before after : List Event} {e : Event} {opened : List String} {doc : Document}
    (hopen : openAfter [] before = some opened)
    (h : ofReading ⟨before ++ e :: after, none⟩ = .ok doc) :
    ∃ raw, doc.nodes = settledAll false raw ∧
      marksOf raw = joinMarks (withinElements 0 (before.flatMap Event.marks) ++
        (withinElements opened.length e.marks ++
          withinElements (e.marks.foldl Mark.depthAfter opened.length)
            (after.flatMap Event.marks))) := by
  obtain ⟨raw, hraw, hnodes⟩ := marks_of_reading h
  have hdepth := depth_of_open_after hopen
  rw [List.length_nil] at hdepth
  refine ⟨raw, hnodes, ?_⟩
  rw [hraw, List.flatMap_append, List.flatMap_cons, within_elements_append, within_elements_append,
    hdepth]

/-- A text outside of all elements means nothing. -/
theorem text_outside {before after : List Event} {e : Event} {s : String} {doc : Document}
    (he : e.marks = [.leaf .text s]) (hopen : openAfter [] before = some [])
    (h : ofReading ⟨before ++ e :: after, none⟩ = .ok doc) :
    ofReading ⟨before ++ after, none⟩ = .ok doc := by
  have hsingle : e.isSingle ∧ e.opensElement = false := by
    cases e with
    | start | empty | close => simp [Event.marks] at he
    | reference | leaf => exact ⟨rfl, rfl⟩
  obtain ⟨-, hreadable, hnested, htop⟩ := (of_reading_ok_iff_nested _).mp ⟨doc, h⟩
  have hrest : WellNested (before ++ after) := by
    obtain ⟨hfits, hnames⟩ := Event.names_after_single hsingle.1 []
    have hall := open_after_eq_nil_iff.mpr hnested
    rw [open_after_append, hopen, Option.bind_some, openAfter, if_pos hfits, hnames] at hall
    rw [← open_after_eq_nil_iff, open_after_append, hopen, Option.bind_some, hall]
  rw [hnested.has_top_iff, List.any_append, List.any_cons, hsingle.2, Bool.false_or,
    ← List.any_append] at htop
  have hevents : ∀ event ∈ before ++ after, event.isReadable := by
    intro event hevent
    refine hreadable event ?_
    rcases List.mem_append.mp hevent with hbefore | hafter
    · exact List.mem_append_left _ hbefore
    · exact List.mem_append_right _ (List.mem_cons_of_mem _ hafter)
  obtain ⟨next, hnext⟩ := (of_reading_ok_iff_nested ⟨before ++ after, none⟩).mpr
    ⟨rfl, hevents, hrest, hrest.has_top_iff.mpr htop⟩
  obtain ⟨raw, hnodes, hraw⟩ := nodes_around hopen h
  obtain ⟨raw', hraw', hnodes'⟩ := marks_of_reading hnext
  have hdepth := depth_of_open_after hopen
  have hnothing : withinElements ([] : List String).length [Mark.leaf .text s] = [] := rfl
  have hsame : marksOf raw = marksOf raw' := by
    rw [hraw, hraw', List.flatMap_append, within_elements_append, he, hnothing]
    rw [List.length_nil] at hdepth
    rw [hdepth]
    rfl
  obtain rfl := Node.eq_of_marks_of raw raw' hsame
  obtain ⟨nodes⟩ := doc
  obtain ⟨nodes'⟩ := next
  rw [hnext]
  exact congrArg (Except.ok ∘ Document.mk) (hnodes'.trans hnodes.symm)

/-! ### What is written in place of another text -/

theorem shows_text_of_part {u t v : String} (hne : t ≠ "") (htrim : Text.trim t = t) :
    (Node.leaf .text (u ++ (t ++ v))).showsText = true := by
  have hpart : ¬ ∀ c ∈ t.toList, isBlank c := by
    rw [← Text.trim_chars_eq_nil_iff, ← Text.to_list_trim, htrim]
    exact fun hnil => hne (String.toList_injective hnil)
  simp only [Node.showsText, Text.isBlankText, String.toList_append, List.all_append,
    Bool.not_eq_true', Bool.and_eq_false_iff]
  exact .inr (.inl (Bool.eq_false_iff.mpr fun hall => hpart (List.all_eq_true.mp hall)))

/-- An escaped text that does not end in white space does not end in white space. -/
theorem escape_text_concat {t : String} (hne : t ≠ "") (htrim : Text.trim t = t) :
    ∃ cs c, (escapeText t).toList = cs ++ [c] ∧ isBlank c = false := by
  rcases List.eq_nil_or_concat t.toList with hnil | ⟨ds, d, hconcat⟩
  · exact absurd (String.toList_injective hnil) hne
  · rw [List.concat_eq_append] at hconcat
    have htrimmed : Text.IsTrimmed t.toList := by
      rw [← Text.trim_chars_eq_self_iff, ← Text.to_list_trim, htrim]
    have hd : isBlank d = false := htrimmed.2 d (by rw [hconcat]; simp)
    rw [Entity.to_list_escape_text, hconcat, List.flatMap_append]
    rcases Entity.stands_escape_text_char d with ⟨hself, -⟩ | ⟨name, -, hnamed, -⟩
    · exact ⟨_, d, by rw [List.flatMap_cons, hself]; rfl, hd⟩
    · refine ⟨ds.flatMap escapeTextChar ++ '&' :: name.toList, ';', ?_, by decide⟩
      rw [List.flatMap_cons, hnamed, List.flatMap_nil, List.append_nil, List.append_assoc]

theorem write_text (s : String) (layout : Layout) (depth : Nat) :
    (Node.leaf .text s).write layout depth =
      layout.pad depth ++ (escapeText s ++ layout.newline) := by
  rw [Node.write_eq, Node.body, writeLeaf, if_pos rfl, LeafKind.opening, LeafKind.closing,
    String.empty_append, String.append_empty, String.append_assoc]

/-- Where a text among events is written: between two parts that are the same for every text that is
not to be trimmed. -/
def WritesText (layout : Layout) (before after : List Event) (front back : String) : Prop :=
  ∀ e text, e.marks = [.leaf .text text] → text ≠ "" → Text.trim text = text →
    ∃ doc, ofReading ⟨before ++ e :: after, none⟩ = .ok doc ∧
      doc.write layout = front ++ (escapeText text ++ back)

/-- The tree with a text in an element, before its white space is settled. -/
theorem nodes_around_text {before : List Event} (after : List Event) {inner : String}
    {outer : List String} (hopen : openAfter [] before = some (inner :: outer)) :
    ∃ front u v back, ∀ {e : Event} {t : String} {doc : Document}, e.marks = [.leaf .text t] →
      ofReading ⟨before ++ e :: after, none⟩ = .ok doc →
        ∃ raw, doc.nodes = settledAll false raw ∧
          marksOf raw = front ++ .leaf .text (u ++ (t ++ v)) :: back := by
  obtain ⟨front, u, v, back, hjoin⟩ :=
    join_marks_around_text (withinElements 0 (before.flatMap Event.marks))
      (withinElements (inner :: outer).length (after.flatMap Event.marks))
  refine ⟨front, u, v, back, fun {e t doc} he hdoc => ?_⟩
  obtain ⟨raw, hnodes, hmarks⟩ := nodes_around hopen hdoc
  refine ⟨raw, hnodes, ?_⟩
  have hinside : withinElements (inner :: outer).length [Mark.leaf .text t] = [.leaf .text t] := by
    rw [withinElements, if_neg fun houtside => by cases houtside.1]
    rfl
  rw [hmarks, he, hinside, ← hjoin]
  rfl

/-- What is left of a text, trimmed or not: the part of it that is not to be trimmed, between what
is left of the texts beside it. -/
theorem text_left_around (u v : String) (trims outside : Bool) :
    ∃ lead trail, ∀ t, t ≠ "" → Text.trim t = t →
      (if trims then ((Node.leaf .text (u ++ (t ++ v))).settled outside).trimmed
        else (Node.leaf .text (u ++ (t ++ v))).settled outside) =
      .leaf .text (lead ++ (t ++ trail)) := by
  cases trims with
  | true =>
      obtain ⟨lead, trail, htrimmed⟩ := Text.trim_around u v
      exact ⟨lead, trail, fun t hne htrim => congrArg (Node.leaf .text) (htrimmed t hne htrim)⟩
  | false => exact ⟨u, v, fun t _ _ => rfl⟩

/-- In an element, what is written around a text is the same for all texts that are not to be
trimmed. -/
theorem text_written {before after : List Event} {e : Event} {s inner : String}
    {outer : List String} {doc : Document} (he : e.marks = [.leaf .text s]) (hne : s ≠ "")
    (htrim : Text.trim s = s) (hopen : openAfter [] before = some (inner :: outer))
    (h : ofReading ⟨before ++ e :: after, none⟩ = .ok doc) (layout : Layout) :
    ∃ front back, WritesText layout before after front back := by
  obtain ⟨front, u, v, back, hraw⟩ := nodes_around_text after hopen
  obtain ⟨raw, -, hmarks⟩ := hraw he h
  obtain ⟨place, -, rfl, rfl⟩ := Node.exists_around_text hmarks
  obtain ⟨written, behind, inside, level, trims, outside, hwrite⟩ :=
    write_around place layout (n := .leaf .text (u ++ (s ++ v)))
      fun _ => shows_text_of_part hne htrim
  obtain ⟨lead, trail, hkept⟩ := text_left_around u v trims outside
  refine ⟨written ++ (inside.pad level ++ escapeText lead),
    Text.trimEnd (escapeText trail ++ (inside.newline ++ behind)), ?_⟩
  intro other t hother hne' htrim'
  obtain ⟨hmatches, hreadable⟩ := Event.matches_of_text he hother
  obtain ⟨next, hnext⟩ := of_reading_replace h hmatches hreadable
  refine ⟨next, hnext, ?_⟩
  obtain ⟨raw, hnodes, hmarks'⟩ := hraw hother hnext
  have hplace := place.marks_of_around (.leaf .text (u ++ (t ++ v)))
  obtain rfl : raw = place.around (.leaf .text (u ++ (t ++ v))) :=
    Node.eq_of_marks_of _ _ (hmarks'.trans hplace.symm)
  have hresembles : (Node.leaf .text (u ++ (t ++ v))).Resembles (.leaf .text (u ++ (s ++ v))) :=
    ⟨rfl, rfl, (shows_text_of_part hne' htrim').trans (shows_text_of_part hne htrim).symm⟩
  obtain ⟨nodes⟩ := next
  cases hnodes
  obtain ⟨cs, c, hlast, hc⟩ := escape_text_concat hne' htrim'
  have hfront : (written ++ (inside.pad level ++ escapeText lead) ++ escapeText t).toList =
      (written ++ (inside.pad level ++ escapeText lead)).toList ++ cs ++ [c] := by
    rw [String.toList_append, hlast, List.append_assoc]
  have hend := Text.trim_end_append hfront hc (escapeText trail ++ (inside.newline ++ behind))
  rw [hwrite _ hresembles, hkept t hne' htrim', write_text, Entity.escape_text_append,
    Entity.escape_text_append]
  simp only [String.append_assoc] at hend ⊢
  exact hend

end Document

/-! ### What is written in place of another attribute value -/

section Values

variable {name key v w : String} {as bs : Attributes}

/-- A value counts for white space only if it is the one that asks for it to be kept. -/
theorem Tag.preserves_space_value (hv : key = "xml:space" → v ≠ "preserve")
    (hw : key = "xml:space" → w ≠ "preserve") :
    (Tag.mk name (as ++ ⟨key, v⟩ :: bs)).preservesSpace =
      (Tag.mk name (as ++ ⟨key, w⟩ :: bs)).preservesSpace := by
  rw [preservesSpace, preservesSpace, attribute?, attribute?, Attributes.get?, Attributes.get?,
    List.find?_append, List.find?_append, List.find?_cons, List.find?_cons]
  cases hfound : List.find? (fun a : Attribute => a.name == "xml:space") as with
  | some a => rfl
  | none =>
      by_cases hkey : key = "xml:space"
      · have hvalue := hv hkey
        have hother := hw hkey
        subst hkey
        simp [hvalue, hother]
      · have hne : (key == "xml:space") = false := by simpa using hkey
        simp only [hne]

theorem Tag.write_opening_value (name key : String) (as bs : Attributes) :
    ∃ front back, ∀ v, (Tag.mk name (as ++ ⟨key, v⟩ :: bs)).writeOpening =
      front ++ (escapeValue v ++ ("\"" ++ back)) := by
  refine ⟨"<" ++ name ++ String.join (as.map Attribute.write) ++ (" " ++ key ++ "=\""),
    String.join (bs.map Attribute.write), fun v => ?_⟩
  rw [writeOpening, List.map_append, List.map_cons, String.join_append, String.join_cons,
    Attribute.write]
  simp only [String.append_assoc]

/-- Of a tag, the name and whether it keeps white space decide how the children are settled. -/
theorem Node.settled_congr {t u : Tag} (hname : t.name = u.name)
    (hspace : t.preservesSpace = u.preservesSpace) (children : List Node) (kept : Bool) :
    (element t children).settled kept =
      element t (settle u kept (settledAll (u.preservesSpace || kept) children)) := by
  rw [settled, settle, settle, keepsOwnSpace, keepsOwnSpace, hname, hspace]

theorem Node.write_element (name : String) (children : List Node) (layout : Layout) (depth : Nat) :
    ∃ front back, ∀ attributes, (element ⟨name, attributes⟩ children).write layout depth =
      front ++ ((Tag.mk name attributes).writeOpening ++ back) := by
  let inner := layout.inside children
  refine ⟨layout.pad depth, (if children.isEmpty then "/>" else ">" ++ inner.newline ++
    writeAll inner (depth + 1) children ++ inner.pad depth ++ ("</" ++ name ++ ">")) ++
      layout.newline, fun attributes => ?_⟩
  rw [write_eq, body, String.append_assoc, String.append_assoc]
  rfl

end Values

namespace Document

open Node (marksOf settledAll)

theorem nodes_around_tag {before : List Event} (after : List Event)
    {make : String → Except AttributeFault Attributes → Event}
    (hmake : make = .start ∨ make = .empty) (name : String) {opened : List String}
    (hopen : openAfter [] before = some opened) :
    ∃ front back, ∀ {attributes : Attributes} {doc : Document},
      ofReading ⟨before ++ make name (.ok attributes) :: after, none⟩ = .ok doc →
        ∃ raw, doc.nodes = settledAll false raw ∧
          marksOf raw = front ++ .opening ⟨name, attributes⟩ :: back := by
  obtain ⟨tail, htail, hmarks⟩ : ∃ tail : List Mark, (∀ p ∈ tail, ¬ p.isText) ∧
      ∀ attributes, (make name (.ok attributes)).marks = .opening ⟨name, attributes⟩ :: tail := by
    rcases hmake with rfl | rfl
    · exact ⟨[], List.forall_mem_nil _, fun _ => rfl⟩
    · exact ⟨[.closing name], by simp [Mark.isText], fun _ => rfl⟩
  refine ⟨joinMarks (withinElements 0 (before.flatMap Event.marks)),
    joinMarks (tail ++ withinElements (tail.foldl Mark.depthAfter (opened.length + 1))
      (after.flatMap Event.marks)), fun {attributes doc} hdoc => ?_⟩
  obtain ⟨raw, hnodes, hraw⟩ := nodes_around hopen hdoc
  have hno : ∀ p ∈ Mark.opening ⟨name, attributes⟩ :: tail, ¬ p.isText :=
    List.forall_mem_cons.mpr ⟨by simp [Mark.isText], htail⟩
  refine ⟨raw, hnodes, ?_⟩
  rw [hraw, hmarks, within_elements_of_no_text hno, List.cons_append,
    join_marks_around_other _ _ (by simp [Mark.isText])]
  rfl

/-- Where the value of an attribute is written: between two parts that are the same for every value,
apart from the one that asks for white space to be kept. -/
def WritesValue (layout : Layout) (before after : List Event) (tagged : Attributes → Event)
    (as : Attributes) (key : String) (bs : Attributes) (front back : String) : Prop :=
  ∀ value, (key = "xml:space" → value ≠ "preserve") →
    ∃ doc, ofReading ⟨before ++ tagged (as ++ ⟨key, value⟩ :: bs) :: after, none⟩ = .ok doc ∧
      doc.write layout = front ++ (escapeValue value ++ back)

/-- What is written around the value of an attribute is the same for all values, as long as they are
of no account for white space. -/
theorem value_written {before after : List Event}
    {make : String → Except AttributeFault Attributes → Event}
    (hmake : make = .start ∨ make = .empty) {name key value : String} {as bs : Attributes}
    {doc : Document} (hvalue : key = "xml:space" → value ≠ "preserve")
    (h : ofReading ⟨before ++ make name (.ok (as ++ ⟨key, value⟩ :: bs)) :: after, none⟩ = .ok doc)
    (layout : Layout) :
    ∃ front back, WritesValue layout before after (make name ∘ .ok) as key bs front back := by
  obtain ⟨opened, hopen⟩ := open_before h
  let tagged (v : String) : Tag := ⟨name, as ++ ⟨key, v⟩ :: bs⟩
  obtain ⟨front, back, hraw⟩ := nodes_around_tag after hmake name hopen
  obtain ⟨raw, -, hmarks⟩ := hraw h
  obtain ⟨place, children, rfl, rfl, rfl⟩ := Node.exists_around_element hmarks
  obtain ⟨written, behind, inside, level, trims, outside, hwrite⟩ :=
    write_around place layout (n := .element (tagged value) children) fun htext => by cases htext
  let inner := settle (tagged value) outside
    (settledAll ((tagged value).preservesSpace || outside) children)
  obtain ⟨lead, trail, hopening⟩ := Tag.write_opening_value name key as bs
  obtain ⟨pad, rest, hrest⟩ := Node.write_element name inner inside level
  refine ⟨written ++ (pad ++ lead), "\"" ++ Text.trimEnd (trail ++ (rest ++ behind)), ?_⟩
  intro v hv
  obtain ⟨hmatches, hreadable⟩ :=
    Event.matches_of_tag hmake name (as ++ ⟨key, value⟩ :: bs) (as ++ ⟨key, v⟩ :: bs)
  obtain ⟨next, hnext⟩ := of_reading_replace h hmatches hreadable
  refine ⟨next, hnext, ?_⟩
  obtain ⟨raw, hnodes, hmarks'⟩ := hraw hnext
  have hplace := place.marks_of_around (.element (tagged v) children)
  obtain rfl : raw = place.around (.element (tagged v) children) := by
    refine Node.eq_of_marks_of _ _ (hmarks'.trans (Eq.trans ?_ hplace.symm))
    simp [Node.marks, tagged]
  obtain ⟨nodes⟩ := next
  cases hnodes
  have hsettled : (Node.element (tagged v) children).settled outside = .element (tagged v) inner :=
    Node.settled_congr (t := tagged v) (u := tagged value) rfl
      (Tag.preserves_space_value hv hvalue) children outside
  have hkept : (if trims then ((Node.element (tagged v) children).settled outside).trimmed
      else (Node.element (tagged v) children).settled outside) = .element (tagged v) inner := by
    rw [hsettled]
    exact ite_self _
  have hquote : (written ++ (pad ++ lead) ++ (escapeValue v ++ "\"")).toList =
      (written ++ (pad ++ lead) ++ escapeValue v).toList ++ ['"'] := by
    rw [← String.append_assoc, String.toList_append]
    rfl
  have hend := Text.trim_end_append hquote (by decide) (trail ++ (rest ++ behind))
  rw [hwrite (.element (tagged v) children) ⟨rfl, rfl, rfl⟩, hkept, hrest, hopening]
  simp only [String.append_assoc] at hend ⊢
  exact hend

/-! ### What becomes of references that are not expanded -/

theorem literal_of_unknown {name : String} (h : decode? name.toList = none) :
    decodeReference name.toList = "&" ++ name ++ ";" := by
  apply String.toList_injective
  simp [decodeReference, h]

theorem trim_literal (name : String) : Text.trim ("&" ++ name ++ ";") = "&" ++ name ++ ";" := by
  apply String.toList_injective
  rw [Text.to_list_trim, Text.trim_chars_eq_self_iff]
  have hchars : ("&" ++ name ++ ";").toList = '&' :: (name.toList ++ [';']) := by simp
  rw [hchars]
  refine ⟨fun c hc => ?_, fun c hc => ?_⟩
  · cases hc
    decide
  · rw [← List.cons_append, List.getLast?_concat] at hc
    cases hc
    decide

theorem escape_text_literal (name : String) :
    escapeText ("&" ++ name ++ ";") = "&amp;" ++ escapeText name ++ ";" := by
  rw [Entity.escape_text_append, Entity.escape_text_append]
  rfl

theorem escape_value_append (s t : String) :
    escapeValue (s ++ t) = escapeValue s ++ escapeValue t := by
  apply String.toList_injective
  simp [escapeValue]

theorem escape_value_literal (name : String) :
    escapeValue ("&" ++ name ++ ";") = "&amp;" ++ escapeValue name ++ ";" := by
  rw [escape_value_append, escape_value_append]
  rfl

/-- In an element, a reference that is not expanded is written where any text would be, with its
ampersand escaped. -/
theorem reference_written {before after : List Event} {name inner : String} {outer : List String}
    {doc : Document} (hunknown : decode? name.toList = none)
    (hopen : openAfter [] before = some (inner :: outer))
    (h : ofReading ⟨before ++ .reference name :: after, none⟩ = .ok doc) (layout : Layout) :
    ∃ front back, WritesText layout before after front back ∧
      doc.write layout = front ++ ("&amp;" ++ escapeText name ++ ";" ++ back) := by
  have hmarks : (Event.reference name).marks = [.leaf .text ("&" ++ name ++ ";")] := by
    rw [Event.marks, literal_of_unknown hunknown]
  have hne : "&" ++ name ++ ";" ≠ "" := by
    intro hempty
    simpa using congrArg String.toList hempty
  obtain ⟨front, back, hwrites⟩ := text_written hmarks hne (trim_literal name) hopen h layout
  obtain ⟨same, hsame, hwritten⟩ := hwrites _ _ hmarks hne (trim_literal name)
  obtain rfl : same = doc := Except.ok.inj (hsame.symm.trans h)
  refine ⟨front, back, hwrites, ?_⟩
  rw [hwritten, escape_text_literal]

/-- An attribute value that cannot be decoded is written where any value would be, with the
ampersand of each reference in it escaped. -/
theorem raw_value_written {before after : List Event}
    {make : String → Except AttributeFault Attributes → Event}
    (hmake : make = .start ∨ make = .empty) {name key : String} {raw : List Char}
    {as bs : Attributes} {doc : Document} (hundecoded : decodeAll? raw = none)
    (h : ofReading
      ⟨before ++ make name (.ok (as ++ ⟨key, String.ofList raw⟩ :: bs)) :: after, none⟩ =
      .ok doc) (layout : Layout) :
    ∃ front back, WritesValue layout before after (make name ∘ .ok) as key bs front back ∧
      ∀ lead reference rest : String,
        String.ofList raw = lead ++ ("&" ++ reference ++ ";") ++ rest →
        doc.write layout = front ++ (escapeValue lead ++
          ("&amp;" ++ escapeValue reference ++ ";") ++ escapeValue rest ++ back) := by
  -- the value that asks for white space to be kept has no reference in it
  have hspace : String.ofList raw ≠ "preserve" := by
    intro hpreserve
    have hchars : raw = "preserve".toList := by
      rw [← hpreserve, String.toList_ofList]
    rw [hchars] at hundecoded
    exact absurd hundecoded (by decide +kernel)
  obtain ⟨front, back, hwrites⟩ := value_written hmake (fun _ => hspace) h layout
  obtain ⟨same, hsame, hwritten⟩ := hwrites _ fun _ => hspace
  obtain rfl : same = doc := Except.ok.inj (hsame.symm.trans h)
  refine ⟨front, back, hwrites, fun lead reference rest hsplit => ?_⟩
  rw [hwritten, hsplit, escape_value_append, escape_value_append, escape_value_literal]

/-- A reference that is not expanded is not written as a reference. In an element, its ampersand is
escaped where it stood, as in any other text; outside of elements it is dropped. In an attribute
value that has one, all references are left as they are and are written so, known ones as well. -/
theorem unexpanded_written_literally {source : String} {doc : Document}
    (h : parse source = .ok doc) (layout : Layout) :
    (∀ before name after, (Markup.read source).events = before ++ .reference name :: after →
      decode? name.toList = none →
      Markup.Stands source before ('&' :: (name.toList ++ [';'])) after ∧
      (openAfter [] before = some [] → ofReading ⟨before ++ after, none⟩ = .ok doc) ∧
      ∀ inner outer, openAfter [] before = some (inner :: outer) → ∃ front back,
        WritesText layout before after front back ∧
        doc.write layout = front ++ ("&amp;" ++ escapeText name ++ ";" ++ back)) ∧
    ∀ make : String → Except AttributeFault Attributes → Event, make = .start ∨ make = .empty →
      ∀ before name as key value bs after, (Markup.read source).events =
        before ++ make name (.ok (as ++ ⟨key, value⟩ :: bs)) :: after →
      (∃ tag raw, Markup.Stands source before tag after ∧
        Markup.SpelledValue name as ⟨key, value⟩ raw bs tag) ∧
      ∀ tag raw, Markup.SpelledValue name as ⟨key, value⟩ raw bs tag → decodeAll? raw = none →
        ∃ front back, WritesValue layout before after (make name ∘ .ok) as key bs front back ∧
          ∀ lead reference rest : String,
            String.ofList raw = lead ++ ("&" ++ reference ++ ";") ++ rest →
            doc.write layout = front ++ (escapeValue lead ++
              ("&amp;" ++ escapeValue reference ++ ";") ++ escapeValue rest ++ back) := by
  have hfault : (Markup.read source).fault = none := (of_reading_ok_iff.mp h).1
  have hreading {events : List Event} (hevents : (Markup.read source).events = events) :
      ofReading ⟨events, none⟩ = .ok doc := by
    rw [← hevents, ← hfault]
    exact h
  refine ⟨fun before name after hevents hunknown => ?_, ?_⟩
  · obtain ⟨part, hstands, rfl⟩ := stands_of_parse h hevents
    have hdoc := hreading hevents
    have hmarks : (Event.reference name).marks = [.leaf .text ("&" ++ name ++ ";")] := by
      rw [Event.marks, literal_of_unknown hunknown]
    exact ⟨hstands, fun hopen => text_outside hmarks hopen hdoc,
      fun inner outer hopen => reference_written hunknown hopen hdoc layout⟩
  · intro make hmake before name as key value bs after hevents
    obtain ⟨tag, hstands, hspelled⟩ := stands_of_parse h hevents
    obtain ⟨raw, hraw⟩ : ∃ raw, Markup.SpelledValue name as ⟨key, value⟩ raw bs tag := by
      rcases hmake with rfl | rfl
      · exact value_of_tag (.inl rfl) hspelled
      · exact value_of_tag (.inr rfl) hspelled
    refine ⟨⟨tag, raw, hstands, hraw⟩, fun tag raw hraw hundecoded => ?_⟩
    have hvalue := hraw.decoded
    rw [decodeValue, hundecoded] at hvalue
    obtain rfl : value = String.ofList raw := hvalue
    exact raw_value_written hmake hundecoded (hreading hevents) layout

deriving instance DecidableEq for Event

/-- A known reference next to one that is not expanded, and one in the text of an element. -/
theorem unexpanded_written_label :
    let source := "<svg id=\"&lt;&x;\"><text>&ns;</text></svg>"
    let doc : Document := ⟨[.element ⟨"svg", [⟨"id", "&lt;&x;"⟩]⟩
      [.element ⟨"text", []⟩ [.leaf .text "&ns;"]]]⟩
    let svg : Event := .start "svg" (.ok [⟨"id", "&lt;&x;"⟩])
    let text : List Event := [.start "text" (.ok []), .reference "ns", .close "text"]
    parse source = .ok doc ∧
      (∃ front back, WritesText .compact [svg, .start "text" (.ok [])] [.close "text", .close "svg"]
          front back ∧ doc.write .compact = front ++ ("&amp;ns;" ++ back)) ∧
      ∃ front back, WritesValue .compact [] (text ++ [.close "svg"]) (.start "svg" ∘ .ok) [] "id" []
          front back ∧ doc.write .compact = front ++ ("&amp;lt;&amp;x;" ++ back) := by
  intro source doc svg text
  have hdoc : parse source = .ok doc := by decide +kernel
  have hevents : (Markup.read source).events = svg :: (text ++ [.close "svg"]) := by decide +kernel
  obtain ⟨htexts, hvalues⟩ := unexpanded_written_literally hdoc .compact
  refine ⟨hdoc, ?_, ?_⟩
  · obtain ⟨-, -, hinside⟩ :=
        htexts [svg, .start "text" (.ok [])] "ns" [.close "text", .close "svg"]
      hevents (by decide)
    exact hinside "text" ["svg"] (by decide)
  · obtain ⟨-, hvalue⟩ := hvalues .start (.inl rfl) [] "svg" [] "id" "&lt;&x;" [] _ hevents
    obtain ⟨front, back, hplace, hwritten⟩ := hvalue "<svg id=\"&lt;&x;\">".toList
      "&lt;&x;".toList ⟨[], " id=\"&lt;&x;\"".toList, [], _, by decide, rfl,
        ⟨[' '], ['='], '"', by decide, by decide, by decide,
          .inl rfl, by decide, by decide +kernel⟩,
        ⟨[], [], rfl, List.forall_mem_nil _, rfl⟩, .inl rfl⟩ (by decide +kernel)
    exact ⟨front, back, hplace, hwritten "&lt;" "x" "" (by decide +kernel)⟩

/-- What is declared in the doctype is written with it, but the references to it are text. -/
theorem unexpanded_not_written :
    let source :=
      "<!DOCTYPE svg [<!ENTITY ns \"http://x\">]><svg id=\"&ns;\"><text>&ns;</text></svg>"
    ∃ doc, parse source = .ok doc ∧
      doc.write .compact = "<!DOCTYPE svg [<!ENTITY ns \"http://x\">]>" ++
        "<svg id=\"&amp;ns;\"><text>&amp;ns;</text></svg>" := by
  intro source
  exact ⟨⟨[.leaf .doctype "svg [<!ENTITY ns \"http://x\">]", .element ⟨"svg", [⟨"id", "&ns;"⟩]⟩
    [.element ⟨"text", []⟩ [.leaf .text "&ns;"]]]⟩, by decide +kernel, by decide +kernel⟩

end Document

end SvgPress
