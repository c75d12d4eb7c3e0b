import SvgPress.Proofs.Markup.Regions

/-!
A node and what is around it in a document. The marks of a document name each text and each element
by what stands before and after it, and what is around a node is read, settled and written without
regard to what the node holds: it matters whether it is an element, and whether it is a text that is
more than white space. So what is written around a node is the same for all nodes that agree in
that.
-/

namespace SvgPress

open Node (marksOf settledAll writeAll)

/-- What is around a node: the nodes beside it, and the elements that it is in. -/
inductive Surroundings where
  | beside (before after : List Node)
  | within (before : List Node) (tag : Tag) (inner : Surroundings) (after : List Node)

namespace Surroundings

/-- A node in its surroundings. -/
def around : Surroundings → Node → List Node
  | beside before after, n => before ++ n :: after
  | within before tag inner after, n => before ++ .element tag (inner.around n) :: after

/-- The marks before the node. -/
def front : Surroundings → List Mark
  | beside before _ => marksOf before
  | within before tag inner _ => marksOf before ++ .opening tag :: inner.front

/-- The marks after the node. -/
def back : Surroundings → List Mark
  | beside _ after => marksOf after
  | within _ tag inner after => inner.back ++ .closing tag.name :: marksOf after

theorem marks_of_around (s : Surroundings) (n : Node) :
    marksOf (s.around n) = s.front ++ (n.marks ++ s.back) := by
  induction s with
  | beside before after => rw [around, Node.marks_of_append, Node.marksOf, front, back]
  | within before tag inner after ih =>
      rw [around, Node.marks_of_append, Node.marksOf, Node.marks, ih, front, back]
      simp only [List.append_assoc, List.cons_append, List.nil_append]

/-- More nodes beside the outermost ones. -/
def widen (before : List Node) (s : Surroundings) (after : List Node) : Surroundings :=
  match s with
  | beside front back => beside (before ++ front) (back ++ after)
  | within front tag inner back => within (before ++ front) tag inner (back ++ after)

theorem around_widen (before after : List Node) (s : Surroundings) (n : Node) :
    (s.widen before after).around n = before ++ (s.around n ++ after) := by
  cases s <;> simp [widen, around]

theorem front_widen (before after : List Node) (s : Surroundings) :
    (s.widen before after).front = marksOf before ++ s.front := by
  cases s <;> simp [widen, front, Node.marks_of_append]

end Surroundings

/-! ### Places in the marks of a document -/

namespace Node

mutual

/-- A mark that is no end of an element is the first of some node, with the marks before it. -/
theorem exists_around : (n : Node) → {front back : List Mark} → {p : Mark} →
    (∀ name, p ≠ .closing name) → n.marks = front ++ p :: back →
    ∃ s : Surroundings, ∃ m, [n] = s.around m ∧ s.front = front ∧ m.marks.head? = some p
  | .leaf kind content, front, back, p, _, h => by
      rw [marks, List.singleton_eq_append_iff] at h
      obtain ⟨rfl, hp⟩ | ⟨rfl, hnil⟩ := h
      · exact ⟨.beside [] [], .leaf kind content, rfl, rfl, by rw [marks, hp.symm]; rfl⟩
      · cases hnil
  | .element tag children, front, back, p, hp, h => by
      rw [marks] at h
      cases front with
      | nil =>
          obtain ⟨rfl, -⟩ := List.cons_eq_cons.mp h
          exact ⟨.beside [] [], .element tag children, rfl, rfl, by rw [marks]; rfl⟩
      | cons first more =>
          obtain ⟨rfl, hinside⟩ := List.cons_eq_cons.mp h
          -- the mark is not the end tag, so it is among the marks of the children
          obtain ⟨behind, hchildren⟩ : ∃ behind, marksOf children = more ++ p :: behind := by
            rcases List.eq_nil_or_concat back with rfl | ⟨behind, last, rfl⟩
            · obtain ⟨-, hlast⟩ := List.append_inj' hinside rfl
              exact absurd (by simpa using hlast.symm) (hp tag.name)
            · have hsplit : marksOf children ++ [.closing tag.name] =
                  (more ++ p :: behind) ++ [last] := by
                rw [List.concat_eq_append] at hinside
                exact hinside.trans (List.append_assoc more (p :: behind) [last]).symm
              exact ⟨behind, (List.append_inj' hsplit rfl).1⟩
          obtain ⟨s, m, hs, hfront, hm⟩ := exists_around_of children hp hchildren
          refine ⟨.within [] tag s [], m, ?_, ?_, hm⟩
          · rw [Surroundings.around, hs]
            rfl
          · rw [Surroundings.front, hfront]
            rfl

theorem exists_around_of : (ns : List Node) → {front back : List Mark} → {p : Mark} →
    (∀ name, p ≠ .closing name) → marksOf ns = front ++ p :: back →
    ∃ s : Surroundings, ∃ m, ns = s.around m ∧ s.front = front ∧ m.marks.head? = some p
  | [], front, back, p, _, h => by simp [marksOf] at h
  | n :: ns, front, back, p, hp, h => by
      rw [marksOf, List.append_eq_append_iff] at h
      obtain ⟨more, rfl, hmore⟩ | ⟨more, hn, hmore⟩ := h
      · obtain ⟨s, m, hs, hfront, hm⟩ := exists_around_of ns hp hmore
        refine ⟨s.widen [n] [], m, ?_, ?_, hm⟩
        · rw [Surroundings.around_widen, ← hs, List.append_nil]
          rfl
        · rw [Surroundings.front_widen, hfront, marks_of_singleton]
      · cases more with
        | nil =>
            rw [List.append_nil] at hn
            have hns : marksOf ns = [] ++ p :: back := hmore.symm
            obtain ⟨s, m, hs, hfront, hm⟩ := exists_around_of ns hp hns
            refine ⟨s.widen [n] [], m, ?_, ?_, hm⟩
            · rw [Surroundings.around_widen, ← hs, List.append_nil]
              rfl
            · rw [Surroundings.front_widen, hfront, marks_of_singleton, List.append_nil, hn]
        | cons first more =>
            obtain ⟨rfl, -⟩ := List.cons_eq_cons.mp hmore
            obtain ⟨s, m, hs, hfront, hm⟩ := exists_around n hp hn
            refine ⟨s.widen [] ns, m, ?_, ?_, hm⟩
            · rw [Surroundings.around_widen, ← hs]
              rfl
            · rw [Surroundings.front_widen, hfront]
              rfl

end

theorem exists_around_text {ns : List Node} {front back : List Mark} {s : String}
    (h : marksOf ns = front ++ .leaf .text s :: back) :
    ∃ place : Surroundings, ns = place.around (.leaf .text s) ∧ place.front = front ∧
      place.back = back := by
  obtain ⟨place, m, rfl, rfl, hm⟩ := exists_around_of ns (by simp) h
  have hmarks := place.marks_of_around m
  cases m with
  | element tag children => cases hm
  | leaf kind t =>
      cases hm
      rw [h, List.append_cancel_left_eq] at hmarks
      exact ⟨place, rfl, rfl, (List.cons_eq_cons.mp hmarks).2.symm⟩

theorem exists_around_element {ns : List Node} {front back : List Mark} {tag : Tag}
    (h : marksOf ns = front ++ .opening tag :: back) :
    ∃ place : Surroundings, ∃ children, ns = place.around (.element tag children) ∧
      place.front = front ∧ back = marksOf children ++ .closing tag.name :: place.back := by
  obtain ⟨place, m, rfl, rfl, hm⟩ := exists_around_of ns (by simp) h
  have hmarks := place.marks_of_around m
  cases m with
  | leaf kind t => cases hm
  | element tag' children =>
      cases hm
      rw [h, List.append_cancel_left_eq, marks] at hmarks
      refine ⟨place, children, rfl, rfl, ?_⟩
      simpa using (List.cons_eq_cons.mp hmarks).2

mutual

/-- Nodes can be told from their marks, whatever stands behind. -/
theorem eq_of_marks : (m n : Node) → {ps qs : List Mark} → m.marks ++ ps = n.marks ++ qs →
    m = n ∧ ps = qs
  | .leaf kind s, n, ps, qs, h => by
      cases n with
      | leaf kind' s' =>
          obtain ⟨heq, hrest⟩ := List.cons_eq_cons.mp h
          cases heq
          exact ⟨rfl, hrest⟩
      | element tag children => cases (List.cons_eq_cons.mp h).1
  | .element tag children, n, ps, qs, h => by
      cases n with
      | leaf kind s => cases (List.cons_eq_cons.mp h).1
      | element tag' children' =>
          rw [marks, marks, List.cons_append, List.cons_append, List.append_assoc,
            List.append_assoc] at h
          obtain ⟨htag, hrest⟩ := List.cons_eq_cons.mp h
          cases htag
          have hinside := congrArg (insideFrom 0) hrest
          rw [inside_from_marks_of, inside_from_marks_of] at hinside
          obtain rfl := eq_of_marks_of children children' (by simpa [insideFrom] using hinside)
          rw [List.append_cancel_left_eq] at hrest
          exact ⟨rfl, by simpa using hrest⟩

theorem eq_of_marks_of : (ms ns : List Node) → marksOf ms = marksOf ns → ms = ns
  | [], [], _ => rfl
  | [], n :: ns, h => by cases n <;> simp [marksOf, marks] at h
  | m :: ms, [], h => by cases m <;> simp [marksOf, marks] at h
  | m :: ms, n :: ns, h => by
      rw [marksOf, marksOf] at h
      obtain ⟨rfl, hrest⟩ := eq_of_marks m n h
      rw [eq_of_marks_of ms ns hrest]

end

end Node

/-! ### Settling what is around a node -/

namespace Node

/-- Two nodes that what is around them cannot tell apart. -/
structure Resembles (m n : Node) : Prop where
  element : m.isElement = n.isElement
  text : m.isLeaf .text = n.isLeaf .text
  shows : m.showsText = n.showsText

theorem Resembles.trans {l m n : Node} (hlm : l.Resembles m) (hmn : m.Resembles n) :
    l.Resembles n :=
  ⟨hlm.element.trans hmn.element, hlm.text.trans hmn.text, hlm.shows.trans hmn.shows⟩

/-- A text without the white space at its ends; nothing else is changed. -/
def trimmed : Node → Node
  | .leaf .text s => .leaf .text (Text.trim s)
  | n => n

theorem trimmed_of_other {n : Node} (h : n.isLeaf .text = false) : n.trimmed = n := by
  cases n with
  | element tag children => rfl
  | leaf kind s =>
      cases kind with
      | text => cases h
      | cdata | comment | declaration | instruction | doctype => rfl

theorem trimmed_trimmed (n : Node) : n.trimmed.trimmed = n.trimmed := by
  rcases n.text_or_other with ⟨s, rfl⟩ | hother
  · simp [trimmed, Text.trim_idem]
  · rw [trimmed_of_other hother, trimmed_of_other hother]

theorem resembles_trimmed (n : Node) : n.trimmed.Resembles n := by
  rcases n.text_or_other with ⟨s, rfl⟩ | hother
  · exact ⟨rfl, rfl, shows_text_trim s⟩
  · rw [trimmed_of_other hother]
    exact ⟨rfl, rfl, rfl⟩

theorem resembles_settled (kept : Bool) (n : Node) : (n.settled kept).Resembles n := by
  cases n <;> exact ⟨rfl, rfl, rfl⟩

theorem trim_texts_append (ms ns : List Node) :
    trimTexts (ms ++ ns) = trimTexts ms ++ trimTexts ns :=
  List.filterMap_append

/-- A node that is no white space stays when it is trimmed. -/
theorem trim_texts_shown {n : Node} (h : n.isLeaf .text → n.showsText) (ns : List Node) :
    trimTexts (n :: ns) = n.trimmed :: trimTexts ns := by
  rcases n.text_or_other with ⟨s, rfl⟩ | hother
  · have hshown : (Text.trim s).isEmpty = false := by
      have hshows := (shows_text_trim s).trans (h rfl)
      cases hempty : (Text.trim s).isEmpty with
      | false => rfl
      | true =>
          rw [String.isEmpty_iff.mp hempty] at hshows
          cases hshows
    rw [trim_texts_text, hshown]
    rfl
  · rw [trim_texts_other hother, trimmed_of_other hother]

end Node

namespace Surroundings

open Node (Resembles)

theorem any_around_congr {p : Node → Bool} {m n : Node} (hp : p m = p n)
    (helement : ∀ tag ns ms, p (.element tag ns) = p (.element tag ms)) (s : Surroundings) :
    (s.around m).any p = (s.around n).any p := by
  cases s with
  | beside before after => simp [around, hp]
  | within before tag inner after =>
      simp [around, helement tag (inner.around m) (inner.around n)]

theorem keeps_own_space_around {m n : Node} (h : m.Resembles n) (tag : Tag) (s : Surroundings) :
    keepsOwnSpace tag (s.around m) = keepsOwnSpace tag (s.around n) := by
  rw [keepsOwnSpace, keepsOwnSpace, isMixed, isMixed,
    s.any_around_congr h.element fun _ _ _ => rfl, s.any_around_congr h.shows fun _ _ _ => rfl]

/-- Where the white space of children is settled, a node among them is trimmed or it is not; what is
around it is settled by itself. -/
theorem settle_around (s : Surroundings) (tag : Tag) (kept : Bool) {n : Node}
    (hn : n.isLeaf .text → n.showsText) :
    ∃ place : Surroundings, ∃ trims : Bool, ∀ m, m.Resembles n →
      settle tag kept (s.around m) = place.around (if trims then m.trimmed else m) := by
  cases hkeeps : keepsOwnSpace tag (s.around n) || kept with
  | true =>
      refine ⟨s, false, fun m hm => ?_⟩
      rw [← keeps_own_space_around hm] at hkeeps
      exact settle_of_keeps hkeeps
  | false =>
      have hsettle {m : Node} (hm : m.Resembles n) :
          settle tag kept (s.around m) = trimTexts (s.around m) := by
        rw [← keeps_own_space_around hm] at hkeeps
        exact settle_of_not_keeps hkeeps
      cases s with
      | beside before after =>
          refine ⟨.beside (trimTexts before) (trimTexts after), true, fun m hm => ?_⟩
          have hshown : m.isLeaf .text → m.showsText := by
            rw [hm.text, hm.shows]
            exact hn
          rw [hsettle hm, around, Node.trim_texts_append, Node.trim_texts_shown hshown]
          rfl
      | within before tag' inner after =>
          refine ⟨.within (trimTexts before) tag' inner (trimTexts after), false, fun m hm => ?_⟩
          rw [hsettle hm, around, Node.trim_texts_append, trim_texts_other rfl]
          rfl

/-- The same for a whole document. -/
theorem settled_all_around (s : Surroundings) (kept : Bool) {n : Node}
    (hn : n.isLeaf .text → n.showsText) :
    ∃ place : Surroundings, ∃ trims around : Bool, ∀ m, m.Resembles n →
      settledAll kept (s.around m) =
        place.around (if trims then (m.settled around).trimmed else m.settled around) := by
  induction s generalizing kept with
  | beside before after =>
      refine ⟨.beside (settledAll kept before) (settledAll kept after), false, kept, fun m _ => ?_⟩
      rw [around, Node.settled_all_eq_map, List.map_append, List.map_cons,
        ← Node.settled_all_eq_map, ← Node.settled_all_eq_map]
      rfl
  | within before tag inner after ih =>
      obtain ⟨place, trims, outside, hinner⟩ := ih (tag.preservesSpace || kept)
      obtain ⟨settledPlace, settles, hsettle⟩ := place.settle_around tag kept hn
      refine ⟨.within (settledAll kept before) tag settledPlace (settledAll kept after),
        trims || settles, outside, fun m hm => ?_⟩
      have hresembles : (if trims then (m.settled outside).trimmed else m.settled outside).Resembles
          n := by
        have hsettled := Node.resembles_settled outside m
        have htrimmed := Node.resembles_trimmed (m.settled outside)
        split
        · exact (htrimmed.trans hsettled).trans hm
        · exact hsettled.trans hm
      have htwice : (if settles then
            (if trims then (m.settled outside).trimmed else m.settled outside).trimmed
          else if trims then (m.settled outside).trimmed else m.settled outside) =
          if trims || settles then (m.settled outside).trimmed else m.settled outside := by
        cases trims <;> cases settles <;> simp [Node.trimmed_trimmed]
      rw [around, Node.settled_all_eq_map, List.map_append, List.map_cons,
        ← Node.settled_all_eq_map, ← Node.settled_all_eq_map, Node.settled, hinner m hm,
        hsettle _ hresembles, htwice]
      rfl

/-- What is written around a node. -/
theorem write_all_around (s : Surroundings) (layout : Layout) (depth : Nat) (n : Node) :
    ∃ before after : String, ∃ place : Layout, ∃ level, ∀ m, m.Resembles n →
      writeAll layout depth (s.around m) = before ++ (m.write place level ++ after) := by
  induction s generalizing layout depth with
  | beside before after =>
      refine ⟨writeAll layout depth before, writeAll layout depth after, layout, depth,
        fun m _ => ?_⟩
      rw [around, Node.write_all_append, writeAll]
  | within front tag inner back ih =>
      let inside := layout.inside (inner.around n)
      obtain ⟨before, after, place, level, hinner⟩ := ih inside (depth + 1)
      refine ⟨writeAll layout depth front ++ (layout.pad depth ++ (tag.writeOpening ++
          (">" ++ inside.newline)) ++ before),
        after ++ (inside.pad depth ++ tag.writeClosing ++ layout.newline ++
          writeAll layout depth back), place, level, fun m hm => ?_⟩
      have hinside : layout.inside (inner.around m) = inside := by
        rw [Layout.inside, inner.any_around_congr hm.text fun _ _ _ => rfl]
        rfl
      have hsome : (inner.around m).isEmpty = false := by
        cases inner <;> simp [around]
      rw [around, Node.write_all_append, writeAll, Node.write_eq, Node.body, hinside, hsome,
        hinner m hm]
      simp only [Bool.false_eq_true, if_false, String.append_assoc]

end Surroundings

/-- What is written for a document around a node in it, once the white space of the document is
settled. -/
theorem Document.write_around (s : Surroundings) (layout : Layout) {n : Node}
    (hn : n.isLeaf .text → n.showsText) :
    ∃ before after : String, ∃ place : Layout, ∃ level, ∃ trims outside : Bool,
      ∀ m, m.Resembles n → (Document.mk (settledAll false (s.around m))).write layout =
        Text.trimEnd (before ++
          ((if trims then (m.settled outside).trimmed else m.settled outside).write place level ++
            after)) := by
  obtain ⟨inner, trims, outside, hsettled⟩ := s.settled_all_around false hn
  obtain ⟨before, after, place, level, hwritten⟩ := inner.write_all_around layout 0 n
  refine ⟨before, after, place, level, trims, outside, fun m hm => ?_⟩
  have hinner := Node.resembles_settled outside m
  have htrimmed := Node.resembles_trimmed (m.settled outside)
  rw [write, hsettled m hm, hwritten]
  split
  · exact (htrimmed.trans hinner).trans hm
  · exact hinner.trans hm

end SvgPress
