import SvgPress.Markup.Position
import SvgPress.Proofs.Markup.Flattening

/-!
The elements of a document and where they stand in the text. A flat document has a region for each
element, from its start tag to the end tag that closes it; the elements of a tree are listed in the
same order. A document that was read has exactly the elements of the regions of its text, and the
children of each are the marks in its region, with their white space settled.
-/

namespace SvgPress

/-- An element in a flat document: the tags of the elements around it, innermost first, its own tag,
and the marks between its start and its end. -/
structure Region where
  outer : List Tag
  tag : Tag
  inner : List Mark
  deriving DecidableEq, Repr

/-- The marks up to the end of an element in which `depth` more elements are open. -/
def insideFrom : Nat → List Mark → List Mark
  | _, [] => []
  | 0, .closing _ :: _ => []
  | depth + 1, .closing name :: rest => .closing name :: insideFrom depth rest
  | depth, .opening tag :: rest => .opening tag :: insideFrom (depth + 1) rest
  | depth, .leaf kind s :: rest => .leaf kind s :: insideFrom depth rest

/-- The elements of a flat document, in the order of their start tags. -/
def regions (outer : List Tag) : List Mark → List Region
  | [] => []
  | .opening tag :: rest => ⟨outer, tag, insideFrom 0 rest⟩ :: regions (tag :: outer) rest
  | .closing _ :: rest => regions outer.tail rest
  | .leaf .. :: rest => regions outer rest

/-- An element of a tree with the tags of the elements around it, innermost first. -/
structure PlacedElement where
  outer : List Tag
  tag : Tag
  children : List Node
  deriving DecidableEq, Repr

namespace Node

mutual

/-- The elements of a node, itself included, in document order. -/
def placed (outer : List Tag) : Node → List PlacedElement
  | .element tag children => ⟨outer, tag, children⟩ :: placedOf (tag :: outer) children
  | .leaf .. => []
termination_by structural n => n

def placedOf (outer : List Tag) : List Node → List PlacedElement
  | [] => []
  | n :: rest => n.placed outer ++ placedOf outer rest
termination_by structural ns => ns

end

end Node

/-- All elements of a document, in document order. -/
def Document.placed (doc : Document) : List PlacedElement :=
  Node.placedOf [] doc.nodes

/-- A text as marks, with texts that stand side by side made one. -/
def Markup.marks (source : String) : List Mark :=
  joinMarks ((Markup.read source).events.flatMap Event.marks)

/-- The elements as they stand in a text. -/
def Markup.regions (source : String) : List Region :=
  SvgPress.regions [] (Markup.marks source)

/-! ### The regions of a flattened tree -/

section Flattened

theorem inside_from_append_leaf (depth : Nat) (kind : LeafKind) (s : String) (rest : List Mark) :
    insideFrom depth (.leaf kind s :: rest) = .leaf kind s :: insideFrom depth rest := by
  cases depth <;> rfl

theorem inside_from_opening (depth : Nat) (tag : Tag) (rest : List Mark) :
    insideFrom depth (.opening tag :: rest) = .opening tag :: insideFrom (depth + 1) rest := by
  cases depth <;> rfl

mutual

theorem inside_from_marks : (n : Node) → (depth : Nat) → (rest : List Mark) →
    insideFrom depth (n.marks ++ rest) = n.marks ++ insideFrom depth rest
  | .element tag children, depth, rest => by
      rw [Node.marks, List.cons_append, inside_from_opening, List.append_assoc,
        inside_from_marks_of children, List.singleton_append, insideFrom]
      simp
  | .leaf kind s, depth, rest => inside_from_append_leaf depth kind s rest

theorem inside_from_marks_of : (ns : List Node) → (depth : Nat) → (rest : List Mark) →
    insideFrom depth (Node.marksOf ns ++ rest) = Node.marksOf ns ++ insideFrom depth rest
  | [], _, _ => rfl
  | n :: ns, depth, rest => by
      rw [Node.marksOf, List.append_assoc, inside_from_marks n, inside_from_marks_of ns,
        List.append_assoc]

end

/-- An element of a tree as a region of the flat document. -/
def PlacedElement.region (e : PlacedElement) : Region :=
  ⟨e.outer, e.tag, Node.marksOf e.children⟩

mutual

theorem regions_marks : (n : Node) → (outer : List Tag) → (rest : List Mark) →
    regions outer (n.marks ++ rest) =
      (n.placed outer).map PlacedElement.region ++ regions outer rest
  | .element tag children, outer, rest => by
      have hinside : insideFrom 0 (Node.marksOf children ++ .closing tag.name :: rest) =
          Node.marksOf children := by
        rw [inside_from_marks_of, insideFrom, List.append_nil]
      rw [Node.marks, Node.placed, List.cons_append, List.append_assoc, List.singleton_append,
        regions, hinside, regions_marks_of children, regions, List.tail_cons, List.map_cons]
      rfl
  | .leaf kind s, outer, rest => rfl

theorem regions_marks_of : (ns : List Node) → (outer : List Tag) → (rest : List Mark) →
    regions outer (Node.marksOf ns ++ rest) =
      (Node.placedOf outer ns).map PlacedElement.region ++ regions outer rest
  | [], _, _ => rfl
  | n :: ns, outer, rest => by
      rw [Node.marksOf, Node.placedOf, List.append_assoc, regions_marks n, regions_marks_of ns,
        List.map_append, List.append_assoc]

end

/-- The regions of a flattened tree are its elements. -/
theorem regions_flattened (outer : List Tag) (ns : List Node) :
    regions outer (Node.marksOf ns) = (Node.placedOf outer ns).map PlacedElement.region := by
  have hall := regions_marks_of ns outer []
  rwa [List.append_nil, regions, List.append_nil] at hall

end Flattened

/-! ### Joined texts, and texts outside all elements -/

section Joined

/-- Between two elements texts are joined as in the whole document. -/
theorem inside_from_onto {p : Mark} (h : p.isText) (depth : Nat) (ps : List Mark) :
    insideFrom depth (p.onto ps) = p.onto (insideFrom depth ps) := by
  obtain ⟨s, rfl⟩ := Mark.is_text_iff.mp h
  cases ps with
  | nil => rw [Mark.onto_nil, insideFrom, Mark.onto_nil, inside_from_append_leaf, insideFrom]
  | cons q qs =>
      by_cases hq : q.isText
      · obtain ⟨t, rfl⟩ := Mark.is_text_iff.mp hq
        have honto (ms : List Mark) : Mark.onto (.leaf .text s) (.leaf .text t :: ms) =
            .leaf .text (s ++ t) :: ms := rfl
        rw [honto, inside_from_append_leaf, inside_from_append_leaf, honto]
      · rw [Mark.onto_cons fun both => hq both.2, inside_from_append_leaf]
        cases q with
        | opening tag => rw [inside_from_opening, Mark.onto_cons (by simp [Mark.isText])]
        | closing name =>
            cases depth with
            | zero => rw [insideFrom, Mark.onto_nil]
            | succ depth => rw [insideFrom, Mark.onto_cons (by simp [Mark.isText])]
        | leaf kind t =>
            rw [inside_from_append_leaf, Mark.onto_cons fun both => hq both.2]

theorem Mark.onto_other {p : Mark} (h : ¬ p.isText) (ps : List Mark) : p.onto ps = p :: ps := by
  cases ps with
  | nil => exact p.onto_nil
  | cons q qs => exact Mark.onto_cons (fun both => h both.1) qs

theorem inside_from_join (depth : Nat) (ps : List Mark) :
    insideFrom depth (joinMarks ps) = joinMarks (insideFrom depth ps) := by
  induction ps generalizing depth with
  | nil => cases depth <;> rfl
  | cons p ps ih =>
      cases p with
      | opening tag =>
          have hother : ¬ (Mark.opening tag).isText := by simp [Mark.isText]
          rw [joinMarks, Mark.onto_other hother, inside_from_opening,
            inside_from_opening, joinMarks, Mark.onto_other hother, ih]
      | closing name =>
          have hother : ¬ (Mark.closing name).isText := by simp [Mark.isText]
          rw [joinMarks, Mark.onto_other hother]
          cases depth with
          | zero => rfl
          | succ depth => rw [insideFrom, insideFrom, joinMarks, Mark.onto_other hother, ih]
      | leaf kind s =>
          by_cases htext : (Mark.leaf kind s).isText
          · rw [joinMarks, inside_from_onto htext, ih, inside_from_append_leaf, joinMarks]
          · rw [joinMarks, Mark.onto_other htext, inside_from_append_leaf, inside_from_append_leaf,
              joinMarks, Mark.onto_other htext, ih]

/-- A region with its texts joined. -/
def Region.joined (r : Region) : Region :=
  { r with inner := joinMarks r.inner }

theorem regions_join (outer : List Tag) (ps : List Mark) :
    regions outer (joinMarks ps) = (regions outer ps).map Region.joined := by
  induction ps generalizing outer with
  | nil => rfl
  | cons p ps ih =>
      cases p with
      | opening tag =>
          have hother : ¬ (Mark.opening tag).isText := by simp [Mark.isText]
          rw [joinMarks, Mark.onto_other hother, regions, regions, inside_from_join, ih,
            List.map_cons]
          rfl
      | closing name =>
          have hother : ¬ (Mark.closing name).isText := by simp [Mark.isText]
          rw [joinMarks, Mark.onto_other hother, regions, regions, ih]
      | leaf kind s =>
          have honto (qs : List Mark) :
              regions outer ((Mark.leaf kind s).onto qs) = regions outer qs := by
            unfold Mark.onto
            split
            · rfl
            · rfl
          rw [joinMarks, honto, ih, regions]

/-- What is within an element is not outside of all. -/
theorem inside_from_within {depth around : Nat} (h : depth < around) (ps : List Mark) :
    insideFrom depth (withinElements around ps) = insideFrom depth ps := by
  induction ps generalizing depth around with
  | nil => rfl
  | cons p ps ih =>
      have hkept : ¬ (around = 0 ∧ p.isText = true) := fun houtside => by omega
      rw [withinElements]
      simp only [if_neg hkept]
      cases p with
      | opening tag =>
          rw [inside_from_opening, inside_from_opening, Mark.depthAfter, ih (by omega)]
      | closing name =>
          cases depth with
          | zero => rfl
          | succ depth => rw [insideFrom, insideFrom, Mark.depthAfter, ih (by omega)]
      | leaf kind s =>
          rw [inside_from_append_leaf, inside_from_append_leaf, Mark.depthAfter, ih h]

theorem regions_within (outer : List Tag) (depth : Nat) (ps : List Mark) :
    regions outer (withinElements depth ps) = regions outer ps := by
  induction ps generalizing outer depth with
  | nil => rfl
  | cons p ps ih =>
      rw [withinElements]
      cases p with
      | opening tag =>
          simp only [Mark.isText, Bool.false_eq_true, and_false, if_false]
          rw [regions, regions, Mark.depthAfter, inside_from_within (by omega), ih]
      | closing name =>
          simp only [Mark.isText, Bool.false_eq_true, and_false, if_false]
          rw [regions, regions, ih]
      | leaf kind s =>
          split
          · rw [ih, regions]
          · rw [regions, regions, ih]

end Joined

/-! ### The elements of a settled tree -/

namespace Node

/-- An element of a tree before its white space and that of the elements in it is settled, and
afterwards. -/
def settledElement (e : PlacedElement) : PlacedElement :=
  { e with
    children := settle e.tag (e.outer.any (·.preservesSpace))
      (settledAll (e.tag.preservesSpace || e.outer.any (·.preservesSpace)) e.children) }

theorem placed_of_trim_texts (outer : List Tag) (ns : List Node) :
    placedOf outer (trimTexts ns) = placedOf outer ns := by
  induction ns with
  | nil => rfl
  | cons n ns ih =>
      rcases n.text_or_other with ⟨s, rfl⟩ | hother
      · rw [trim_texts_text, placedOf, placed, List.nil_append]
        split
        · exact ih
        · rw [placedOf, placed, List.nil_append, ih]
      · rw [trim_texts_other hother, placedOf, placedOf, ih]

theorem placed_of_settle (outer : List Tag) (tag : Tag) (kept : Bool) (ns : List Node) :
    placedOf outer (settle tag kept ns) = placedOf outer ns := by
  unfold settle
  split
  · rfl
  · exact placed_of_trim_texts outer ns

mutual

theorem placed_settled : (n : Node) → (outer : List Tag) →
    (n.settled (outer.any (·.preservesSpace))).placed outer =
      (n.placed outer).map settledElement
  | .element tag children, outer => by
      have hchildren := placed_of_settled_all children (tag :: outer)
      rw [List.any_cons] at hchildren
      rw [settled, placed, placed, placed_of_settle, hchildren, List.map_cons]
      rfl
  | .leaf kind s, outer => rfl

theorem placed_of_settled_all : (ns : List Node) → (outer : List Tag) →
    placedOf outer (settledAll (outer.any (·.preservesSpace)) ns) =
      (placedOf outer ns).map settledElement
  | [], _ => rfl
  | n :: ns, outer => by
      rw [settledAll, placedOf, placedOf, placed_settled n, placed_of_settled_all ns,
        List.map_append]

end

end Node

/-- A document that is read has the elements of its text. The children of each are what is between
the tags of the element, settled. -/
theorem Document.placed_of_parse {source : String} {doc : Document} (h : parse source = .ok doc) :
    ∃ raw : List PlacedElement, doc.placed = raw.map Node.settledElement ∧
      Markup.regions source = raw.map PlacedElement.region := by
  obtain ⟨raw, hmarks, hnodes⟩ := marks_of_reading h
  refine ⟨Node.placedOf [] raw, ?_, ?_⟩
  · rw [placed, hnodes]
    exact Node.placed_of_settled_all raw []
  · rw [← regions_flattened, hmarks, regions_join, regions_within, Markup.regions, Markup.marks,
      regions_join]

end SvgPress
