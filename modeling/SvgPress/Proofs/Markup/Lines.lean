import SvgPress.Proofs.Markup.Regions

/-!
Where elements stand, as the tags from each of them outwards. A test of tags leaves exactly the
elements on whose line every tag passes, in their order, and tags that are changed one by one are
changed on every line.
-/

namespace SvgPress

/-- The tags from an element outwards, its own first. -/
def PlacedElement.line (e : PlacedElement) : List Tag :=
  e.tag :: e.outer

namespace Node

def lines (outer : List Tag) (n : Node) : List (List Tag) :=
  (n.placed outer).map PlacedElement.line

def linesOf (outer : List Tag) (ns : List Node) : List (List Tag) :=
  (placedOf outer ns).map PlacedElement.line

theorem lines_element (outer : List Tag) (tag : Tag) (children : List Node) :
    (element tag children).lines outer = (tag :: outer) :: linesOf (tag :: outer) children := by
  rw [lines, placed, List.map_cons]
  rfl

theorem lines_of_cons (outer : List Tag) (n : Node) (ns : List Node) :
    linesOf outer (n :: ns) = n.lines outer ++ linesOf outer ns := by
  rw [linesOf, placedOf, List.map_append]
  rfl

mutual

theorem lines_map_tags (f : Tag → Tag) : (n : Node) → (outer : List Tag) →
    (n.mapTags f).lines (outer.map f) = (n.lines outer).map (List.map f)
  | .element tag children, outer => by
      rw [mapTags, lines_element, lines_element, List.map_cons, ← lines_map_tags_of f children]
      rfl
  | .leaf .., _ => rfl

theorem lines_map_tags_of (f : Tag → Tag) : (ns : List Node) → (outer : List Tag) →
    linesOf (outer.map f) (mapTagsOf f ns) = (linesOf outer ns).map (List.map f)
  | [], _ => rfl
  | n :: ns, outer => by
      rw [mapTagsOf, lines_of_cons, lines_of_cons, List.map_append, lines_map_tags f n,
        lines_map_tags_of f ns]

end

mutual

/-- What is around a node is around everything in it. -/
theorem suffix_of_mem_lines : (n : Node) → (outer : List Tag) → ∀ line ∈ n.lines outer,
    outer <:+ line
  | .element tag children, outer => by
      rw [lines_element, List.forall_mem_cons]
      refine ⟨List.suffix_cons tag outer, fun line hline => ?_⟩
      exact (List.suffix_cons tag outer).trans
        (suffix_of_mem_lines_of children (tag :: outer) line hline)
  | .leaf .., outer => fun line hline => absurd hline List.not_mem_nil

theorem suffix_of_mem_lines_of : (ns : List Node) → (outer : List Tag) →
    ∀ line ∈ linesOf outer ns, outer <:+ line
  | [], _ => fun line hline => absurd hline List.not_mem_nil
  | n :: ns, outer => by
      rw [lines_of_cons, List.forall_mem_append]
      exact ⟨suffix_of_mem_lines n outer, suffix_of_mem_lines_of ns outer⟩

end

mutual

/-- The tags on a line are those around the node and tags in it. -/
theorem mem_of_mem_lines : (n : Node) → (outer : List Tag) → ∀ line ∈ n.lines outer,
    ∀ tag ∈ line, tag ∈ outer ∨ tag ∈ n.tags
  | .element tag children, outer => by
      rw [lines_element, List.forall_mem_cons, tags]
      have hopen (other : Tag) (h : other ∈ tag :: outer) :
          other ∈ outer ∨ other ∈ tag :: tagsOf children := by
        rcases List.mem_cons.mp h with rfl | haround
        · exact .inr List.mem_cons_self
        · exact .inl haround
      refine ⟨hopen, fun line hline other hother => ?_⟩
      rcases mem_of_mem_lines_of children (tag :: outer) line hline other hother with
        haround | hbelow
      · exact hopen other haround
      · exact .inr (List.mem_cons_of_mem tag hbelow)
  | .leaf .., outer => fun line hline => absurd hline List.not_mem_nil

theorem mem_of_mem_lines_of : (ns : List Node) → (outer : List Tag) →
    ∀ line ∈ linesOf outer ns, ∀ tag ∈ line, tag ∈ outer ∨ tag ∈ tagsOf ns
  | [], _ => fun line hline => absurd hline List.not_mem_nil
  | n :: ns, outer => by
      rw [lines_of_cons, List.forall_mem_append, tagsOf]
      refine ⟨fun line hline tag htag => ?_, fun line hline tag htag => ?_⟩
      · exact (mem_of_mem_lines n outer line hline tag htag).imp_right (List.mem_append_left _)
      · exact (mem_of_mem_lines_of ns outer line hline tag htag).imp_right
          (List.mem_append_right _)

end

mutual

/-- An element stands right in another one, or in what is around the node. -/
theorem tail_of_mem_lines : (n : Node) → (outer : List Tag) → ∀ line ∈ n.lines outer,
    line.tail = outer ∨ line.tail ∈ n.lines outer
  | .element tag children, outer => by
      rw [lines_element, List.forall_mem_cons]
      refine ⟨.inl rfl, fun line hline => .inr ?_⟩
      rcases tail_of_mem_lines_of children (tag :: outer) line hline with hhere | hbelow
      · rw [hhere]
        exact List.mem_cons_self
      · exact List.mem_cons_of_mem _ hbelow
  | .leaf .., outer => fun line hline => absurd hline List.not_mem_nil

theorem tail_of_mem_lines_of : (ns : List Node) → (outer : List Tag) →
    ∀ line ∈ linesOf outer ns, line.tail = outer ∨ line.tail ∈ linesOf outer ns
  | [], _ => fun line hline => absurd hline List.not_mem_nil
  | n :: ns, outer => by
      rw [lines_of_cons, List.forall_mem_append]
      refine ⟨fun line hline => ?_, fun line hline => ?_⟩
      · exact (tail_of_mem_lines n outer line hline).imp_right (List.mem_append_left _)
      · exact (tail_of_mem_lines_of ns outer line hline).imp_right (List.mem_append_right _)

end

section Prune

variable {keep : Node → Bool} {test : Tag → Bool}
  (hkeep : ∀ tag children, keep (.element tag children) = test tag)

include hkeep

mutual

/-- An element stays exactly if it and all elements around it pass the test. -/
theorem lines_prune : (n : Node) → keep n = true → (outer : List Tag) → outer.all test = true →
    (n.prune keep).lines outer = (n.lines outer).filter (·.all test)
  | .element tag children, hn, outer, houter => by
      rw [hkeep] at hn
      have hall : (tag :: outer).all test = true := by rw [List.all_cons, hn, houter]; rfl
      rw [prune, lines_element, lines_element, List.filter_cons, hall, if_pos rfl,
        lines_prune_all children (tag :: outer) hall]
  | .leaf .., _, _, _ => rfl

theorem lines_prune_all : (ns : List Node) → (outer : List Tag) → outer.all test = true →
    linesOf outer (pruneAll keep ns) = (linesOf outer ns).filter (·.all test)
  | [], _, _ => rfl
  | n :: ns, outer, houter => by
      rw [pruneAll, lines_of_cons, List.filter_append, ← lines_prune_all ns outer houter]
      split
      · rename_i hn
        rw [lines_of_cons, lines_prune n hn outer houter]
      · rename_i hn
        have hgone : (n.lines outer).filter (·.all test) = [] := by
          rw [List.filter_eq_nil_iff]
          cases n with
          | leaf kind s => exact fun line hline => absurd hline List.not_mem_nil
          | element tag children =>
              rw [hkeep] at hn
              intro line hline hall
              -- the element that goes is on the line
              have hmem : tag ∈ line := by
                rw [lines_element, List.mem_cons] at hline
                rcases hline with rfl | hline
                · exact List.mem_cons_self
                · exact (suffix_of_mem_lines_of children _ line hline).subset List.mem_cons_self
              exact hn (List.all_eq_true.mp hall tag hmem)
        rw [hgone, List.nil_append]

end

end Prune

end Node

namespace Document

/-- The tags from each element outwards, in document order. -/
def lines (doc : Document) : List (List Tag) :=
  Node.linesOf [] doc.nodes

variable {doc : Document}

theorem mem_tags_of_line {line : List Tag} (h : line ∈ doc.lines) {tag : Tag} (htag : tag ∈ line) :
    tag ∈ doc.tags :=
  (Node.mem_of_mem_lines_of doc.nodes [] line h tag htag).resolve_left List.not_mem_nil

theorem tail_line {tag : Tag} {outer : List Tag} (h : tag :: outer ∈ doc.lines) :
    outer = [] ∨ outer ∈ doc.lines :=
  Node.tail_of_mem_lines_of doc.nodes [] (tag :: outer) h

theorem lines_map_tags (f : Tag → Tag) (doc : Document) :
    (doc.mapTags f).lines = doc.lines.map (List.map f) :=
  Node.lines_map_tags_of f doc.nodes []

theorem lines_prune {keep : Node → Bool} {test : Tag → Bool}
    (hkeep : ∀ tag children, keep (.element tag children) = test tag) (doc : Document) :
    (doc.prune keep).lines = doc.lines.filter (·.all test) :=
  Node.lines_prune_all hkeep doc.nodes [] rfl

end Document

end SvgPress
