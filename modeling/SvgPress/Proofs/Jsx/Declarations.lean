import SvgPress.Proofs.Jsx.Indenting
import SvgPress.Proofs.Markup.Leaves
import SvgPress.Proofs.Storage.Places

/-!
The lines at the margin of a module. The JSX of a component is put in from the margin, whatever it
is, so these lines are the module's own, and one of them opens each component. Read from there, the
names of the components are those that were written, if each of them stands on one line. A script
gives the margin no meaning: what JSX makes of a body is not looked at here, and a body that ends
its component early can declare more names than are at the margin.
-/

namespace SvgPress.Jsx

open Text (splitChars stripFront?)

/-- The lines of a text, as its line feeds divide it. -/
def linesOf (text : String) : List (List Char) :=
  splitChars (· == '\n') text.toList

/-- Whether no line of a text stands at the margin. -/
def IsInset (text : String) : Prop :=
  ∀ line ∈ linesOf text, line = [] ∨ line.head? = some ' '

/-- What a line holds between a beginning and an ending that it has to have. -/
def between? (beginning ending : String) (line : List Char) : Option String :=
  (stripFront? beginning.toList line).bind fun rest =>
    (stripFront? ending.toList.reverse rest.reverse).map fun s => String.ofList s.reverse

/-- The name with which a line at the margin opens a component. -/
def opened? (line : List Char) : Option String :=
  between? "const " " = () => (" line

/-- The names with which lines at the margin of a text open components. -/
def namesAtMargin (text : String) : List String :=
  (linesOf text).filterMap opened?

/-! ### The body of a component -/

section Lines

open Text.lines (collect ended)

theorem feed_not_mem_ended {line : List Char} (h : '\n' ∉ line) : '\n' ∉ ended line := by
  unfold ended
  split
  · exact fun hmem => h (List.mem_cons_of_mem _ (List.mem_reverse.mp hmem))
  · exact fun hmem => h (List.mem_reverse.mp hmem)

theorem feed_not_mem_collect {line : List Char} (h : '\n' ∉ line) (cs : List Char) :
    ∀ l ∈ collect line cs, '\n' ∉ l := by
  induction cs generalizing line with
  | nil =>
      rw [collect]
      split
      · exact fun l hl => absurd hl List.not_mem_nil
      · rw [List.forall_mem_singleton]
        exact fun hmem => h (List.mem_reverse.mp hmem)
  | cons c cs ih =>
      by_cases hc : c = '\n'
      · subst hc
        rw [collect, List.forall_mem_cons]
        exact ⟨feed_not_mem_ended h, ih List.not_mem_nil⟩
      · rw [collect]
        · refine ih ?_
          rw [List.mem_cons, not_or]
          exact ⟨Ne.symm hc, h⟩
        · exact hc

end Lines

theorem feed_not_mem_indent_line {line : List Char} (h : '\n' ∉ line) :
    '\n' ∉ (indentLine line).toList := by
  unfold indentLine
  split
  · simp
  · simpa using h

theorem lines_of_append_feed (front back : String) :
    linesOf (front ++ "\n" ++ back) = linesOf front ++ linesOf back := by
  rw [linesOf, String.toList_append, String.toList_append]
  show splitChars _ (front.toList ++ ['\n'] ++ back.toList) = _
  rw [List.append_assoc]
  exact Text.split_chars_append (by rfl) front.toList back.toList

theorem lines_of_line {line : String} (h : '\n' ∉ line.toList) : linesOf line = [line.toList] := by
  refine Text.split_chars_of_not fun c hc => ?_
  rw [beq_eq_false_iff_ne]
  exact fun hfeed => h (hfeed ▸ hc)

theorem inset_indent_line (line : List Char) :
    (indentLine line).toList = [] ∨ (indentLine line).toList.head? = some ' ' := by
  unfold indentLine
  split
  · exact .inl rfl
  · exact .inr (by simp)

/-- Lines that are indented are not at the margin, and what is between them is no line. -/
theorem inset_intercalate {lines : List (List Char)} (h : ∀ line ∈ lines, '\n' ∉ line) :
    IsInset ("\n".intercalate (lines.map indentLine)) := by
  induction lines with
  | nil =>
      rw [IsInset, lines_of_line (by simp)]
      simp
  | cons line lines ih =>
      rw [List.forall_mem_cons] at h
      cases lines with
      | nil =>
          rw [List.map_singleton, String.intercalate_singleton, IsInset,
            lines_of_line (feed_not_mem_indent_line h.1), List.forall_mem_singleton]
          exact inset_indent_line line
      | cons next lines =>
          rw [List.map_cons, List.map_cons, String.intercalate_cons_cons, IsInset,
            lines_of_append_feed, List.forall_mem_append,
            lines_of_line (feed_not_mem_indent_line h.1), List.forall_mem_singleton]
          exact ⟨inset_indent_line line, ih h.2⟩

theorem inset_body (jsx : String) : IsInset (bodyOf jsx) :=
  inset_intercalate (feed_not_mem_collect List.not_mem_nil jsx.toList)

/-! ### Reading at the margin -/

theorem between_append (beginning ending s : String) :
    between? beginning ending (beginning ++ s ++ ending).toList = some s := by
  have hreverse : (s.toList ++ ending.toList).reverse = ending.toList.reverse ++ s.toList.reverse :=
    List.reverse_append
  rw [between?, String.toList_append, String.toList_append, List.append_assoc,
    Markup.strip_front_append, Option.bind_some, hreverse, Markup.strip_front_append,
    Option.map_some, List.reverse_reverse, String.ofList_toList]

/-- No line of a body opens a component. -/
theorem opened_of_inset {line : List Char} (h : line = [] ∨ line.head? = some ' ') :
    opened? line = none := by
  rcases h with rfl | h
  · rfl
  · obtain ⟨rest, rfl⟩ := List.head?_eq_some_iff.mp h
    rfl

/-- Of a component on the lines of a module nothing but its name is read. -/
theorem names_component {name : String} (hname : '\n' ∉ name.toList) (jsx text : String) :
    namesAtMargin ((Component.ofJsx name jsx).source ++ "\n" ++ text) =
      name :: namesAtMargin text := by
  have hsplit : (Component.ofJsx name jsx).source ++ "\n" ++ text =
      ("const " ++ name ++ " = () => (") ++ "\n" ++ (bodyOf jsx ++ "\n" ++ (");" ++ "\n" ++
        ("" ++ "\n" ++ text))) := by
    have hopen : " = () => (\n" = " = () => (" ++ "\n" := rfl
    have hclose : "\n);\n" = "\n" ++ (");" ++ "\n") := rfl
    rw [Component.ofJsx, ← bodyOf, hopen, hclose]
    simp only [String.append_assoc, String.empty_append]
  have hline : '\n' ∉ ("const " ++ name ++ " = () => (").toList := by
    simpa using hname
  have hbody : (linesOf (bodyOf jsx)).filterMap opened? = [] :=
    List.filterMap_eq_nil_iff.mpr fun line hmem => opened_of_inset (inset_body jsx line hmem)
  have hclosing : linesOf ");" = [");".toList] := rfl
  have hempty : linesOf "" = [[]] := rfl
  have hopened : opened? ("const " ++ name ++ " = () => (").toList = some name :=
    between_append _ _ name
  have hnone : opened? ");".toList = none := rfl
  rw [namesAtMargin, hsplit, lines_of_append_feed, lines_of_append_feed, lines_of_append_feed,
    lines_of_append_feed, lines_of_line hline, hclosing, hempty]
  simp only [List.filterMap_append, List.filterMap_cons, hopened, hbody, hnone,
    opened_of_inset (.inl rfl), List.nil_append, List.singleton_append, namesAtMargin]

theorem names_components {components : List Component}
    (h : ∀ c ∈ components, ∃ name jsx, c = .ofJsx name jsx)
    (hnames : ∀ name ∈ components.map (·.name), '\n' ∉ name.toList) (text : String) :
    namesAtMargin (String.join (components.map fun c => c.source ++ "\n") ++ text) =
      components.map (·.name) ++ namesAtMargin text := by
  induction components with
  | nil => simp
  | cons c components ih =>
      rw [List.forall_mem_cons] at h
      rw [List.map_cons, List.forall_mem_cons] at hnames
      obtain ⟨⟨name, jsx, rfl⟩, hrest⟩ := h
      have hname : '\n' ∉ name.toList := hnames.1
      rw [List.map_cons, String.join_cons, String.append_assoc, names_component hname,
        ih hrest hnames.2]
      rfl

theorem feed_not_mem_intercalate {names : List String} (h : ∀ name ∈ names, '\n' ∉ name.toList) :
    '\n' ∉ (", ".intercalate names).toList := by
  induction names with
  | nil => simp
  | cons name names ih =>
      rw [List.forall_mem_cons] at h
      cases names with
      | nil => simpa using h.1
      | cons next names =>
          rw [String.intercalate_cons_cons, String.toList_append, String.toList_append,
            List.mem_append, List.mem_append, not_or, not_or]
          exact ⟨⟨h.1, by decide⟩, ih h.2⟩

/-- Where every name stands on one line, the lines at the margin of a module open its components
with their names, in their order. -/
theorem names_render {components : List Component}
    (h : ∀ c ∈ components, ∃ name jsx, c = .ofJsx name jsx)
    (hnames : ∀ name ∈ components.map (·.name), '\n' ∉ name.toList) :
    namesAtMargin (renderModule components) = components.map (·.name) := by
  have hline : '\n' ∉
      ("export \x7b " ++ ", ".intercalate (components.map (·.name)) ++ " \x7d;").toList := by
    simpa using feed_not_mem_intercalate hnames
  have hend : " \x7d;\n" = " \x7d;" ++ ("\n" ++ "") := rfl
  have hother : opened?
      ("export \x7b " ++ ", ".intercalate (components.map (·.name)) ++ " \x7d;").toList = none := by
    rw [String.append_assoc, String.toList_append]
    rfl
  have hempty : linesOf "" = [[]] := rfl
  rw [renderModule, String.append_assoc, String.append_assoc, names_components h hnames, hend,
    ← String.append_assoc, ← String.append_assoc, ← String.append_assoc, namesAtMargin,
    lines_of_append_feed, lines_of_line hline, hempty]
  simp only [List.singleton_append, List.filterMap_cons, hother, opened_of_inset (.inl rfl),
    List.filterMap_nil, List.append_nil]

end SvgPress.Jsx
