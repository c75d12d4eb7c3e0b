import SvgPress.Proofs.Markup.NormalForm

/-!
What cannot be read back is not read at all. A start tag that is read as an empty element leaves its
end tag over, and an empty element without a name is read as an end tag: either way more elements
are closed than were opened, whatever stands around them. The number of open elements is therefore
all that has to be followed through a text.
-/

namespace SvgPress

open Markup

/-- A text that, wherever it stands, either stops reading or changes the number of open elements by
`k`. -/
def Shifts (k : Int) (cs : List Char) : Prop :=
  ∀ a : Assembly, (∀ rest, a.resume (cs ++ rest) = none) ∨
    ∃ b : Assembly, (∀ rest, a.resume (cs ++ rest) = b.resume rest) ∧
      (b.opened.length : Int) = a.opened.length + k

theorem shifts_nil : Shifts 0 [] :=
  fun a => .inr ⟨a, fun _ => rfl, by simp⟩

theorem Shifts.append {j k : Int} {cs ds : List Char} (hcs : Shifts j cs) (hds : Shifts k ds) :
    Shifts (j + k) (cs ++ ds) := by
  intro a
  rcases hcs a with hstop | ⟨b, hb, hlength⟩
  · exact .inl fun rest => by rw [List.append_assoc, hstop]
  · rcases hds b with hstop | ⟨c, hc, hmore⟩
    · exact .inl fun rest => by rw [List.append_assoc, hb, hstop]
    · exact .inr ⟨c, fun rest => by rw [List.append_assoc, hb, hc], by omega⟩

namespace Assembly

@[simp] theorem opened_length_add (a : Assembly) (n : Node) :
    (a.add n).opened.length = a.opened.length := by
  unfold add
  split <;> simp_all

@[simp] theorem opened_length_put (a : Assembly) (n : Node) :
    (a.put n).opened.length = a.opened.length := by
  unfold put
  split
  · unfold addChars addText
    split
    · rfl
    · split <;> simp_all
  · exact opened_length_add a n

end Assembly

theorem shifts_blanks (s : String) (h : ∀ c ∈ s.toList, Text.isBlank c) : Shifts 0 s.toList :=
  fun a => .inr ⟨a.put (.leaf .text s), a.resume_blanks s h, by simp⟩

theorem shifts_leaf {kind : LeafKind} {s : String} (h : IsReadable kind s.toList) :
    Shifts 0 (writeLeaf kind s).toList :=
  fun a => .inr ⟨a.put (.leaf kind s), a.resume_leaf h, by simp⟩

/-- An empty doctype is not read. -/
theorem shifts_empty_doctype (k : Int) : Shifts k (writeLeaf .doctype "").toList := by
  intro a
  refine .inl fun rest => ?_
  have hcut : doctypeContent? 0 ("!DOCTYPE ".toList ++ '>' :: rest) =
      some ("!DOCTYPE ".toList, rest) := doctype_content_iff.mpr ⟨rfl, by decide +kernel⟩
  have hnone : ((writeLeaf .doctype "").toList ++ rest) =
      '<' :: ("!DOCTYPE ".toList ++ '>' :: rest) := rfl
  have herror : markup a.openNames ("!DOCTYPE ".toList ++ '>' :: rest) =
      .error (10, .doctypeWithoutName) := by
    change doctype a.openNames ("!DOCTYPE ".toList ++ '>' :: rest) = _
    unfold doctype
    split
    · rename_i hfault
      rw [hcut] at hfault
      cases hfault
    · rename_i content after hfound
      rw [hcut] at hfound
      cases hfound
      rfl
  rw [hnone, Assembly.resume_markup, herror]

variable {tag : Tag}

theorem shifts_start (h : tag.IsPlain) (hopen : tag.written.getLast? ≠ some '/') :
    Shifts 1 (tag.writeOpening ++ ">").toList := by
  intro a
  refine .inr ⟨a.enter tag, fun rest => ?_, by simp [Assembly.enter]⟩
  rw [← a.resume_enter h hopen]
  simp

theorem shifts_single (h : tag.IsPlain) (hne : tag.written ≠ []) :
    Shifts 0 (tag.writeOpening ++ "/>").toList := by
  intro a
  refine .inr ⟨a.add (.element tag []), fun rest => ?_, by simp⟩
  rw [← a.resume_single h hne]
  simp

/-- A start tag that is read as an empty element. -/
theorem shifts_start_slash (h : tag.IsPlain) (hlast : tag.written.getLast? = some '/') :
    Shifts 0 (tag.writeOpening ++ ">").toList := by
  intro a
  obtain ⟨name, attributes, htakes⟩ := markup_start_slash a.openNames h hlast
  have hwritten (rest : List Char) : (tag.writeOpening ++ ">").toList ++ rest =
      '<' :: (tag.written ++ '>' :: rest) := by
    simp [Tag.to_list_write_opening]
  cases attributes with
  | error fault =>
      refine .inl fun rest => ?_
      rw [hwritten, a.resume_takes (htakes rest)]
      rfl
  | ok attributes =>
      refine .inr ⟨a.add (.element ⟨name, attributes⟩ []), fun rest => ?_, by simp⟩
      rw [hwritten, a.resume_takes (htakes rest)]
      rfl

/-- An end tag closes an element or stops reading. -/
theorem shifts_end (h : tag.IsPlain) : Shifts (-1) tag.writeClosing.toList := by
  rintro ⟨opened, top⟩
  have hclosing (rest : List Char) : tag.writeClosing.toList ++ rest =
      '<' :: '/' :: (tag.name.toList ++ '>' :: rest) := by
    simp [Tag.to_list_write_closing]
  by_cases hopened : (Assembly.mk opened top).openNames.head? = some tag.name
  · cases opened with
    | nil => simp [Assembly.openNames] at hopened
    | cons inner outer =>
        have hname : inner.tag.name = tag.name := by
          simpa [Assembly.openNames] using hopened
        refine .inr
            ⟨(Assembly.mk outer top).add (.element inner.tag (Assembly.settled inner outer)),
          fun rest => ?_, by simp only [Assembly.opened_length_add, List.length_cons]; omega⟩
        have htakes : Takes
            (markup (Assembly.mk (inner :: outer) top).openNames
              ('/' :: (tag.name.toList ++ '>' :: rest)))
            (outer.map (·.tag.name)) (.close tag.name) rest := by
          rw [Assembly.openNames, List.map_cons, hname]
          exact markup_end _ h rest
        rw [hclosing, Assembly.resume_takes _ htakes]
        simp [Assembly.step, hname]
  · refine .inl fun rest => ?_
    rw [hclosing, Assembly.resume_markup]
    cases hmarkup : markup (Assembly.mk opened top).openNames
        ('/' :: (tag.name.toList ++ '>' :: rest)) with
    | error fault => rfl
    | ok step => exact absurd (markup_end_opened _ h hmarkup) hopened

/-- Whether what is written for a node can stand for it: a doctype names something, and the tag of
an element is told from other markup. -/
def Node.IsWritable : Node → Prop
  | .leaf kind s => kind = .doctype → s ≠ ""
  | .element tag children => tag.isLegible children

instance (n : Node) : Decidable n.IsWritable :=
  match n with
  | .leaf kind s => inferInstanceAs (Decidable (kind = .doctype → s ≠ ""))
  | .element tag children => inferInstanceAs (Decidable (tag.isLegible children = true))

namespace Node

/-- What is needed of a node that was read for its text to be followed. -/
def IsFollowed : Node → Prop
  | .leaf kind s => IsReadLeaf kind s
  | .element tag _ => tag.IsPlain

/-- An empty element without a name and without attributes is an end tag. -/
theorem shifts_empty_element {tag : Tag} (h : tag.IsPlain) :
    ∃ k : Int, k ≤ 0 ∧ (¬ tag.isLegible [] → k < 0) ∧
      Shifts k (tag.writeOpening ++ "/>").toList := by
  by_cases hwritten : tag.written = []
  · refine ⟨-1, by omega, fun _ => by omega, ?_⟩
    have hname : tag.name.toList = [] := (List.append_eq_nil_iff.mp hwritten).1
    have hclosing : (tag.writeOpening ++ "/>").toList = tag.writeClosing.toList := by
      simp [Tag.to_list_write_opening, Tag.to_list_write_closing, hwritten, hname]
    rw [hclosing]
    exact shifts_end h
  · refine ⟨0, by omega, fun hlegible => ?_, shifts_single h hwritten⟩
    refine absurd ?_ hwritten
    simp only [Tag.isLegible, List.isEmpty_nil, if_true, Bool.or_eq_true, Bool.not_eq_true',
      bne_iff_ne, ne_eq, not_or, Bool.not_eq_false, Decidable.not_not, List.isEmpty_iff]
      at hlegible
    simp [Tag.written, hlegible]

/-- A start tag that ends in a slash opens nothing. -/
theorem shifts_start_tag {tag : Tag} (h : tag.IsPlain) {children : List Node}
    (hne : children.isEmpty = false) :
    ∃ k : Int, k ≤ 1 ∧ (¬ tag.isLegible children → k < 1) ∧
      Shifts k (tag.writeOpening ++ ">").toList := by
  by_cases hlast : tag.written.getLast? = some '/'
  · exact ⟨0, by omega, fun _ => by omega, shifts_start_slash h hlast⟩
  · refine ⟨1, by omega, fun hlegible => ?_, shifts_start h hlast⟩
    refine absurd ?_ hlast
    simp only [Tag.isLegible, hne, Bool.false_eq_true, if_false, Bool.or_eq_true,
      Bool.not_eq_true', bne_iff_ne, ne_eq, not_or, Bool.not_eq_false, Decidable.not_not,
      List.isEmpty_iff] at hlegible
    simp [Tag.written, hlegible]

mutual

/-- A node closes at least what it opens, and more if anything in it cannot be read back. -/
theorem shifts_body {kept : Bool} : (n : Node) → (layout : Layout) → (depth : Nat) →
    n.Everywhere (fun _ n => n.IsFollowed) kept →
    ∃ k : Int, k ≤ 0 ∧ (¬ n.Everywhere (fun _ n => n.IsWritable) kept → k < 0) ∧
      Shifts k (n.body layout depth).toList
  | .leaf kind s, _, _, h => by
      rcases h with ⟨hreadable, hempty⟩ | ⟨rfl, rfl⟩
      · refine ⟨0, by omega, fun hnot => absurd ?_ hnot, shifts_leaf hreadable⟩
        rintro rfl rfl
        exact hreadable.1 rfl
      · exact ⟨-1, by omega, fun _ => by omega, shifts_empty_doctype (-1)⟩
  | .element tag children, layout, depth, h => by
      obtain ⟨hplain, hchildren⟩ := h
      cases hempty : children.isEmpty with
      | true =>
          obtain rfl := List.isEmpty_iff.mp hempty
          obtain ⟨k, hk, hlegible, hshifts⟩ := shifts_empty_element hplain
          refine ⟨k, hk, fun hnot => hlegible fun h => hnot ⟨h, trivial⟩, ?_⟩
          exact hshifts
      | false =>
          let inner := layout.inside children
          obtain ⟨j, hj, hlegible, hstart⟩ := shifts_start_tag hplain hempty
          obtain ⟨k, hk, hwritable, hall⟩ := shifts_write_all children inner (depth + 1) hchildren
          refine ⟨j + 0 + k + 0 + -1, by omega, fun hnot => ?_, ?_⟩
          · by_cases h : tag.isLegible children
            · have := hwritable fun hall => hnot ⟨h, hall⟩
              omega
            · have := hlegible h
              omega
          · have hbody : ((Node.element tag children).body layout depth).toList =
                (tag.writeOpening ++ ">").toList ++ inner.newline.toList ++
                  (writeAll inner (depth + 1) children).toList ++ (inner.pad depth).toList ++
                  tag.writeClosing.toList := by
              simp [body, hempty, inner]
            rw [hbody]
            exact (((hstart.append (shifts_blanks _ inner.blank_newline)).append hall).append
              (shifts_blanks _ (inner.blank_pad depth))).append (shifts_end hplain)

theorem shifts_write_all {kept : Bool} : (ns : List Node) → (layout : Layout) → (depth : Nat) →
    EverywhereIn (fun _ n => n.IsFollowed) kept ns →
    ∃ k : Int, k ≤ 0 ∧ (¬ EverywhereIn (fun _ n => n.IsWritable) kept ns → k < 0) ∧
      Shifts k (writeAll layout depth ns).toList
  | [], layout, depth, h => ⟨0, by omega, fun hnot => absurd trivial hnot, shifts_nil⟩
  | n :: ns, layout, depth, h => by
      obtain ⟨j, hj, hnode, hbody⟩ := shifts_body n layout depth h.1
      obtain ⟨k, hk, hnodes, hall⟩ := shifts_write_all ns layout depth h.2
      refine ⟨0 + j + 0 + k, by omega, fun hnot => ?_, ?_⟩
      · by_cases h : n.Everywhere (fun _ n => n.IsWritable) kept
        · have := hnodes fun hall => hnot ⟨h, hall⟩
          omega
        · have := hnode h
          omega
      · rw [writeAll, write_eq]
        simp only [String.toList_append]
        exact (((shifts_blanks _ (layout.blank_pad depth)).append hbody).append
          (shifts_blanks _ layout.blank_newline)).append hall

end

end Node

/-- Of a document in which something cannot be read back nothing is read: it would close more
elements than it opens. -/
theorem Document.parse_write_unwritable {doc : Document} (htext : doc.IsTextless)
    (hfollowed : Node.EverywhereIn (fun _ n => n.IsFollowed) false doc.nodes)
    (hnot : ¬ Node.EverywhereIn (fun _ n => n.IsWritable) false doc.nodes) (layout : Layout) :
    (parse (doc.write layout)).toOption = none := by
  rcases List.eq_nil_or_concat doc.nodes with hnil | ⟨front, last, hconcat⟩
  · rw [hnil] at hnot
    exact absurd trivial hnot
  · rw [List.concat_eq_append] at hconcat
    have hlast := htext last (by simp [hconcat])
    rw [hconcat, Node.everywhere_in_iff] at hfollowed hnot
    obtain ⟨j, hj, hfront, hall⟩ := Node.shifts_write_all front layout 0
      (Node.everywhere_in_iff.mpr fun n hn => hfollowed n (List.mem_append_left _ hn))
    obtain ⟨k, hk, hend, hbody⟩ := Node.shifts_body last layout 0
      (hfollowed last (List.mem_append_right _ List.mem_cons_self))
    have hnegative : j + (0 + k) < 0 := by
      by_cases h : Node.EverywhereIn (fun _ n => n.IsWritable) false front
      · have := hend fun h' => hnot fun n hn => by
          rcases List.mem_append.mp hn with hn | hn
          · exact Node.everywhere_in_iff.mp h n hn
          · rw [List.mem_singleton.mp hn]
            exact h'
        omega
      · have := hfront h
        omega
    have hshifts := hall.append ((shifts_blanks _ (layout.blank_pad 0)).append hbody)
    rw [← write_chars layout hconcat hlast] at hshifts
    rw [parse_to_option _ (head_write htext layout)]
    rcases hshifts .empty with hstop | ⟨b, -, hlength⟩
    · simpa using hstop []
    · simp only [Assembly.empty, List.length_nil] at hlength
      omega

end SvgPress
