import SvgPress.Proofs.Markup.Firmness

/-!
A document that is written, read and written again. Reading can trim a text, and it can drop padding
that stands inside padding it keeps, where the second writing does not put it back; otherwise the
two texts are the same.
-/

namespace SvgPress

open Markup

section Map

/-! ### What reading does to a list of nodes, apart from what it does to each of them -/

variable {f : Node → Node} (hleaf : ∀ kind s, f (.leaf kind s) = .leaf kind s)
  (helement : ∀ n, (f n).isElement = n.isElement)

include hleaf helement

theorem is_leaf_of_maps (kind : LeafKind) (n : Node) : (f n).isLeaf kind = n.isLeaf kind := by
  cases n with
  | leaf k s => rw [hleaf]
  | element tag children =>
      have hf := helement (.element tag children)
      cases hn : f (.element tag children) with
      | element tag' children' => rfl
      | leaf k s =>
          rw [hn] at hf
          cases hf

theorem shows_text_of_maps (n : Node) : (f n).showsText = n.showsText := by
  rcases n.text_or_other with ⟨s, rfl⟩ | hother
  · rw [hleaf]
  · rw [Node.shows_text_of_other hother, Node.shows_text_of_other]
    rw [is_leaf_of_maps hleaf helement, hother]

theorem join_texts_map (ns : List Node) : joinTexts (ns.map f) = (joinTexts ns).map f := by
  have hfront (s : String) (ms : List Node) : joinFront s (ms.map f) = (joinFront s ms).map f := by
    cases ms with
    | nil => simp [joinFront, hleaf]
    | cons m ms =>
        rcases m.text_or_other with ⟨t, rfl⟩ | hother
        · simp [joinFront, hleaf]
        · have hmapped : (f m).isLeaf .text = false := by
            rw [is_leaf_of_maps hleaf helement, hother]
          rw [List.map_cons, join_front_other hmapped, join_front_other hother]
          simp [hleaf]
  induction ns with
  | nil => rfl
  | cons n ns ih =>
      rcases n.text_or_other with ⟨s, rfl⟩ | hother
      · rw [List.map_cons, hleaf]
        by_cases hs : s = ""
        · rw [hs, join_texts_empty, join_texts_empty, ih]
        · rw [join_texts_text hs, join_texts_text hs, ih, hfront]
      · have hmapped : (f n).isLeaf .text = false := by
          rw [is_leaf_of_maps hleaf helement, hother]
        rw [List.map_cons, join_texts_other hmapped, join_texts_other hother, ih, List.map_cons]

theorem text_mem_map_iff {s : String} {ns : List Node} :
    .leaf .text s ∈ ns.map f ↔ Node.leaf .text s ∈ ns := by
  rw [List.mem_map]
  constructor
  · rintro ⟨n, hn, hf⟩
    cases n with
    | element tag children =>
        have h := helement (.element tag children)
        rw [hf] at h
        cases h
    | leaf kind t =>
        rw [hleaf] at hf
        rwa [← hf]
  · exact fun h => ⟨_, h, hleaf _ _⟩

/-- Whether the texts stay depends on nothing but the texts, and on whether elements stand among
them. -/
theorem firm_map_iff (tag : Tag) (kept : Bool) (ns : List Node) :
    settle tag kept (joinTexts (ns.map f)) = joinTexts (ns.map f) ↔
      settle tag kept (joinTexts ns) = joinTexts ns := by
  rw [join_texts_map hleaf helement]
  generalize joinTexts ns = ms
  have hkeeps : keepsOwnSpace tag (ms.map f) = keepsOwnSpace tag ms := by
    have helements : Node.isElement ∘ f = Node.isElement := funext helement
    have htexts : Node.showsText ∘ f = Node.showsText := funext (shows_text_of_maps hleaf helement)
    rw [keepsOwnSpace, keepsOwnSpace, isMixed, isMixed, List.any_map, List.any_map, helements,
      htexts]
  unfold settle
  rw [hkeeps]
  split
  · simp
  · simp only [Node.trim_texts_eq_iff, text_mem_map_iff hleaf helement]

end Map

/-- Whether an element keeps white space whatever stands in it. -/
def Tag.keepsPadding (tag : Tag) (kept : Bool) : Bool :=
  textElements.contains tag.name || tag.preservesSpace || kept

namespace Node

/-- Whether reading leaves the texts of an element as they are, once they are joined. -/
def IsFirm (kept : Bool) : Node → Prop
  | .leaf .. => True
  | .element tag children => settle tag kept (joinTexts children) = joinTexts children

/-- Whether text is there for a reason: no text is empty, and an element with texts keeps white
space unless one of them is more than that. -/
def IsTextSound (kept : Bool) : Node → Prop
  | .leaf kind s => kind = .text → s ≠ ""
  | .element tag children =>
    children.any (isLeaf .text) → tag.keepsPadding kept ∨ children.any showsText

mutual

/-- A property of the elements that are written on lines of their own, which no element with text
contains. -/
def OnLines (p : Bool → Tag → List Node → Prop) (kept : Bool) : Node → Prop
  | .leaf .. => True
  | .element tag children =>
    children.any (isLeaf .text) = false →
      p kept tag children ∧ OnLinesIn p (kept || tag.preservesSpace) children
termination_by structural n => n

def OnLinesIn (p : Bool → Tag → List Node → Prop) (kept : Bool) : List Node → Prop
  | [] => True
  | n :: rest => n.OnLines p kept ∧ OnLinesIn p kept rest
termination_by structural ns => ns

end

mutual

def decideOnLines {p : Bool → Tag → List Node → Prop}
    [∀ kept tag children, Decidable (p kept tag children)] : (n : Node) → (kept : Bool) →
    Decidable (n.OnLines p kept)
  | .leaf .., _ => .isTrue trivial
  | .element tag children, kept =>
    have := decideOnLinesIn (p := p) children (kept || tag.preservesSpace)
    inferInstanceAs (Decidable (children.any (isLeaf .text) = false →
      p kept tag children ∧ OnLinesIn p (kept || tag.preservesSpace) children))
termination_by structural n => n

def decideOnLinesIn {p : Bool → Tag → List Node → Prop}
    [∀ kept tag children, Decidable (p kept tag children)] : (ns : List Node) → (kept : Bool) →
    Decidable (OnLinesIn p kept ns)
  | [], _ => .isTrue trivial
  | n :: rest, kept =>
    have := decideOnLines (p := p) n kept
    have := decideOnLinesIn (p := p) rest kept
    inferInstanceAs (Decidable (n.OnLines p kept ∧ OnLinesIn p kept rest))
termination_by structural ns => ns

end

instance {p : Bool → Tag → List Node → Prop} [∀ kept tag children, Decidable (p kept tag children)]
    (kept : Bool) (ns : List Node) : Decidable (OnLinesIn p kept ns) :=
  decideOnLinesIn ns kept

instance (kept : Bool) (n : Node) : Decidable (n.IsFirm kept) :=
  match n with
  | .leaf .. => .isTrue trivial
  | .element tag children =>
    inferInstanceAs (Decidable (settle tag kept (joinTexts children) = joinTexts children))

theorem everywhere_in_append {p : Bool → Node → Prop} {kept : Bool} {ns ms : List Node} :
    EverywhereIn p kept (ns ++ ms) ↔ EverywhereIn p kept ns ∧ EverywhereIn p kept ms := by
  simp only [everywhere_in_iff, List.forall_mem_append]

theorem on_lines_in_append {p : Bool → Tag → List Node → Prop} {kept : Bool} {ns ms : List Node} :
    OnLinesIn p kept (ns ++ ms) ↔ OnLinesIn p kept ns ∧ OnLinesIn p kept ms := by
  induction ns with
  | nil => simp [OnLinesIn]
  | cons n ns ih => simp [OnLinesIn, ih, and_assoc]

/-- Whether an element keeps its padding, if it has any. -/
def KeepsPadding (kept : Bool) (tag : Tag) (children : List Node) : Prop :=
  children ≠ [] → tag.keepsPadding kept

/-- Whether, where an element keeps its padding, all the elements in it do. -/
def KeepsPaddingWithin (kept : Bool) (tag : Tag) (children : List Node) : Prop :=
  tag.keepsPadding kept → OnLinesIn KeepsPadding (kept || tag.preservesSpace) children

instance (kept : Bool) (tag : Tag) (children : List Node) :
    Decidable (KeepsPadding kept tag children) :=
  inferInstanceAs (Decidable (children ≠ [] → tag.keepsPadding kept))

instance (kept : Bool) (tag : Tag) (children : List Node) :
    Decidable (KeepsPaddingWithin kept tag children) :=
  inferInstanceAs (Decidable (tag.keepsPadding kept →
    OnLinesIn KeepsPadding (kept || tag.preservesSpace) children))

theorem join_texts_ne_nil {ns : List Node} (hne : ns ≠ []) (h : Node.leaf .text "" ∉ ns) :
    joinTexts ns ≠ [] := by
  cases ns with
  | nil => exact absurd rfl hne
  | cons n ns =>
      rw [List.mem_cons, not_or] at h
      rcases n.text_or_other with ⟨s, rfl⟩ | hother
      · rw [join_texts_text (fun hs => h.1 (by rw [hs]))]
        unfold joinFront
        split <;> simp
      · rw [join_texts_other hother]
        exact List.cons_ne_nil _ _

theorem not_mem_of_text_sound {kept : Bool} {ns : List Node}
    (h : EverywhereIn IsTextSound kept ns) :
    Node.leaf .text "" ∉ ns :=
  fun hmem => everywhere_in_iff.mp h _ hmem rfl rfl

theorem settle_nil (tag : Tag) (kept : Bool) : settle tag kept [] = [] := by
  unfold settle
  split <;> rfl

theorem reread_leaf (layout : Layout) (depth : Nat) (kept : Bool) (kind : LeafKind) (s : String) :
    (Node.leaf kind s).reread layout depth kept = .leaf kind s := rfl

theorem firm_reread_iff (layout : Layout) (depth : Nat) (outside kept : Bool) (tag : Tag)
    (ns : List Node) :
    settle tag kept (joinTexts (rereadAll layout depth outside ns)) =
        joinTexts (rereadAll layout depth outside ns) ↔
      settle tag kept (joinTexts ns) = joinTexts ns := by
  rw [reread_all_eq_map]
  exact firm_map_iff (reread_leaf layout depth outside) (is_element_reread layout depth outside) tag
    kept ns

/-- An element around something that was written again. -/
theorem shrinks_element (tag : Tag) {before : String} {after : List Node} {p : Prop}
    (h : Shrinks String.length before (writeInlineAll after) p) (hsome : p → after ≠ []) :
    Shrinks String.length (tag.writeOpening ++ (">" ++ before ++ tag.writeClosing))
      (Node.element tag after).writeInline p := by
  rw [writeInline]
  cases after with
  | nil =>
      refine .of_less (fun hp => hsome hp rfl) ?_
      have hclosing : 3 ≤ tag.writeClosing.length := by
        have hopen : ("</" : String).length = 2 := rfl
        have hclose : (">" : String).length = 1 := rfl
        rw [Tag.writeClosing, String.length_append, String.length_append]
        omega
      have hend : ("/>" : String).length = 2 := rfl
      simp only [List.isEmpty_nil, if_true, String.length_append]
      omega
  | cons n ns =>
      have htags := (((Shrinks.refl (tag.writeOpening ++ ">") trivial).append String.length_append
        h).append String.length_append (Shrinks.refl tag.writeClosing trivial)).congr (q := p)
          (by simp)
      simpa [String.append_assoc] using htags

mutual

/-- On one line: what is written again is the same if every text stays. -/
theorem shrinks_inline : (n : Node) → (depth : Nat) → (kept : Bool) →
    n.Everywhere IsTextSound kept →
    Shrinks String.length n.writeInline (n.reread .compact depth kept).writeInline
      (n.Everywhere IsFirm kept)
  | .leaf .., _, _, _ => .refl _ trivial
  | .element tag children, depth, kept, h => by
      have hinside : Layout.compact.inside children = .compact := by
        unfold Layout.inside
        split <;> rfl
      let inner := kept || tag.preservesSpace
      let again := rereadAll .compact (depth + 1) inner children
      have hread : Shrinks String.length (writeInlineAll children) (writeInlineAll again)
          (EverywhereIn IsFirm inner children) :=
        shrinks_inline_all children (depth + 1) inner h.2
      have hfirm := firm_reread_iff .compact (depth + 1) inner kept tag children
      have hinner := (hread.trans (shrinks_settle tag kept again)).congr
        ((and_congr_right' hfirm).trans and_comm)
      rw [reread, hinside, join_texts_spread_compact]
      by_cases hnil : children = []
      · subst hnil
        have hnone : settle tag kept (joinTexts ([] : List Node)) = [] := settle_nil tag kept
        have hempty : settle tag kept (joinTexts again) = [] := hnone
        rw [hempty]
        exact .refl _ ⟨hnone, trivial⟩
      · have hwrite : (Node.element tag children).writeInline =
            tag.writeOpening ++ (">" ++ writeInlineAll children ++ tag.writeClosing) := by
          rw [writeInline, if_neg (by simpa using hnil)]
          simp only [String.append_assoc]
        rw [hwrite]
        refine shrinks_element tag hinner fun hp => ?_
        have hstays : settle tag kept (joinTexts again) = joinTexts again := hfirm.mpr hp.1
        rw [hstays]
        apply join_texts_ne_nil
        · simpa [again, reread_all_eq_map] using hnil
        · have hnone := not_mem_of_text_sound h.2
          rwa [← text_mem_map_iff (reread_leaf .compact (depth + 1) inner)
            (is_element_reread .compact (depth + 1) inner), ← reread_all_eq_map] at hnone

theorem shrinks_inline_all : (ns : List Node) → (depth : Nat) → (kept : Bool) →
    EverywhereIn IsTextSound kept ns →
    Shrinks String.length (writeInlineAll ns) (writeInlineAll (rereadAll .compact depth kept ns))
      (EverywhereIn IsFirm kept ns)
  | [], _, _, _ => .refl _ trivial
  | n :: ns, depth, kept, h => by
      rw [rereadAll, writeInlineAll, writeInlineAll]
      exact (shrinks_inline n depth kept h.1).append String.length_append
        (shrinks_inline_all ns depth kept h.2)

end

theorem write_inline_all_around (layout : Layout) (depth : Nat) (n : Node) :
    writeInlineAll (layout.around depth n) =
      layout.pad depth ++ n.writeInline ++ layout.newline := by
  rw [Layout.around, writeInlineAll, writeInlineAll, writeInlineAll, writeInlineAll,
    write_inline_blank (layout.blank_pad depth), write_inline_blank layout.blank_newline,
    String.append_empty, String.append_assoc]

theorem write_inline_all_spread (layout : Layout) (depth : Nat) {ns : List Node} (hne : ns ≠ []) :
    writeInlineAll (layout.spread depth ns) =
      layout.newline ++ writeInlineAll (ns.flatMap (layout.around (depth + 1))) ++
        layout.pad depth := by
  rw [Layout.spread, if_neg (by simpa using hne), write_inline_all_append, writeInlineAll,
    write_inline_blank layout.blank_newline, writeInlineAll, writeInlineAll,
    write_inline_blank (layout.blank_pad depth), String.append_empty]

/-- An element with text is written the same way in every layout. -/
theorem body_of_text {tag : Tag} {children : List Node} (h : children.any (isLeaf .text))
    (layout : Layout) (depth : Nat) :
    (Node.element tag children).body layout depth = (Node.element tag children).writeInline := by
  have hinside : layout.inside children = .compact := if_pos h
  rw [body, hinside, writeInline, write_inline_all_eq children (depth + 1)]
  split <;> simp [Layout.compact, Layout.newline, Layout.pad, String.append_assoc]

/-- So it is read back the same way. -/
theorem reread_of_text {tag : Tag} {children : List Node} (h : children.any (isLeaf .text))
    (layout : Layout) (depth : Nat) (kept : Bool) :
    (Node.element tag children).reread layout depth kept =
      (Node.element tag children).reread .compact depth kept := by
  have hinside (layout : Layout) : layout.inside children = .compact := if_pos h
  rw [reread, reread, hinside, hinside]

theorem join_texts_of_textless {ns : List Node} (h : ns.any (isLeaf .text) = false) :
    joinTexts ns = ns := by
  induction ns with
  | nil => rfl
  | cons n ns ih =>
      rw [List.any_cons, Bool.or_eq_false_iff] at h
      rw [join_texts_other h.1, ih h.2]

theorem firm_of_textless {tag : Tag} {kept : Bool} {children : List Node}
    (h : children.any (isLeaf .text) = false) :
    settle tag kept (joinTexts children) = joinTexts children := by
  rw [join_texts_of_textless h]
  unfold settle
  split
  · rfl
  · rw [trim_texts_eq_iff]
    intro s hs
    exact absurd rfl (List.any_eq_false.mp h _ hs)

theorem any_text_reread_all (layout : Layout) (depth : Nat) (kept : Bool) (ns : List Node) :
    (rereadAll layout depth kept ns).any (isLeaf .text) = ns.any (isLeaf .text) := by
  rw [reread_all_eq_map, List.any_map]
  congr 1
  funext n
  exact is_leaf_reread .text layout depth kept n

theorem reread_empty (tag : Tag) (layout : Layout) (depth : Nat) (kept : Bool) :
    (Node.element tag []).reread layout depth kept = .element tag [] := by
  rw [reread, rereadAll, Layout.spread, if_pos List.isEmpty_nil, joinTexts, settle_nil]

theorem write_inline_around_ge (layout : Layout) (depth : Nat) (ns : List Node) :
    (writeInlineAll ns).length ≤ (writeInlineAll (ns.flatMap (layout.around depth))).length := by
  induction ns with
  | nil => exact Nat.le_refl _
  | cons n ns ih =>
      rw [List.flatMap_cons, write_inline_all_append, write_inline_all_around, writeInlineAll]
      simp only [String.length_append]
      omega

/-- An element on lines of its own. -/
theorem body_on_lines {tag : Tag} {children : List Node}
    (htext : children.any (isLeaf .text) = false)
    (hne : children ≠ []) (layout : Layout) (depth : Nat) :
    (Node.element tag children).body layout depth = tag.writeOpening ++ (">" ++ (layout.newline ++
      writeAll layout (depth + 1) children ++ layout.pad depth) ++ tag.writeClosing) := by
  have hinside : layout.inside children = layout := if_neg (by simp [htext])
  rw [body, hinside, if_neg (by simpa using hne)]
  simp only [String.append_assoc]

/-- An element that keeps its padding: from then on this is text. -/
theorem reread_of_keeps {tag : Tag} {children : List Node}
    (htext : children.any (isLeaf .text) = false) (layout : Layout) (depth : Nat) {kept : Bool}
    (hkeeps : tag.keepsPadding kept) :
    (Node.element tag children).reread layout depth kept = .element tag (joinTexts
      (layout.spread depth
        (rereadAll layout (depth + 1) (kept || tag.preservesSpace) children))) := by
  have hinside : layout.inside children = layout := if_neg (by simp [htext])
  rw [reread, hinside, settle_spread_of_keeps hkeeps]

/-- An element that drops its padding. -/
theorem reread_of_not_keeps {tag : Tag} {children : List Node}
    (htext : children.any (isLeaf .text) = false) (layout : Layout) (depth : Nat) {kept : Bool}
    (hkeeps : tag.keepsPadding kept = false) :
    (Node.element tag children).reread layout depth kept = .element tag
      (rereadAll layout (depth + 1) (kept || tag.preservesSpace) children) := by
  have hinside : layout.inside children = layout := if_neg (by simp [htext])
  have hnone : (rereadAll layout (depth + 1) (kept || tag.preservesSpace)
      children).any (isLeaf .text) = false := by
    rw [any_text_reread_all, htext]
  rw [reread, hinside, settle_spread_of_not_keeps hkeeps layout depth hnone]

theorem shrinks_kept {tag : Tag} {children : List Node}
    (htext : children.any (isLeaf .text) = false)
    (hne : children ≠ []) {layout : Layout} (hpretty : layout.pretty) (depth : Nat) {kept : Bool}
    (hkeeps : tag.keepsPadding kept) {p : Prop}
    (hread : Shrinks String.length (writeAll layout (depth + 1) children)
      (writeInlineAll ((rereadAll layout (depth + 1) (kept || tag.preservesSpace) children).flatMap
        (layout.around (depth + 1)))) p) :
    Shrinks String.length ((Node.element tag children).body layout depth)
      ((Node.element tag children).reread layout depth kept).writeInline p := by
  rw [body_on_lines htext hne, reread_of_keeps htext layout depth hkeeps]
  generalize hagain :
    rereadAll layout (depth + 1) (kept || tag.preservesSpace) children = again at *
  have hsome : again ≠ [] := by
    rw [← hagain, reread_all_eq_map]
    simpa using hne
  obtain ⟨s, rest, hhead⟩ := Layout.head_join_texts_spread hpretty depth
    (show again.isEmpty = false by simpa using hsome)
  have hinner := ((Shrinks.refl layout.newline trivial).append String.length_append
    hread).append String.length_append (Shrinks.refl (layout.pad depth) trivial)
  rw [← write_inline_all_spread layout depth hsome,
    ← write_inline_join_texts (layout.spread depth again)] at hinner
  refine (shrinks_element tag hinner fun _ => by rw [hhead]; simp).congr ?_
  simp

mutual

/-- Where padding is kept, a node is written on one line from then on. What was put on lines of its
own stays so if the padding in it is kept as well. -/
theorem shrinks_padded : (n : Node) → (layout : Layout) → layout.pretty → (depth : Nat) →
    (kept : Bool) → n.Everywhere IsTextSound kept →
    Shrinks String.length (n.body layout depth) (n.reread layout depth kept).writeInline
      (n.Everywhere IsFirm kept ∧ n.OnLines KeepsPadding kept)
  | .leaf .., _, _, _, _, _ => .refl _ ⟨trivial, trivial⟩
  | .element tag children, layout, hpretty, depth, kept, h => by
      cases htext : children.any (isLeaf .text) with
      | true =>
          rw [body_of_text htext, reread_of_text htext]
          refine (shrinks_inline _ depth kept h).congr ⟨fun hfirm => ⟨hfirm, ?_⟩, fun hp => hp.1⟩
          intro hnone
          rw [htext] at hnone
          cases hnone
      | false =>
          have hfirm : settle tag kept (joinTexts children) = joinTexts children :=
            firm_of_textless htext
          have hread := shrinks_padded_all children layout hpretty (depth + 1) _ h.2
          by_cases hnil : children = []
          · subst hnil
            rw [reread_empty]
            exact .refl _ ⟨⟨hfirm, trivial⟩, fun _ => ⟨fun hne => absurd rfl hne, trivial⟩⟩
          · cases hkeeps : tag.keepsPadding kept with
            | true =>
                refine (shrinks_kept htext hnil hpretty depth hkeeps hread).congr ?_
                constructor
                · rintro ⟨hchildren, hlines⟩
                  exact ⟨⟨hfirm, hchildren⟩, fun _ => ⟨fun _ => hkeeps, hlines⟩⟩
                · rintro ⟨hchildren, hlines⟩
                  exact ⟨hchildren.2, (hlines htext).2⟩
            | false =>
                rw [body_on_lines htext hnil, reread_of_not_keeps htext layout depth hkeeps]
                refine .of_less (fun hp => ?_) ?_
                · have hmust := (hp.2 htext).1 hnil
                  rw [hkeeps] at hmust
                  cases hmust
                · have hle := hread.size_le
                  have hpads := write_inline_around_ge layout (depth + 1)
                    (rereadAll layout (depth + 1) (kept || tag.preservesSpace) children)
                  have hnewline : 0 < layout.newline.length := by
                    rw [Layout.newline, if_pos hpretty]
                    decide
                  rw [writeInline, if_neg (by simpa [reread_all_eq_map] using hnil)]
                  simp only [String.length_append]
                  omega

theorem shrinks_padded_all : (ns : List Node) → (layout : Layout) → layout.pretty → (depth : Nat) →
    (kept : Bool) → EverywhereIn IsTextSound kept ns →
    Shrinks String.length (writeAll layout depth ns)
      (writeInlineAll ((rereadAll layout depth kept ns).flatMap (layout.around depth)))
      (EverywhereIn IsFirm kept ns ∧ OnLinesIn KeepsPadding kept ns)
  | [], _, _, _, _, _ => .refl _ ⟨trivial, trivial⟩
  | n :: ns, layout, hpretty, depth, kept, h => by
      have hfirst := shrinks_padded n layout hpretty depth kept h.1
      have hrest := shrinks_padded_all ns layout hpretty depth kept h.2
      have hone := ((Shrinks.refl (layout.pad depth) trivial).append String.length_append
        hfirst).append String.length_append (Shrinks.refl layout.newline trivial)
      rw [writeAll, write_eq, rereadAll, List.flatMap_cons, write_inline_all_append,
        write_inline_all_around]
      refine (hone.append String.length_append hrest).congr ?_
      simp only [EverywhereIn, OnLinesIn, true_and, and_true]
      exact and_and_and_comm

end

mutual

/-- An element in which all padding is kept is one of those in which kept padding holds only kept
padding. -/
theorem within_of_lines : (n : Node) → (kept : Bool) → n.OnLines KeepsPadding kept →
    n.OnLines KeepsPaddingWithin kept
  | .leaf .., _, _ => trivial
  | .element _ children, _, h => fun htext =>
      ⟨fun _ => (h htext).2, within_of_lines_in children _ (h htext).2⟩

theorem within_of_lines_in : (ns : List Node) → (kept : Bool) → OnLinesIn KeepsPadding kept ns →
    OnLinesIn KeepsPaddingWithin kept ns
  | [], _, _ => trivial
  | n :: ns, kept, h => ⟨within_of_lines n kept h.1, within_of_lines_in ns kept h.2⟩

end

theorem any_text_join_texts {ns : List Node} (hempty : .leaf .text "" ∉ ns) :
    (joinTexts ns).any (isLeaf .text) = ns.any (isLeaf .text) := by
  induction ns with
  | nil => rfl
  | cons n ns ih =>
      rw [List.mem_cons, not_or] at hempty
      rcases n.text_or_other with ⟨s, rfl⟩ | hother
      · rw [join_texts_text (fun hs => hempty.1 (by rw [hs]))]
        unfold joinFront
        split <;> simp [isLeaf]
      · rw [join_texts_other hother, List.any_cons, List.any_cons, ih hempty.2]

theorem text_of_shows_text {n : Node} (h : n.showsText) : n.isLeaf .text := by
  rcases n.text_or_other with ⟨s, rfl⟩ | hother
  · rfl
  · rw [shows_text_of_other hother] at h
    cases h

/-- An element with text still has some after it was read. -/
theorem any_text_settle {tag : Tag} {kept : Bool} {ns : List Node} (hempty : .leaf .text "" ∉ ns)
    (htext : ns.any (isLeaf .text)) (hsound : tag.keepsPadding kept ∨ ns.any showsText) :
    (settle tag kept (joinTexts ns)).any (isLeaf .text) := by
  rcases hsound with hkeeps | hshows
  · rw [settle_spread_of_keeps hkeeps, any_text_join_texts hempty, htext]
  · have hstill : (settle tag kept (joinTexts ns)).any showsText := by
      unfold settle
      split
      · rw [any_shows_text_join_texts, hshows]
      · rw [any_trim_texts shows_text_trim rfl, any_shows_text_join_texts, hshows]
    obtain ⟨n, hn, hshown⟩ := List.any_eq_true.mp hstill
    exact List.any_eq_true.mpr ⟨n, hn, text_of_shows_text hshown⟩

/-- An element that has kept its padding stays on one line. -/
theorem body_reread_of_keeps {tag : Tag} {children : List Node}
    (htext : children.any (isLeaf .text) = false) (hne : children ≠ []) {layout : Layout}
    (hpretty : layout.pretty) (depth : Nat) {kept : Bool} (hkeeps : tag.keepsPadding kept) :
    ((Node.element tag children).reread layout depth kept).body layout depth =
      ((Node.element tag children).reread layout depth kept).writeInline := by
  rw [reread_of_keeps htext layout depth hkeeps]
  apply body_of_text
  obtain ⟨s, rest, hhead⟩ := Layout.head_join_texts_spread hpretty depth
    (show (rereadAll layout (depth + 1) (kept || tag.preservesSpace) children).isEmpty = false by
      simpa [reread_all_eq_map] using hne)
  rw [hhead]
  rfl

theorem any_shows_text_reread_all (layout : Layout) (depth : Nat) (kept : Bool) (ns : List Node) :
    (rereadAll layout depth kept ns).any showsText = ns.any showsText := by
  rw [reread_all_eq_map, List.any_map]
  congr 1
  funext n
  exact shows_text_of_maps (reread_leaf layout depth kept) (is_element_reread layout depth kept) n

theorem not_mem_reread_all {kept : Bool} {ns : List Node} (h : EverywhereIn IsTextSound kept ns)
    (layout : Layout) (depth : Nat) (outside : Bool) :
    Node.leaf .text "" ∉ rereadAll layout depth outside ns := by
  rw [reread_all_eq_map, text_mem_map_iff (reread_leaf layout depth outside)
    (is_element_reread layout depth outside)]
  exact not_mem_of_text_sound h

theorem body_reread_of_text {tag : Tag} {children : List Node} (htext : children.any (isLeaf .text))
    {layout : Layout} {depth : Nat} {kept : Bool}
    (h : (Node.element tag children).Everywhere IsTextSound kept) :
    ((Node.element tag children).reread layout depth kept).body layout depth =
      ((Node.element tag children).reread .compact depth kept).writeInline := by
  have hinside : Layout.compact.inside children = .compact := if_pos htext
  rw [reread_of_text htext, reread, hinside, join_texts_spread_compact]
  apply body_of_text
  apply any_text_settle
  · exact not_mem_reread_all h.2 _ _ _
  · rw [any_text_reread_all, htext]
  · rw [any_shows_text_reread_all]
    exact h.1 htext

mutual

/-- Where padding is dropped, a node is written on its own lines again. -/
theorem shrinks_lines : (n : Node) → (layout : Layout) → layout.pretty → (depth : Nat) →
    (kept : Bool) → n.Everywhere IsTextSound kept →
    Shrinks String.length (n.body layout depth) ((n.reread layout depth kept).body layout depth)
      (n.Everywhere IsFirm kept ∧ n.OnLines KeepsPaddingWithin kept)
  | .leaf .., _, _, _, _, _ => .refl _ ⟨trivial, trivial⟩
  | .element tag children, layout, hpretty, depth, kept, h => by
      cases htext : children.any (isLeaf .text) with
      | true =>
          rw [body_of_text htext, body_reread_of_text htext h]
          refine (shrinks_inline _ depth kept h).congr ⟨fun hfirm => ⟨hfirm, ?_⟩, fun hp => hp.1⟩
          intro hnone
          rw [htext] at hnone
          cases hnone
      | false =>
          have hfirm : settle tag kept (joinTexts children) = joinTexts children :=
            firm_of_textless htext
          by_cases hnil : children = []
          · subst hnil
            rw [reread_empty]
            exact .refl _ ⟨⟨hfirm, trivial⟩, fun _ => ⟨fun _ => trivial, trivial⟩⟩
          · cases hkeeps : tag.keepsPadding kept with
            | true =>
                have hread := shrinks_padded_all children layout hpretty (depth + 1) _ h.2
                rw [body_reread_of_keeps htext hnil hpretty depth hkeeps]
                refine (shrinks_kept htext hnil hpretty depth hkeeps hread).congr ?_
                constructor
                · rintro ⟨hchildren, hlines⟩
                  exact ⟨⟨hfirm, hchildren⟩,
                    fun _ => ⟨fun _ => hlines, within_of_lines_in children _ hlines⟩⟩
                · rintro ⟨hchildren, hlines⟩
                  exact ⟨hchildren.2, (hlines htext).1 hkeeps⟩
            | false =>
                have hread := shrinks_lines_all children layout hpretty (depth + 1) _ h.2
                have hagain : (rereadAll layout (depth + 1) (kept || tag.preservesSpace)
                    children).any (isLeaf .text) = false := by
                  rw [any_text_reread_all, htext]
                have hsome :
                    rereadAll layout (depth + 1) (kept || tag.preservesSpace) children ≠ [] := by
                  simpa [reread_all_eq_map] using hnil
                rw [reread_of_not_keeps htext layout depth hkeeps, body_on_lines htext hnil,
                  body_on_lines hagain hsome]
                have hfront := (Shrinks.refl (tag.writeOpening ++ (">" ++ layout.newline))
                  trivial).append String.length_append hread
                have hwhole := hfront.append String.length_append
                  (Shrinks.refl (layout.pad depth ++ tag.writeClosing) trivial)
                simp only [String.append_assoc] at hwhole ⊢
                refine hwhole.congr ?_
                constructor
                · rintro ⟨⟨-, hchildren, hlines⟩, -⟩
                  refine ⟨⟨hfirm, hchildren⟩, fun _ => ⟨fun hmust => ?_, hlines⟩⟩
                  rw [hkeeps] at hmust
                  cases hmust
                · rintro ⟨hchildren, hlines⟩
                  exact ⟨⟨trivial, hchildren.2, (hlines htext).2⟩, trivial⟩

theorem shrinks_lines_all : (ns : List Node) → (layout : Layout) → layout.pretty → (depth : Nat) →
    (kept : Bool) → EverywhereIn IsTextSound kept ns →
    Shrinks String.length (writeAll layout depth ns)
      (writeAll layout depth (rereadAll layout depth kept ns))
      (EverywhereIn IsFirm kept ns ∧ OnLinesIn KeepsPaddingWithin kept ns)
  | [], _, _, _, _, _ => .refl _ ⟨trivial, trivial⟩
  | n :: ns, layout, hpretty, depth, kept, h => by
      have hfirst := shrinks_lines n layout hpretty depth kept h.1
      have hrest := shrinks_lines_all ns layout hpretty depth kept h.2
      have hone := ((Shrinks.refl (layout.pad depth) trivial).append String.length_append
        hfirst).append String.length_append (Shrinks.refl layout.newline trivial)
      rw [writeAll, write_eq, rereadAll, writeAll, write_eq]
      refine (hone.append String.length_append hrest).congr ?_
      simp only [EverywhereIn, OnLinesIn, true_and, and_true]
      exact and_and_and_comm

end

end Node

namespace Document

/-- Whether reading leaves every text as it is. -/
def IsFirm (doc : Document) : Prop :=
  Node.EverywhereIn Node.IsFirm false doc.nodes

/-- Whether padding that is kept holds only padding that is kept. -/
def NestsPadding (doc : Document) : Prop :=
  Node.OnLinesIn Node.KeepsPaddingWithin false doc.nodes

instance (doc : Document) : Decidable doc.IsFirm :=
  inferInstanceAs (Decidable (Node.EverywhereIn Node.IsFirm false doc.nodes))

instance (doc : Document) : Decidable doc.NestsPadding :=
  inferInstanceAs (Decidable (Node.OnLinesIn Node.KeepsPaddingWithin false doc.nodes))

theorem write_eq {doc : Document} (layout : Layout) {front : List Node} {last : Node}
    (hnodes : doc.nodes = front ++ [last]) (hlast : last.isLeaf .text = false) :
    doc.write layout =
      Node.writeAll layout 0 front ++ (layout.pad 0 ++ last.body layout 0) := by
  apply String.toList_injective
  rw [write_chars layout hnodes hlast, String.toList_append, String.toList_append]

/-- What is written for a document is read and written again as the same text exactly if its texts
stay as they are and padding that is kept holds only padding that is kept. -/
theorem write_reread_iff {doc : Document} (htext : doc.IsTextless)
    (hsound : Node.EverywhereIn Node.IsTextSound false doc.nodes) {layout : Layout}
    (hpretty : layout.pretty) :
    (doc.reread layout).write layout = doc.write layout ↔ doc.IsFirm ∧ doc.NestsPadding := by
  suffices hshrinks : Shrinks String.length (doc.write layout) ((doc.reread layout).write layout)
      (doc.IsFirm ∧ doc.NestsPadding) from hshrinks.eq_iff
  rcases List.eq_nil_or_concat doc.nodes with hnil | ⟨front, last, hconcat⟩
  · have hsame : doc.reread layout = doc := by
      rw [reread, hnil]
      exact congrArg Document.mk hnil.symm
    rw [hsame]
    refine .refl _ ⟨?_, ?_⟩
    · rw [IsFirm, hnil]
      trivial
    · rw [NestsPadding, hnil]
      trivial
  · rw [List.concat_eq_append] at hconcat
    have hlast := htext last (by simp [hconcat])
    have hagain : (doc.reread layout).nodes =
        Node.rereadAll layout 0 false front ++ [last.reread layout 0 false] := by
      rw [reread, hconcat, Node.reread_all_eq_map, Node.reread_all_eq_map, List.map_append]
      rfl
    have hlastAgain : (last.reread layout 0 false).isLeaf .text = false := by
      rw [Node.is_leaf_reread, hlast]
    rw [hconcat, Node.everywhere_in_iff] at hsound
    rw [write_eq layout hconcat hlast, write_eq layout hagain hlastAgain]
    have hfront := Node.shrinks_lines_all front layout hpretty 0 false
      (Node.everywhere_in_iff.mpr fun n hn => hsound n (List.mem_append_left _ hn))
    have hback := Node.shrinks_lines last layout hpretty 0 false (hsound last (by simp))
    refine (hfront.append String.length_append ((Shrinks.refl (layout.pad 0) trivial).append
      String.length_append hback)).congr ?_
    rw [IsFirm, NestsPadding, hconcat, Node.everywhere_in_append, Node.on_lines_in_append]
    simp only [Node.EverywhereIn, Node.OnLinesIn, true_and, and_true]
    exact and_and_and_comm

end Document

end SvgPress
