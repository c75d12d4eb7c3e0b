import SvgPress.Proofs.Markup.Reprint
import SvgPress.Proofs.Pass.Descriptions
import SvgPress.Proofs.Pass.Padding

/-!
A document that was written and read again is the same document with padding, as far as passes are
concerned. Among definitions there is padding then exactly if it was put there and kept.
-/

namespace SvgPress

open Node

theorem filter_trim_texts (ns : List Node) :
    (trimTexts ns).filter (!·.isLeaf .text) = ns.filter (!·.isLeaf .text) := by
  have htext (s : String) : (Node.leaf .text s).isLeaf .text = true := rfl
  induction ns with
  | nil => rfl
  | cons n ns ih =>
      rcases n.text_or_other with ⟨s, rfl⟩ | hother
      · rw [trim_texts_text]
        split
        · rw [ih, List.filter_cons_of_neg (by simp [htext])]
        · rw [List.filter_cons_of_neg (by simp [htext]), ih,
            List.filter_cons_of_neg (by simp [htext])]
      · rw [trim_texts_other hother, List.filter_cons_of_pos (by simp [hother]), ih,
          List.filter_cons_of_pos (by simp [hother])]

theorem filter_settle (tag : Tag) (kept : Bool) (ns : List Node) :
    (settle tag kept ns).filter (!·.isLeaf .text) = ns.filter (!·.isLeaf .text) := by
  unfold settle
  split
  · rfl
  · exact filter_trim_texts ns

/-- Joining, padding and settling change texts only. -/
theorem filter_read (tag : Tag) (kept : Bool) (layout : Layout) (depth : Nat) (ns : List Node) :
    (settle tag kept (joinTexts (layout.spread depth ns))).filter (!·.isLeaf .text) =
      ns.filter (!·.isLeaf .text) := by
  rw [filter_settle, filter_join_texts, layout.filter_spread]

namespace Pads

theorem to_filter {ns ms : List Node} (h : Pads ns ms) : Pads ns (ms.filter (!·.isLeaf .text)) := by
  induction h with
  | nil => exact .nil
  | gone s _ ih => exact .gone s ih
  | come s _ ih => exact ih
  | leaf kind s hkind _ ih =>
      rw [List.filter_cons_of_pos (by simpa [isLeaf] using hkind)]
      exact .leaf kind s hkind ih
  | element tag htext hgenerated hbelow _ _ ih => exact .element tag htext hgenerated hbelow ih

theorem cons_congr {ms ms' : List Node} (hrest : ∀ ns, Pads ns ms → Pads ns ms') {n : Node}
    {ns : List Node} (h : Pads ns (n :: ms)) : Pads ns (n :: ms') := by
  generalize hall : n :: ms = all at h
  induction h with
  | nil => cases hall
  | gone s _ ih => exact .gone s (ih hall)
  | come s h _ =>
      cases hall
      exact .come s (hrest _ h)
  | leaf kind s hkind h _ =>
      cases hall
      exact .leaf kind s hkind (hrest _ h)
  | element tag htext hgenerated hbelow h _ _ =>
      cases hall
      exact .element tag htext hgenerated hbelow (hrest _ h)

theorem of_filter {ms : List Node} : ∀ {ns : List Node},
    Pads ns (ms.filter (!·.isLeaf .text)) → Pads ns ms := by
  induction ms with
  | nil => exact fun h => h
  | cons n ms ih =>
      intro ns h
      rcases n.text_or_other with ⟨s, rfl⟩ | hother
      · exact .come s (ih h)
      · rw [List.filter_cons_of_pos (by simp [hother])] at h
        exact h.cons_congr fun _ => ih

theorem read {ns ms : List Node} (h : Pads ns ms) (tag : Tag) (kept : Bool) (layout : Layout)
    (depth : Nat) : Pads ns (settle tag kept (joinTexts (layout.spread depth ms))) := by
  apply of_filter
  rw [filter_read]
  exact h.to_filter

end Pads

theorem text_of_append (ns ms : List Node) : textOf (ns ++ ms) = textOf ns ++ textOf ms := by
  rw [textOf, List.map_append, String.join_append]
  rfl

theorem text_of_join_texts (ns : List Node) : textOf (joinTexts ns) = textOf ns := by
  have hfront (s : String) (ms : List Node) : textOf (joinFront s ms) = s ++ textOf ms := by
    unfold joinFront
    split
    · rw [Pads.text_of_cons, Pads.text_of_cons, ← String.append_assoc]
      rfl
    · rw [Pads.text_of_cons]
      rfl
  induction ns with
  | nil => rfl
  | cons n ns ih =>
      rcases n.text_or_other with ⟨s, rfl⟩ | hother
      · by_cases hs : s = ""
        · rw [hs, join_texts_empty, ih, Pads.text_of_cons]
          simp [characterData]
        · rw [join_texts_text hs, hfront, ih, Pads.text_of_cons]
          rfl
      · rw [join_texts_other hother, Pads.text_of_cons, Pads.text_of_cons, ih]

theorem text_of_reread_all (layout : Layout) (depth : Nat) (kept : Bool) (ns : List Node) :
    textOf (rereadAll layout depth kept ns) = textOf ns := by
  induction ns with
  | nil => rfl
  | cons n ns ih =>
      rw [rereadAll, Pads.text_of_cons, Pads.text_of_cons, ih]
      cases n <;> rfl

theorem text_of_blank (s : String) : textOf [.leaf .text s] = s := by
  rw [Pads.text_of_cons]
  exact String.append_empty

theorem to_list_text_of_around (layout : Layout) (depth : Nat) (ns : List Node) :
    (textOf (ns.flatMap (layout.around depth))).toList =
      (ns.map characterData).flatMap fun part =>
        (layout.pad depth).toList ++ part.toList ++ layout.newline.toList := by
  induction ns with
  | nil => rfl
  | cons n ns ih =>
      have hone : textOf (layout.around depth n) =
          layout.pad depth ++ (n.characterData ++ layout.newline) := by
        rw [Layout.around, Pads.text_of_cons, Pads.text_of_cons, text_of_blank]
        rfl
      rw [List.flatMap_cons, text_of_append, String.toList_append, ih, List.map_cons,
        List.flatMap_cons, hone]
      simp

/-- Padding does not make a description look generated. -/
theorem generated_of_spread (layout : Layout) (depth : Nat) {ns : List Node}
    (h : NodeRemoval.isGenerated (textOf (layout.spread depth ns))) :
    NodeRemoval.isGenerated (textOf ns) := by
  rw [Layout.spread] at h
  split at h
  · rename_i hempty
    rwa [List.isEmpty_iff.mp hempty]
  · cases hpretty : layout.pretty with
    | true =>
        refine NodeRemoval.generated_of_lines (layout.blank_pad (depth + 1))
            (layout.blank_pad depth)
          ?_ h
        have hnewline : layout.newline.toList = ['\n'] := by
          rw [Layout.newline, if_pos hpretty]
          rfl
        rw [text_of_append, Pads.text_of_cons, text_of_blank]
        simp only [String.toList_append, to_list_text_of_around, characterData, hnewline]
        rfl
    | false =>
        have hpad (d : Nat) : layout.pad d = "" := by
          rw [Layout.pad, if_neg (by simp [hpretty])]
        have hnewline : layout.newline = "" := by
          rw [Layout.newline, if_neg (by simp [hpretty])]
        have hsame : textOf (.leaf .text layout.newline :: ns.flatMap (layout.around (depth + 1)) ++
            [.leaf .text (layout.pad depth)]) = textOf ns := by
          rw [text_of_append, Pads.text_of_cons, text_of_blank]
          apply String.toList_injective
          simp only [String.toList_append, to_list_text_of_around, characterData, hpad, hnewline]
          rw [textOf, String.toList_join]
          simp
        rw [hsame] at h
        exact h

mutual

/-- Reading what was written pads, and it does nothing else if all texts stay. -/
theorem pads_reread : (n : Node) → (layout : Layout) → (depth : Nat) → (kept : Bool) →
    n.Everywhere IsTextSound kept → n.Everywhere IsFirm kept →
    ∀ {ns ms : List Node}, Pads ns ms → Pads (n :: ns) (n.reread layout depth kept :: ms)
  | .leaf kind s, layout, depth, kept, _, _, _, _, hrest => by
      by_cases hkind : kind = .text
      · subst hkind
        exact .gone s (.come s hrest)
      · exact .leaf kind s hkind hrest
  | .element tag children, layout, depth, kept, hsound, hfirm, _, _, hrest => by
      rw [reread]
      refine .element tag (fun htext => ?_) (fun hgenerated => ?_) ?_ hrest
      · have hinside : layout.inside children = .compact := if_pos htext
        rw [hinside, join_texts_spread_compact]
        apply any_text_settle
        · exact not_mem_reread_all hsound.2 _ _ _
        · rw [any_text_reread_all, htext]
        · rw [any_shows_text_reread_all]
          exact hsound.1 htext
      · cases htext : children.any (isLeaf .text) with
        | true =>
            have hinside : layout.inside children = .compact := if_pos htext
            rw [hinside, join_texts_spread_compact, (firm_reread_iff _ _ _ _ _ _).mpr hfirm.1,
              text_of_join_texts, text_of_reread_all] at hgenerated
            exact hgenerated
        | false =>
            have hinside : layout.inside children = layout := if_neg (by simp [htext])
            rw [hinside] at hgenerated
            cases hkeeps : tag.keepsPadding kept with
            | true =>
                rw [settle_spread_of_keeps hkeeps, text_of_join_texts] at hgenerated
                have hagain := generated_of_spread layout depth hgenerated
                rw [text_of_reread_all] at hagain
                exact hagain
            | false =>
                have hnone : (rereadAll layout (depth + 1) (kept || tag.preservesSpace)
                    children).any (isLeaf .text) = false := by
                  rw [any_text_reread_all, htext]
                rw [settle_spread_of_not_keeps hkeeps layout depth hnone, text_of_reread_all]
                  at hgenerated
                exact hgenerated
      · exact (pads_reread_all children _ (depth + 1) _ hsound.2 hfirm.2).read tag kept _ depth

theorem pads_reread_all : (ns : List Node) → (layout : Layout) → (depth : Nat) → (kept : Bool) →
    EverywhereIn IsTextSound kept ns → EverywhereIn IsFirm kept ns →
    Pads ns (rereadAll layout depth kept ns)
  | [], _, _, _, _, _ => .nil
  | n :: ns, layout, depth, kept, hsound, hfirm =>
      pads_reread n layout depth kept hsound.1 hfirm.1
        (pads_reread_all ns layout depth kept hsound.2 hfirm.2)

end

/-- Whether an element of definitions drops its padding, if it has any. -/
def DropsPaddingInDefs (kept : Bool) (tag : Tag) (children : List Node) : Prop :=
  tag.name = "defs" → children ≠ [] → tag.keepsPadding kept = false

instance (kept : Bool) (tag : Tag) (children : List Node) :
    Decidable (DropsPaddingInDefs kept tag children) :=
  inferInstanceAs (Decidable (tag.name = "defs" → children ≠ [] → tag.keepsPadding kept = false))

theorem everywhere_in_filter {q : Bool → Node → Prop} {kept : Bool}
    (htext : ∀ s, q kept (.leaf .text s)) (ns : List Node) :
    EverywhereIn q kept (ns.filter (!·.isLeaf .text)) ↔ EverywhereIn q kept ns := by
  simp only [everywhere_in_iff, List.mem_filter]
  constructor
  · intro h n hn
    rcases n.text_or_other with ⟨s, rfl⟩ | hother
    · exact htext s
    · exact h n ⟨hn, by simp [hother]⟩
  · exact fun h n hn => h n hn.1

theorem everywhere_in_read {q : Bool → Node → Prop} {kept : Bool}
    (htext : ∀ s, q kept (.leaf .text s)) (tag : Tag) (outside : Bool)
    (layout : Layout) (depth : Nat)
    (ns : List Node) :
    EverywhereIn q kept (settle tag outside (joinTexts (layout.spread depth ns))) ↔
      EverywhereIn q kept ns := by
  rw [← everywhere_in_filter htext, filter_read, everywhere_in_filter htext]

mutual

theorem textless_defs_compact : (n : Node) → (depth : Nat) → (kept : Bool) →
    n.Everywhere HasTextlessDefs kept →
    (n.reread .compact depth kept).Everywhere HasTextlessDefs kept
  | .leaf .., _, _, _ => trivial
  | .element tag children, depth, kept, h => by
      have hinside : Layout.compact.inside children = .compact := by
        unfold Layout.inside
        split <;> rfl
      rw [reread, hinside]
      refine ⟨fun hname => ?_, (everywhere_in_read (fun _ => trivial) _ _ _ _ _).mpr
        (textless_defs_compact_all children (depth + 1) _ h.2)⟩
      have hagain : (rereadAll .compact (depth + 1) (kept || tag.preservesSpace)
          children).any (isLeaf .text) = false := by
        rw [any_text_reread_all]
        exact h.1 hname
      rw [join_texts_spread_compact, firm_of_textless hagain, join_texts_of_textless hagain, hagain]

theorem textless_defs_compact_all : (ns : List Node) → (depth : Nat) → (kept : Bool) →
    EverywhereIn HasTextlessDefs kept ns →
    EverywhereIn HasTextlessDefs kept (rereadAll .compact depth kept ns)
  | [], _, _, _ => trivial
  | n :: ns, depth, kept, h =>
      ⟨textless_defs_compact n depth kept h.1, textless_defs_compact_all ns depth kept h.2⟩

end

mutual

/-- Text comes to stand among definitions exactly where padding is kept there. -/
theorem textless_defs_iff : (n : Node) → (layout : Layout) → layout.pretty → (depth : Nat) →
    (kept : Bool) → n.Everywhere HasTextlessDefs kept →
    ((n.reread layout depth kept).Everywhere HasTextlessDefs kept ↔
      n.OnLines DropsPaddingInDefs kept)
  | .leaf .., _, _, _, _, _ => iff_of_true trivial trivial
  | .element tag children, layout, hpretty, depth, kept, h => by
      cases htext : children.any (isLeaf .text) with
      | true =>
          rw [reread_of_text htext]
          refine iff_of_true (textless_defs_compact _ depth kept h) fun hnone => ?_
          rw [htext] at hnone
          cases hnone
      | false =>
          have hall := textless_defs_iff_all children layout hpretty (depth + 1)
            (kept || tag.preservesSpace) h.2
          have hlines : (Node.element tag children).OnLines DropsPaddingInDefs kept ↔
              DropsPaddingInDefs kept tag children ∧
                OnLinesIn DropsPaddingInDefs (kept || tag.preservesSpace) children := by
            rw [OnLines]
            simp [htext]
          rw [hlines, ← hall]
          cases hkeeps : tag.keepsPadding kept with
          | true =>
              rw [reread_of_keeps htext layout depth hkeeps]
              have htexts (s : String) :
                  HasTextlessDefs (kept || tag.preservesSpace) (.leaf .text s) := trivial
              have hchildren := everywhere_in_read htexts tag true layout depth
                (rereadAll layout (depth + 1) (kept || tag.preservesSpace) children)
              rw [settle_of_keeps (Bool.or_true _)] at hchildren
              refine and_congr ?_ hchildren
              by_cases hnil : children = []
              · subst hnil
                exact iff_of_true (fun _ => rfl) fun _ hne => absurd rfl hne
              · obtain ⟨s, rest, hhead⟩ := Layout.head_join_texts_spread hpretty depth
                  (show (rereadAll layout (depth + 1) (kept || tag.preservesSpace)
                    children).isEmpty = false by simpa [reread_all_eq_map] using hnil)
                simp [HasTextlessDefs, DropsPaddingInDefs, hhead, hnil, hkeeps, isLeaf]
          | false =>
              rw [reread_of_not_keeps htext layout depth hkeeps]
              refine and_congr (iff_of_true (fun _ => ?_) fun _ _ => hkeeps) Iff.rfl
              rw [any_text_reread_all, htext]

theorem textless_defs_iff_all : (ns : List Node) → (layout : Layout) → layout.pretty →
    (depth : Nat) → (kept : Bool) → EverywhereIn HasTextlessDefs kept ns →
    (EverywhereIn HasTextlessDefs kept (rereadAll layout depth kept ns) ↔
      OnLinesIn DropsPaddingInDefs kept ns)
  | [], _, _, _, _, _ => iff_of_true trivial trivial
  | n :: ns, layout, hpretty, depth, kept, h =>
      and_congr (textless_defs_iff n layout hpretty depth kept h.1)
        (textless_defs_iff_all ns layout hpretty depth kept h.2)

end

/-! ### Tags -/

theorem Node.tags_of_filter_texts (ns : List Node) :
    tagsOf (ns.filter (!·.isLeaf .text)) = tagsOf ns := by
  induction ns with
  | nil => rfl
  | cons n ns ih =>
      rcases n.text_or_other with ⟨s, rfl⟩ | hother
      · rw [List.filter_cons_of_neg (by simp [isLeaf]), ih]
        rfl
      · rw [List.filter_cons_of_pos (by simp [hother]), tagsOf, tagsOf, ih]

namespace Node

mutual

theorem tags_reread : (n : Node) → (layout : Layout) → (depth : Nat) → (kept : Bool) →
    (n.reread layout depth kept).tags = n.tags
  | .leaf .., _, _, _ => rfl
  | .element tag children, layout, depth, kept => by
      rw [reread, tags, tags, ← tags_of_filter_texts, filter_read, tags_of_filter_texts,
        tags_reread_all children]

theorem tags_reread_all : (ns : List Node) → (layout : Layout) → (depth : Nat) → (kept : Bool) →
    tagsOf (rereadAll layout depth kept ns) = tagsOf ns
  | [], _, _, _ => rfl
  | n :: rest, layout, depth, kept => by
      rw [rereadAll, tagsOf, tagsOf, tags_reread n, tags_reread_all rest]

end

end Node

/-- Padding has no tags. -/
theorem Document.tags_reread (doc : Document) (layout : Layout) :
    (doc.reread layout).tags = doc.tags :=
  Node.tags_reread_all doc.nodes layout 0 false

end SvgPress
