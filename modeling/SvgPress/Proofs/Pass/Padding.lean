import SvgPress.Proofs.Markup.Tree
import SvgPress.Proofs.Pass.Cuts

/-!
Documents that differ in their text only. Padding that has become text is of no concern to the
passes that take nodes away, as long as it makes no description look generated and does not stand
among definitions; so where nothing was to be taken from a document, nothing is to be taken from the
padded one.
-/

namespace SvgPress

open Node

/-- The second list is the first with other texts between the same nodes. An element that has text
keeps some, and no description looks generated that did not before. -/
inductive Pads : List Node → List Node → Prop
  | nil : Pads [] []
  | gone (s : String) {ns ms : List Node} : Pads ns ms → Pads (.leaf .text s :: ns) ms
  | come (s : String) {ns ms : List Node} : Pads ns ms → Pads ns (.leaf .text s :: ms)
  | leaf (kind : LeafKind) (s : String) {ns ms : List Node} : kind ≠ .text → Pads ns ms →
      Pads (.leaf kind s :: ns) (.leaf kind s :: ms)
  | element (tag : Tag) {children others ns ms : List Node} :
      (children.any (isLeaf .text) → others.any (isLeaf .text)) →
      (NodeRemoval.isGenerated (textOf others) → NodeRemoval.isGenerated (textOf children)) →
      Pads children others → Pads ns ms →
      Pads (.element tag children :: ns) (.element tag others :: ms)

namespace Pads

theorem tags {ns ms : List Node} (h : Pads ns ms) : tagsOf ms = tagsOf ns := by
  induction h with
  | nil => rfl
  | gone s _ ih => rw [tagsOf, Node.tags, List.nil_append, ih]
  | come s _ ih => rw [tagsOf, Node.tags, List.nil_append, ih]
  | leaf kind s _ _ ih => rw [tagsOf, tagsOf, ih, Node.tags]
  | element tag _ _ _ _ ihbelow ih =>
      rw [tagsOf, tagsOf, Node.tags, Node.tags, ihbelow, ih]

theorem any_text_map_tags (g : Tag → Tag) (ns : List Node) :
    (mapTagsOf g ns).any (isLeaf .text) = ns.any (isLeaf .text) := by
  induction ns with
  | nil => rfl
  | cons n ns ih =>
      rw [mapTagsOf, List.any_cons, List.any_cons, ih]
      cases n <;> rfl

theorem text_of_cons (n : Node) (ns : List Node) :
    textOf (n :: ns) = n.characterData ++ textOf ns := by
  rw [textOf, List.map_cons, String.join_cons]
  rfl

theorem text_of_map_tags (g : Tag → Tag) (ns : List Node) :
    textOf (mapTagsOf g ns) = textOf ns := by
  induction ns with
  | nil => rfl
  | cons n ns ih =>
      rw [mapTagsOf, text_of_cons, text_of_cons, ih]
      cases n <;> rfl

/-- Nothing about padding depends on tags. -/
theorem map_tags {ns ms : List Node} (h : Pads ns ms) (g : Tag → Tag) :
    Pads (mapTagsOf g ns) (mapTagsOf g ms) := by
  induction h with
  | nil => exact .nil
  | gone s _ ih => exact .gone s ih
  | come s _ ih => exact .come s ih
  | leaf kind s hkind _ ih => exact .leaf kind s hkind ih
  | element tag htext hgenerated _ _ ihbelow ih =>
      refine .element (g tag) ?_ ?_ ihbelow ih
      · rw [any_text_map_tags, any_text_map_tags]
        exact htext
      · rw [text_of_map_tags, text_of_map_tags]
        exact hgenerated

/-- How a property of all nodes is carried over. It must not look at texts, except for what padding
says of them and what is known of the padded list besides. -/
theorem everywhere {q r : Bool → Node → Prop} (htext : ∀ kept s, q kept (.leaf .text s))
    (helement : ∀ kept tag children others, Pads children others →
      (children.any (isLeaf .text) → others.any (isLeaf .text)) →
      (NodeRemoval.isGenerated (textOf others) → NodeRemoval.isGenerated (textOf children)) →
      r kept (.element tag others) → q kept (.element tag children) → q kept (.element tag others))
    {ns ms : List Node} (h : Pads ns ms) {kept : Bool} (hr : EverywhereIn r kept ms)
    (hq : EverywhereIn q kept ns) : EverywhereIn q kept ms := by
  induction h generalizing kept with
  | nil => trivial
  | gone s _ ih => exact ih hr hq.2
  | come s _ ih => exact ⟨htext kept s, ih hr.2 hq⟩
  | leaf kind s _ _ ih => exact ⟨hq.1, ih hr.2 hq.2⟩
  | element tag hkeeps hgenerated hpads _ ihbelow ih =>
      exact ⟨⟨helement kept tag _ _ hpads hkeeps hgenerated hr.1.1 hq.1.1, ihbelow hr.1.2 hq.1.2⟩,
        ih hr.2 hq.2⟩

/-! ### What the passes look for -/

theorem any_referable {ns ms : List Node} (h : Pads ns ms) :
    Definitions.anyReferable ms = Definitions.anyReferable ns := by
  induction h with
  | nil => rfl
  | gone s _ ih => rw [Definitions.anyReferable, Definitions.isReferable, Bool.false_or, ih]
  | come s _ ih => rw [Definitions.anyReferable, Definitions.isReferable, Bool.false_or, ih]
  | leaf kind s _ _ ih => rw [Definitions.anyReferable, Definitions.anyReferable, ih]
  | element tag _ _ _ _ ihbelow ih =>
      rw [Definitions.anyReferable, Definitions.anyReferable, Definitions.isReferable,
        Definitions.isReferable, ihbelow, ih]

theorem all_referable {ns ms : List Node} (h : Pads ns ms)
    (htextless : ms.any (isLeaf .text) = false) (hall : ∀ n ∈ ns, Definitions.isReferable n) :
    ∀ m ∈ ms, Definitions.isReferable m := by
  induction h with
  | nil => simp
  | gone s _ ih => exact ih htextless fun n hn => hall n (List.mem_cons_of_mem _ hn)
  | come s _ ih => cases htextless
  | leaf kind s _ _ ih =>
      rw [List.any_cons, Bool.or_eq_false_iff] at htextless
      rw [List.forall_mem_cons] at hall ⊢
      exact ⟨hall.1, ih htextless.2 hall.2⟩
  | element tag _ _ hbelow _ _ ih =>
      rw [List.any_cons, Bool.or_eq_false_iff] at htextless
      rw [List.forall_mem_cons] at hall ⊢
      refine ⟨?_, ih htextless.2 hall.2⟩
      rw [Definitions.isReferable, hbelow.any_referable]
      exact hall.1

/-- Where no text is left there was none, so what is left is all there was. -/
theorem eq_nil {ns : List Node} (h : Pads ns [])
    (htext : ns.any (isLeaf .text) = false) : ns = [] := by
  cases h with
  | nil => rfl
  | gone s _ => cases htext

theorem eq_single {ns : List Node} {child : Tag} {below : List Node}
    (h : Pads ns [.element child below]) (htext : ns.any (isLeaf .text) = false) :
    ∃ children, ns = [.element child children] := by
  cases h with
  | gone s _ => cases htext
  | element _ _ _ _ hrest =>
      rw [List.any_cons, Bool.or_eq_false_iff] at htext
      exact ⟨_, by rw [hrest.eq_nil htext.2]⟩

end Pads

namespace Node

mutual

theorem everywhere_trivial : (n : Node) → (kept : Bool) → n.Everywhere (fun _ _ => True) kept
  | .leaf .., _ => trivial
  | .element _ children, _ => ⟨trivial, everywhere_in_trivial children _⟩

theorem everywhere_in_trivial : (ns : List Node) → (kept : Bool) →
    EverywhereIn (fun _ _ => True) kept ns
  | [], _ => trivial
  | n :: ns, kept => ⟨everywhere_trivial n kept, everywhere_in_trivial ns kept⟩

end

end Node

namespace Node

mutual

/-- How a property that does not depend on what is kept is carried over to changed tags and back. -/
theorem everywhere_map_tags_iff {q r : Bool → Node → Prop} {g : Tag → Tag}
    (hqr : ∀ kept outside n, q kept n ↔ r outside (n.mapTags g)) : (n : Node) →
    (kept outside : Bool) → (n.Everywhere q kept ↔ (n.mapTags g).Everywhere r outside)
  | .leaf .., kept, outside => hqr kept outside _
  | .element _ children, kept, outside =>
      and_congr (hqr kept outside _) (everywhere_in_map_tags_iff hqr children _ _)

theorem everywhere_in_map_tags_iff {q r : Bool → Node → Prop} {g : Tag → Tag}
    (hqr : ∀ kept outside n, q kept n ↔ r outside (n.mapTags g)) : (ns : List Node) →
    (kept outside : Bool) → (EverywhereIn q kept ns ↔ EverywhereIn r outside (mapTagsOf g ns))
  | [], _, _ => Iff.rfl
  | n :: ns, kept, outside =>
      and_congr (everywhere_map_tags_iff hqr n kept outside)
        (everywhere_in_map_tags_iff hqr ns kept outside)

end

end Node

/-- No text stands directly among definitions. -/
def HasTextlessDefs (_ : Bool) : Node → Prop
  | .leaf .. => True
  | .element tag children => tag.name = "defs" → children.any (isLeaf .text) = false

theorem textless_defs_map_tags_iff {g : Tag → Tag} (hname : ∀ tag, (g tag).name = tag.name)
    (ns : List Node) (kept : Bool) :
    EverywhereIn HasTextlessDefs kept ns ↔ EverywhereIn HasTextlessDefs kept (mapTagsOf g ns) := by
  refine everywhere_in_map_tags_iff ?_ ns kept kept
  rintro _ _ (⟨tag, children⟩ | ⟨kind, s⟩)
  · rw [mapTags, HasTextlessDefs, HasTextlessDefs, hname, Pads.any_text_map_tags]
  · exact Iff.rfl

/-- A text is nothing that can be referred to. -/
theorem textless_defs_of_tidy {ns : List Node} {kept : Bool}
    (h : EverywhereIn Definitions.IsTidy kept ns) : EverywhereIn HasTextlessDefs kept ns := by
  refine EverywhereIn.imp ?_ ns kept h
  rintro _ (⟨tag, children⟩ | ⟨kind, s⟩) htidy
  · intro hname
    rw [List.any_eq_false]
    rintro (⟨_, _⟩ | ⟨_, _⟩) hn
    · exact Bool.false_ne_true
    · cases htidy hname _ hn
  · trivial

namespace Pads

variable {ns ms : List Node} {kept : Bool}

theorem tidy (h : Pads ns ms) (hdefs : EverywhereIn HasTextlessDefs kept ms)
    (htidy : EverywhereIn Definitions.IsTidy kept ns) :
    EverywhereIn Definitions.IsTidy kept ms := by
  refine h.everywhere (fun _ _ => trivial) ?_ hdefs htidy
  intro _ tag children others hpads _ _ htextless hall hname
  exact hpads.all_referable (htextless hname) (hall hname)

theorem fixed (h : Pads ns ms) (hfixed : EverywhereIn Groups.IsFixed kept ns) :
    EverywhereIn Groups.IsFixed kept ms := by
  refine h.everywhere (r := fun _ _ => True) (fun _ _ => trivial) ?_ (everywhere_in_trivial ms kept)
    hfixed
  intro _ tag children others hpads hkeeps _ _ hfixed hname
  refine ⟨(hfixed hname).1, fun child below heq => ?_⟩
  subst heq
  have htext : children.any (isLeaf .text) = false := Bool.eq_false_iff.mpr fun hany => by
    cases hkeeps hany
  obtain ⟨inside, rfl⟩ := hpads.eq_single htext
  exact (hfixed hname).2 child inside rfl

theorem used (h : Pads ns ms) (hused : EverywhereIn EmptyContainers.IsUsed kept ns) :
    EverywhereIn EmptyContainers.IsUsed kept ms := by
  refine h.everywhere (r := fun _ _ => True) (fun _ _ => trivial) ?_ (everywhere_in_trivial ms kept)
    hused
  intro _ tag children others hpads hkeeps _ _ hused
  cases others with
  | cons n rest => simp [EmptyContainers.IsUsed, EmptyContainers.isUseless]
  | nil =>
      have htext : children.any (isLeaf .text) = false := Bool.eq_false_iff.mpr fun hany => by
        cases hkeeps hany
      rwa [hpads.eq_nil htext] at hused

/-- A test that looks at the text of descriptions only. -/
theorem kept_by (h : Pads ns ms) {keep : Node → Bool} (htext : ∀ s, keep (.leaf .text s))
    (helement : ∀ tag children others,
      (NodeRemoval.isGenerated (textOf others) → NodeRemoval.isGenerated (textOf children)) →
      keep (.element tag children) → keep (.element tag others))
    (hall : EverywhereIn (fun _ n => keep n) kept ns) :
    EverywhereIn (fun _ n => keep n) kept ms := by
  refine h.everywhere (r := fun _ _ => True) (fun _ => htext) ?_ (everywhere_in_trivial ms kept)
    hall
  exact fun _ tag children others _ _ hgenerated _ => helement tag children others hgenerated

end Pads

end SvgPress
