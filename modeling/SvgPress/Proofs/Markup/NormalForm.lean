import Mathlib.Data.List.Chain
import SvgPress.Proofs.Markup.Events

/-!
The documents that are read. The children of every element are joined and settled: no text is empty,
no two texts are adjacent, and white space is gone where it does not count. Reading establishes this
one event at a time, so it is an invariant of the document under way.
-/

namespace SvgPress

open Markup

/-- No text is empty and no two texts are adjacent. -/
def IsJoined (ns : List Node) : Prop :=
  Node.leaf .text "" ∉ ns ∧ ns.IsChain fun m n => ¬ (m.isLeaf .text ∧ n.isLeaf .text)

theorem joined_nil : IsJoined [] :=
  ⟨by simp, .nil⟩

theorem IsJoined.reverse {ns : List Node} (h : IsJoined ns) : IsJoined ns.reverse := by
  refine ⟨by simpa using h.1, ?_⟩
  rw [List.isChain_reverse]
  refine h.2.imp fun m n hmn => ?_
  simpa [flip, and_comm] using hmn

theorem joined_other_iff {n : Node} (hother : n.isLeaf .text = false) {ns : List Node} :
    IsJoined (n :: ns) ↔ IsJoined ns := by
  have hne : Node.leaf .text "" ≠ n := by
    rintro rfl
    cases hother
  simp [IsJoined, List.isChain_cons, hother, hne]

/-- After a text stands something else. -/
theorem joined_text_iff {s : String} {ns : List Node} :
    IsJoined (.leaf .text s :: ns) ↔
      s ≠ "" ∧ (∀ n ∈ ns.head?, n.isLeaf .text = false) ∧ IsJoined ns := by
  have htext : (Node.leaf .text s).isLeaf .text = true := rfl
  simp only [IsJoined, List.mem_cons, Node.leaf.injEq, true_and, not_or, List.isChain_cons, htext,
    Bool.not_eq_true, @eq_comm _ "" s, ne_eq]
  constructor
  · rintro ⟨⟨hs, hmem⟩, hhead, hchain⟩
    exact ⟨hs, hhead, hmem, hchain⟩
  · rintro ⟨hs, hhead, hmem, hchain⟩
    exact ⟨⟨hs, hmem⟩, hhead, hchain⟩

theorem join_front_other {s : String} {n : Node} (hother : n.isLeaf .text = false)
    {ns : List Node} : joinFront s (n :: ns) = .leaf .text s :: n :: ns := by
  unfold joinFront
  split <;> simp_all [Node.isLeaf]

theorem joined_join_front {s : String} (hs : s ≠ "") {ns : List Node} (h : IsJoined ns) :
    IsJoined (joinFront s ns) := by
  cases ns with
  | nil => exact joined_text_iff.mpr ⟨hs, by simp, h⟩
  | cons n ns =>
      rcases n.text_or_other with ⟨t, rfl⟩ | hother
      · obtain ⟨-, hhead, hns⟩ := joined_text_iff.mp h
        exact joined_text_iff.mpr ⟨by simp [hs], hhead, hns⟩
      · rw [join_front_other hother]
        exact joined_text_iff.mpr ⟨hs, by simpa using hother, h⟩

theorem joined_join_texts (ns : List Node) : IsJoined (joinTexts ns) := by
  induction ns with
  | nil => exact joined_nil
  | cons n ns ih =>
      rcases n.text_or_other with ⟨s, rfl⟩ | hother
      · by_cases hs : s = ""
        · rw [hs, join_texts_empty]
          exact ih
        · rw [join_texts_text hs]
          exact joined_join_front hs ih
      · rw [join_texts_other hother]
        exact (joined_other_iff hother).mpr ih

/-- Joining changes nothing where all is joined. -/
theorem join_texts_of_joined {ns : List Node} (h : IsJoined ns) : joinTexts ns = ns := by
  induction ns with
  | nil => rfl
  | cons n ns ih =>
      rcases n.text_or_other with ⟨s, rfl⟩ | hother
      · obtain ⟨hs, hhead, hns⟩ := joined_text_iff.mp h
        rw [join_texts_text hs, ih hns]
        unfold joinFront
        split
        · simp [Node.isLeaf] at hhead
        · rfl
      · rw [join_texts_other hother, ih ((joined_other_iff hother).mp h)]

theorem trim_texts_text (s : String) (ns : List Node) :
    trimTexts (.leaf .text s :: ns) =
      if (Text.trim s).isEmpty then trimTexts ns
      else .leaf .text (Text.trim s) :: trimTexts ns := by
  rw [trimTexts, List.filterMap_cons]
  split <;> split at * <;> simp_all [trimTexts]

theorem trim_texts_other {n : Node} (hother : n.isLeaf .text = false) (ns : List Node) :
    trimTexts (n :: ns) = n :: trimTexts ns := by
  rw [trimTexts, List.filterMap_cons]
  split <;> split at * <;> simp_all [trimTexts, Node.isLeaf]

theorem IsJoined.trim_texts {ns : List Node} (h : IsJoined ns) : IsJoined (trimTexts ns) := by
  induction ns with
  | nil => exact joined_nil
  | cons n ns ih =>
      rcases n.text_or_other with ⟨s, rfl⟩ | hother
      · obtain ⟨hs, hhead, hns⟩ := joined_text_iff.mp h
        rw [trim_texts_text]
        split
        · exact ih hns
        · rename_i hne
          refine joined_text_iff.mpr ⟨by simpa using hne, ?_, ih hns⟩
          cases ns with
          | nil => simp [trimTexts]
          | cons m ms =>
              have hm := hhead m rfl
              rw [trim_texts_other hm]
              simpa using hm
      · rw [trim_texts_other hother]
        exact (joined_other_iff hother).mpr (ih ((joined_other_iff hother).mp h))

theorem blank_text_iff_trim {s : String} : Text.isBlankText s ↔ Text.trim s = "" := by
  rw [Text.isBlankText, List.all_eq_true, ← Text.trim_chars_eq_nil_iff, ← String.toList_inj,
    Text.to_list_trim]
  rfl

theorem shows_text_trim (s : String) :
    (Node.leaf .text (Text.trim s)).showsText = (Node.leaf .text s).showsText := by
  have hblank : Text.isBlankText (Text.trim s) = Text.isBlankText s := by
    rw [Bool.eq_iff_iff, blank_text_iff_trim, blank_text_iff_trim, Text.trim_idem]
  rw [Node.showsText, Node.showsText, hblank]

/-- A test that does not look at white space around a text, and fails for a blank one, is not
changed by trimming. -/
theorem any_trim_texts {p : Node → Bool}
    (htrim : ∀ s, p (.leaf .text (Text.trim s)) = p (.leaf .text s))
    (hempty : p (.leaf .text "") = false) (ns : List Node) : (trimTexts ns).any p = ns.any p := by
  induction ns with
  | nil => rfl
  | cons n ns ih =>
      rcases n.text_or_other with ⟨s, rfl⟩ | hother
      · rw [trim_texts_text]
        split
        · rename_i hnone
          have hs : p (.leaf .text s) = false := by
            rw [← htrim, String.isEmpty_iff.mp hnone, hempty]
          rw [List.any_cons, hs, ih, Bool.false_or]
        · rw [List.any_cons, List.any_cons, htrim, ih]
      · rw [trim_texts_other hother, List.any_cons, List.any_cons, ih]

/-- The elements, and the texts that count, are the same after trimming. -/
theorem mixed_trim_texts (ns : List Node) : isMixed (trimTexts ns) = isMixed ns := by
  rw [isMixed, isMixed, any_trim_texts (fun _ => rfl) rfl, any_trim_texts shows_text_trim rfl]

theorem trim_texts_idem (ns : List Node) : trimTexts (trimTexts ns) = trimTexts ns := by
  induction ns with
  | nil => rfl
  | cons n ns ih =>
      rcases n.text_or_other with ⟨s, rfl⟩ | hother
      · rw [trim_texts_text]
        split
        · exact ih
        · rename_i hne
          rw [trim_texts_text, Text.trim_idem, if_neg hne, ih]
      · rw [trim_texts_other hother, trim_texts_other hother, ih]

theorem settle_of_keeps {tag : Tag} {kept : Bool} {ns : List Node}
    (h : keepsOwnSpace tag ns || kept) : settle tag kept ns = ns :=
  if_pos h

theorem settle_of_not_keeps {tag : Tag} {kept : Bool} {ns : List Node}
    (h : (keepsOwnSpace tag ns || kept) = false) : settle tag kept ns = trimTexts ns :=
  if_neg (by simp [h])

theorem settle_idem (tag : Tag) (kept : Bool) (ns : List Node) :
    settle tag kept (settle tag kept ns) = settle tag kept ns := by
  cases h : keepsOwnSpace tag ns || kept with
  | true => rw [settle_of_keeps h, settle_of_keeps h]
  | false =>
      have hagain : (keepsOwnSpace tag (trimTexts ns) || kept) = false := by
        rw [keepsOwnSpace, mixed_trim_texts]
        exact h
      rw [settle_of_not_keeps h, settle_of_not_keeps hagain, trim_texts_idem]

theorem IsJoined.settle {tag : Tag} {kept : Bool} {ns : List Node} (h : IsJoined ns) :
    IsJoined (settle tag kept ns) := by
  unfold SvgPress.settle
  split
  · exact h
  · exact h.trim_texts

theorem mem_trim_texts {ns : List Node} {n : Node} (h : n ∈ trimTexts ns) :
    n ∈ ns ∨ ∃ t, t ≠ "" ∧ n = .leaf .text t := by
  rw [trimTexts, List.mem_filterMap] at h
  obtain ⟨m, hm, hn⟩ := h
  split at hn
  · dsimp only at hn
    split at hn
    · cases hn
    · rename_i hne
      cases hn
      exact .inr ⟨_, by simpa using hne, rfl⟩
  · cases hn
    exact .inl hm

theorem mem_settle {tag : Tag} {kept : Bool} {ns : List Node} {n : Node}
    (h : n ∈ settle tag kept ns) : n ∈ ns ∨ ∃ t, t ≠ "" ∧ n = .leaf .text t := by
  unfold settle at h
  split at h
  · exact .inl h
  · exact mem_trim_texts h

/-- What is known of a tag that was read: no attribute stands twice, and its names can be read back
unless one of them holds a quotation mark. -/
structure Tag.IsRead (tag : Tag) : Prop where
  distinct : (tag.attributes.map (·.name)).Nodup
  plain : tag.IsUnquoted → tag.IsPlain

/-- What is known of a node that was read, apart from its children. `kept` tells whether an element
outside asks for its white space to be kept. -/
def Node.IsRead (kept : Bool) : Node → Prop
  | .leaf kind s => IsReadLeaf kind s
  | .element tag children => tag.IsRead ∧ IsJoined children ∧ settle tag kept children = children

namespace Assembly

/-- What is known of the elements that are open while a text is read. -/
def OpenSound : List OpenElement → Prop
  | [] => True
  | inner :: outer =>
    inner.tag.IsRead ∧ IsJoined inner.latest ∧
      (∀ n ∈ inner.latest,
        n.Everywhere Node.IsRead (outer.any (·.tag.preservesSpace) || inner.tag.preservesSpace)) ∧
      OpenSound outer

/-- What is known of a document while its text is read. -/
def IsSound (a : Assembly) : Prop :=
  OpenSound a.opened ∧ ∀ n ∈ a.top, n.isLeaf .text = false ∧ n.Everywhere Node.IsRead false

theorem sound_empty : empty.IsSound :=
  ⟨trivial, by simp [empty]⟩

theorem IsSound.add {a : Assembly} (h : a.IsSound) {n : Node} (hother : n.isLeaf .text = false)
    (hn : n.Everywhere Node.IsRead (a.opened.any (·.tag.preservesSpace))) : (a.add n).IsSound := by
  obtain ⟨opened, top⟩ := a
  obtain ⟨hopened, htop⟩ := h
  cases opened with
  | nil =>
      refine ⟨trivial, ?_⟩
      intro m hm
      rcases List.mem_cons.mp hm with rfl | hm
      · exact ⟨hother, hn⟩
      · exact htop m hm
  | cons inner outer =>
      obtain ⟨htag, hjoined, hlatest, houter⟩ := hopened
      refine ⟨⟨htag, (joined_other_iff hother).mpr hjoined, ?_, houter⟩, htop⟩
      intro m hm
      rcases List.mem_cons.mp hm with rfl | hm
      · rw [Bool.or_comm]
        exact hn
      · exact hlatest m hm

theorem joined_join_text {s : String} (hs : s ≠ "") {latest : List Node} (h : IsJoined latest) :
    IsJoined (joinText s latest) := by
  cases latest with
  | nil => exact joined_text_iff.mpr ⟨hs, by simp, h⟩
  | cons n latest =>
      rcases n.text_or_other with ⟨t, rfl⟩ | hother
      · obtain ⟨-, hhead, hlatest⟩ := joined_text_iff.mp h
        exact joined_text_iff.mpr ⟨by simp [hs], hhead, hlatest⟩
      · have hjoin : joinText s (n :: latest) = .leaf .text s :: n :: latest := by
          unfold joinText
          split <;> simp_all [Node.isLeaf]
        rw [hjoin]
        exact joined_text_iff.mpr ⟨hs, by simpa using hother, h⟩

theorem mem_join_text {s : String} (hs : s ≠ "") {latest : List Node} {n : Node}
    (h : n ∈ joinText s latest) : n ∈ latest ∨ ∃ t, t ≠ "" ∧ n = .leaf .text t := by
  unfold joinText at h
  split at h
  · rcases List.mem_cons.mp h with rfl | h
    · exact .inr ⟨_, by simp [hs], rfl⟩
    · exact .inl (List.mem_cons_of_mem _ h)
  · rcases List.mem_cons.mp h with rfl | h
    · exact .inr ⟨s, hs, rfl⟩
    · exact .inl h

theorem IsSound.add_text {a : Assembly} (h : a.IsSound) {s : String} (hs : s ≠ "") :
    (a.addText s).IsSound := by
  obtain ⟨opened, top⟩ := a
  obtain ⟨hopened, htop⟩ := h
  cases opened with
  | nil => exact ⟨trivial, htop⟩
  | cons inner outer =>
      obtain ⟨htag, hjoined, hlatest, houter⟩ := hopened
      refine ⟨⟨htag, joined_join_text hs hjoined, ?_, houter⟩, htop⟩
      intro m hm
      rcases mem_join_text hs hm with hm | ⟨t, ht, rfl⟩
      · exact hlatest m hm
      · exact .inl ⟨trivial, fun _ => ht⟩

theorem IsSound.step {a b : Assembly} (h : a.IsSound) {event : Event} (hevent : event.IsSound)
    (hstep : a.step event = .ok b) : b.IsSound := by
  unfold Assembly.step at hstep
  split at hstep
  · split at hstep <;> cases hstep
    rename_i name _ attributes
    exact ⟨⟨⟨hevent.1, hevent.2⟩, joined_nil, by simp, h.1⟩, h.2⟩
  · split at hstep <;> cases hstep
    rename_i name _ attributes
    refine h.add rfl ⟨⟨⟨hevent.1, hevent.2⟩, joined_nil, ?_⟩, trivial⟩
    simp [settle, trimTexts]
  · split at hstep
    · rename_i inner outer hopened
      split at hstep <;> cases hstep
      obtain ⟨hall, htop⟩ := h
      rw [hopened] at hall
      obtain ⟨htag, hjoined, hlatest, houter⟩ := hall
      have hsound : IsSound { a with opened := outer } := ⟨houter, htop⟩
      refine hsound.add rfl ⟨⟨htag, ?_, ?_⟩, ?_⟩
      · exact hjoined.reverse.settle
      · exact settle_idem _ _ _
      · rw [Node.everywhere_in_iff]
        intro n hn
        rcases mem_settle hn with hn | ⟨t, ht, rfl⟩
        · exact hlatest n (List.mem_reverse.mp hn)
        · exact .inl ⟨trivial, fun _ => ht⟩
    · cases hstep
  · cases hstep
    refine h.add_text ?_
    unfold Entity.decodeReference
    split <;> simp [← String.toList_inj]
  · cases hstep
    obtain ⟨-, hs⟩ | ⟨hkind, -⟩ := hevent
    · exact h.add_text (Entity.decode_value_ne_empty (by simpa using hs rfl))
    · cases hkind
  · cases hstep
    exact h.add rfl hevent
  · cases hstep
    rename_i kind s htext hdoctype
    cases kind with
    | text => exact absurd rfl htext
    | doctype => exact absurd rfl hdoctype
    | cdata | comment | declaration | instruction => exact h.add rfl hevent

theorem IsSound.run {a b : Assembly} (h : a.IsSound) {events : List Event}
    (hevents : ∀ event ∈ events, event.IsSound) (hrun : a.run events = .ok b) : b.IsSound := by
  induction events generalizing a with
  | nil =>
      cases hrun
      exact h
  | cons event events ih =>
      rw [Assembly.run] at hrun
      split at hrun
      · rename_i next hstep
        exact ih (h.step (hevents event List.mem_cons_self) hstep)
          (fun other hother => hevents other (List.mem_cons_of_mem event hother)) hrun
      · cases hrun

end Assembly

/-- What is known of a document that was read: it has a root, nothing but markup stands outside it,
and every node is as reading leaves it. -/
structure Document.IsRead (doc : Document) : Prop where
  root : doc.nodes.any Node.isElement
  textless : doc.IsTextless
  nodes : Node.EverywhereIn Node.IsRead false doc.nodes

/-- Every document that is read has the normal form that reading leaves. -/
theorem Document.read_of_parse {source : String} {doc : Document} (h : parse source = .ok doc) :
    doc.IsRead := by
  unfold parse ofReading at h
  split at h
  · cases h
  · rename_i a hrun
    obtain ⟨-, htop⟩ := Assembly.sound_empty.run (read_sound source) hrun
    split at h
    · cases h
    · unfold Assembly.finish at h
      split at h
      · cases h
      · split at h
        · rename_i hroot
          cases h
          refine ⟨by simpa using hroot, fun n hn => ?_, ?_⟩
          · exact (htop n (List.mem_reverse.mp hn)).1
          · rw [Node.everywhere_in_iff]
            exact fun n hn => (htop n (List.mem_reverse.mp hn)).2
        · cases h

theorem Document.IsRead.tags {doc : Document} (h : doc.IsRead) : ∀ tag ∈ doc.tags, tag.IsRead := by
  refine Node.tags_of_everywhere_in doc.nodes false (Node.EverywhereIn.imp ?_ _ _ h.nodes)
  rintro kept (⟨tag, children⟩ | ⟨kind, s⟩) hn
  · exact hn.1
  · trivial

theorem join_texts_filter (ns : List Node) :
    joinTexts (ns.filter (· != .leaf .text "")) = joinTexts ns := by
  induction ns with
  | nil => rfl
  | cons n ns ih =>
      by_cases hn : n = .leaf .text ""
      · rw [List.filter_cons_of_neg (by simp [hn]), ih, hn, join_texts_empty]
      · rw [List.filter_cons_of_pos (by simpa using hn)]
        rcases n.text_or_other with ⟨s, rfl⟩ | hother
        · have hs : s ≠ "" := by simpa using hn
          rw [join_texts_text hs, join_texts_text hs, ih]
        · rw [join_texts_other hother, join_texts_other hother, ih]

/-- Without padding the children of an element are all that stands in it. -/
theorem join_texts_spread_compact (depth : Nat) (ns : List Node) :
    joinTexts (Layout.compact.spread depth ns) = joinTexts ns := by
  have haround : (ns.flatMap (Layout.compact.around (depth + 1))).filter (· != .leaf .text "") =
      ns.filter (· != .leaf .text "") := by
    induction ns with
    | nil => rfl
    | cons n ns ih =>
        rw [List.flatMap_cons, List.filter_append, ih, List.filter_cons (x := n)]
        split <;> simp_all [Layout.around, Layout.compact, Layout.pad, Layout.newline]
  unfold Layout.spread
  split
  · rename_i hempty
    rw [List.isEmpty_iff.mp hempty]
  · rw [← join_texts_filter, ← join_texts_filter ns, ← haround]
    simp [Layout.compact, Layout.pad, Layout.newline]

namespace Node

/-- Whether the children of a node are joined and settled. -/
def IsSettled (kept : Bool) : Node → Prop
  | .leaf .. => True
  | .element tag children => IsJoined children ∧ settle tag kept children = children

mutual

/-- A settled node is read back as it is from compact text. -/
theorem reread_compact : (n : Node) → (depth : Nat) → (kept : Bool) →
    n.Everywhere IsSettled kept → n.reread .compact depth kept = n
  | .leaf .., _, _, _ => rfl
  | .element tag children, depth, kept, h => by
      obtain ⟨⟨hjoined, hsettled⟩, hchildren⟩ := h
      have hinside : Layout.compact.inside children = .compact := by
        unfold Layout.inside
        split <;> rfl
      have hread := reread_all_compact children (depth + 1) (kept || tag.preservesSpace) hchildren
      rw [reread, hinside, hread, join_texts_spread_compact, join_texts_of_joined hjoined, hsettled]

theorem reread_all_compact : (ns : List Node) → (depth : Nat) → (kept : Bool) →
    EverywhereIn IsSettled kept ns → rereadAll .compact depth kept ns = ns
  | [], _, _, _ => rfl
  | n :: ns, depth, kept, h => by
      rw [rereadAll, reread_compact n depth kept h.1, reread_all_compact ns depth kept h.2]

end

end Node

end SvgPress
