import SvgPress.Proofs.Markup.Reprint
import SvgPress.Proofs.Markup.Tree
import SvgPress.Proofs.Pass.Cuts

/-!
What stays true of a document that was read while passes change it. Names can still be read back, so
can every leaf, and text that is nothing but white space stands only where white space is kept or
beside other text. The last of these would be lost with an attribute that asks for white space to be
kept; no pass takes one away, unless a document gives the prefix of that attribute another meaning.
-/

namespace SvgPress

open Markup Node

/-- What the prefix `xml` stands for without being declared. -/
def xmlNamespace : String :=
  "http://www.w3.org/XML/1998/namespace"

/-- Whether an attribute declares the prefix `xml` as what it is, if it declares it. -/
def Attribute.IsOrdinary (a : Attribute) : Prop :=
  a.name = "xmlns:xml" → a.value = xmlNamespace

/-- Whether the names of a tag can be read back and it gives the prefix `xml` no other meaning. -/
structure Tag.IsOrdinary (tag : Tag) : Prop where
  plain : tag.IsPlain
  attributes : ∀ a ∈ tag.attributes, a.IsOrdinary

/-- What is known of a node while passes change its document, apart from its children. -/
def Node.IsOrdinary (kept : Bool) : Node → Prop
  | .leaf kind s => IsReadLeaf kind s
  | .element tag children =>
    tag.IsOrdinary ∧ (children.any (isLeaf .text) → tag.keepsPadding kept ∨ children.any showsText)

/-- A change of tags that keeps them ordinary and takes no request to keep white space away. -/
structure Retags (g : Tag → Tag) : Prop where
  name : ∀ tag, (g tag).name = tag.name
  ordinary : ∀ tag, tag.IsOrdinary → (g tag).IsOrdinary
  space : ∀ tag, tag.IsOrdinary → tag.preservesSpace → (g tag).preservesSpace

/-- What is known of a document while passes change it. -/
structure Document.IsOrdinary (doc : Document) : Prop where
  textless : doc.IsTextless
  nodes : EverywhereIn Node.IsOrdinary false doc.nodes

theorem Document.IsOrdinary.tags {doc : Document} (h : doc.IsOrdinary) :
    ∀ tag ∈ doc.tags, tag.IsOrdinary := by
  refine tags_of_everywhere_in doc.nodes false (EverywhereIn.imp ?_ _ _ h.nodes)
  rintro kept (⟨tag, children⟩ | ⟨kind, s⟩) hn
  · exact hn.1
  · trivial

/-- Fewer attributes, or the same ones with other values. -/
theorem Tag.IsOrdinary.of_sublist {tag other : Tag} (h : tag.IsOrdinary)
    (hname : other.name = tag.name)
    (hsub : (other.attributes.map (·.name)).Sublist (tag.attributes.map (·.name)))
    (hattributes : ∀ a ∈ other.attributes, a.IsOrdinary) : other.IsOrdinary where
  plain :=
    { name := by rw [hname]; exact h.plain.name
      keys := fun a ha => by
        have hmem := hsub.subset (List.mem_map_of_mem ha)
        obtain ⟨b, hb, hbname⟩ := List.mem_map.mp hmem
        rw [← hbname]
        exact h.plain.keys b hb
      distinct := h.plain.distinct.sublist hsub }
  attributes := hattributes

theorem Tag.IsOrdinary.set {tag : Tag} (h : tag.IsOrdinary) {a : Attribute}
    (hkey : isPlainKey a.name.toList) (ha : a.IsOrdinary) :
    (tag.setAttribute a.name a.value).IsOrdinary := by
  refine ⟨⟨h.plain.name, fun b hb => ?_, ?_⟩, fun b hb => ?_⟩
  · rcases Attributes.mem_set hb with hold | rfl
    · exact h.plain.keys b hold
    · exact hkey
  · exact Attributes.nodup_set h.plain.distinct a.value
  · rcases Attributes.mem_set hb with hold | rfl
    · exact h.attributes b hold
    · exact ha

theorem Tag.IsOrdinary.remove {tag : Tag} (h : tag.IsOrdinary) (name : String) :
    (tag.removeAttribute name).IsOrdinary := by
  have hsub : (tag.attributes.remove name).Sublist tag.attributes := List.eraseP_sublist
  exact h.of_sublist rfl (hsub.map _) fun a ha => h.attributes a (hsub.subset ha)

/-! ### Texts -/

/-- The texts among some nodes. -/
def textsOf (ns : List Node) : List Node :=
  ns.filter (isLeaf .text)

theorem any_of_texts {p : Node → Bool} (hp : ∀ n, p n → n.isLeaf .text) {ns ms : List Node}
    (h : textsOf ms = textsOf ns) : ms.any p = ns.any p := by
  have hsame (l : List Node) : l.any p = (textsOf l).any p := by
    rw [Bool.eq_iff_iff, List.any_eq_true, List.any_eq_true]
    constructor
    · rintro ⟨n, hn, hholds⟩
      exact ⟨n, List.mem_filter.mpr ⟨hn, hp n hholds⟩, hholds⟩
    · rintro ⟨n, hn, hholds⟩
      exact ⟨n, (List.mem_filter.mp hn).1, hholds⟩
  rw [hsame ms, h, ← hsame ns]

/-- An element whose texts are the same stays ordinary where white space is kept as before. -/
theorem IsOrdinary.of_texts {tag other : Tag} {children others : List Node} {kept outside : Bool}
    (h : (Node.element tag children).IsOrdinary kept) (htag : other.IsOrdinary)
    (hkeeps : tag.keepsPadding kept → other.keepsPadding outside)
    (htexts : textsOf others = textsOf children) :
    (Node.element other others).IsOrdinary outside := by
  refine ⟨htag, fun htext => ?_⟩
  rw [any_of_texts (fun _ hn => hn) htexts] at htext
  rw [any_of_texts (fun _ hn => text_of_shows_text hn) htexts]
  exact (h.2 htext).imp_left hkeeps

theorem keeps_padding_mono {tag other : Tag} {kept outside : Bool} (hname : other.name = tag.name)
    (hspace : tag.preservesSpace → other.preservesSpace) (hkept : kept → outside) :
    tag.keepsPadding kept → other.keepsPadding outside := by
  simp only [Tag.keepsPadding, Bool.or_eq_true, hname]
  rintro ((hlisted | hasks) | hout)
  · exact .inl (.inl hlisted)
  · exact .inl (.inr (hspace hasks))
  · exact .inr (hkept hout)

theorem kept_mono {kept outside : Bool} {tag other : Tag}
    (hspace : tag.preservesSpace → other.preservesSpace) (hkept : kept → outside) :
    (kept || tag.preservesSpace) → (outside || other.preservesSpace) := by
  simp only [Bool.or_eq_true]
  exact Or.imp hkept hspace

/-! ### Changed tags -/

theorem texts_map_tags (g : Tag → Tag) (ns : List Node) :
    textsOf (mapTagsOf g ns) = textsOf ns := by
  induction ns with
  | nil => rfl
  | cons n ns ih =>
      rw [textsOf, textsOf] at ih
      cases n with
      | element tag children => exact ih
      | leaf kind s =>
          rw [mapTagsOf, mapTags, textsOf, textsOf, List.filter_cons, List.filter_cons, ih]

mutual

theorem ordinary_map_tags {g : Tag → Tag} (hg : Retags g) : (n : Node) → (kept outside : Bool) →
    (kept → outside) → n.Everywhere Node.IsOrdinary kept →
    (n.mapTags g).Everywhere Node.IsOrdinary outside
  | .leaf .., _, _, _, h => h
  | .element tag children, kept, outside, hkept, h => by
      have hspace := hg.space tag h.1.1
      exact ⟨IsOrdinary.of_texts h.1 (hg.ordinary tag h.1.1)
          (keeps_padding_mono (hg.name tag) hspace hkept) (texts_map_tags g children),
        ordinary_map_tags_of hg children _ _ (kept_mono hspace hkept) h.2⟩

theorem ordinary_map_tags_of {g : Tag → Tag} (hg : Retags g) : (ns : List Node) →
    (kept outside : Bool) → (kept → outside) → EverywhereIn Node.IsOrdinary kept ns →
    EverywhereIn Node.IsOrdinary outside (mapTagsOf g ns)
  | [], _, _, _, _ => trivial
  | n :: ns, kept, outside, hkept, h =>
      ⟨ordinary_map_tags hg n kept outside hkept h.1,
        ordinary_map_tags_of hg ns kept outside hkept h.2⟩

end

/-! ### Nodes taken away -/

theorem texts_prune_all {keep : Node → Bool} (hkeep : ∀ s, keep (.leaf .text s)) (ns : List Node) :
    textsOf (pruneAll keep ns) = textsOf ns := by
  induction ns with
  | nil => rfl
  | cons n ns ih =>
      rcases n.text_or_other with ⟨s, rfl⟩ | hother
      · rw [pruneAll, if_pos (hkeep s), textsOf, textsOf, List.filter_cons_of_pos rfl,
          List.filter_cons_of_pos rfl]
        exact congrArg _ ih
      · have hpruned : (n.prune keep).isLeaf .text = false := by
          cases n <;> exact hother
        rw [pruneAll, textsOf, textsOf, List.filter_cons_of_neg (by simp [hother])]
        split
        · rw [List.filter_cons_of_neg (by simp [hpruned])]
          exact ih
        · exact ih

mutual

theorem ordinary_prune {keep : Node → Bool} (hkeep : ∀ s, keep (.leaf .text s)) : (n : Node) →
    (kept : Bool) → n.Everywhere Node.IsOrdinary kept →
    (n.prune keep).Everywhere Node.IsOrdinary kept
  | .leaf .., _, h => h
  | .element _ children, _, h =>
      ⟨IsOrdinary.of_texts h.1 h.1.1 (fun hkeeps => hkeeps) (texts_prune_all hkeep children),
        ordinary_prune_all hkeep children _ h.2⟩

theorem ordinary_prune_all {keep : Node → Bool} (hkeep : ∀ s, keep (.leaf .text s)) :
    (ns : List Node) → (kept : Bool) → EverywhereIn Node.IsOrdinary kept ns →
    EverywhereIn Node.IsOrdinary kept (pruneAll keep ns)
  | [], _, _ => trivial
  | n :: ns, kept, h => by
      rw [pruneAll]
      split
      · exact ⟨ordinary_prune hkeep n kept h.1, ordinary_prune_all hkeep ns kept h.2⟩
      · exact ordinary_prune_all hkeep ns kept h.2

end

namespace Definitions

theorem texts_tidy_all (ns : List Node) : textsOf (tidyAll false ns) = textsOf ns := by
  induction ns with
  | nil => rfl
  | cons n ns ih =>
      rw [tidyAll, if_neg (by simp)]
      cases n with
      | element tag children => exact ih
      | leaf kind s =>
          rw [tidy, textsOf, textsOf, List.filter_cons, List.filter_cons]
          rw [textsOf, textsOf] at ih
          rw [ih]

/-- No text is left among definitions. -/
theorem any_text_tidy_all (ns : List Node) : (tidyAll true ns).any (isLeaf .text) = false := by
  induction ns with
  | nil => rfl
  | cons n ns ih =>
      rw [tidyAll]
      cases n with
      | leaf kind s => exact ih
      | element tag children =>
          split
          · exact ih
          · rw [List.any_cons, ih]
            rfl

mutual

theorem ordinary_tidy : (n : Node) → (kept : Bool) → n.Everywhere Node.IsOrdinary kept →
    (tidy n).Everywhere Node.IsOrdinary kept
  | .leaf .., _, h => h
  | .element tag children, kept, h => by
      rw [tidy]
      refine ⟨?_, ordinary_tidy_all (tag.name == "defs") children _ h.2⟩
      cases tag.name == "defs" with
      | false =>
          exact IsOrdinary.of_texts h.1 h.1.1 (fun hkeeps => hkeeps) (texts_tidy_all children)
      | true =>
          refine ⟨h.1.1, fun htext => ?_⟩
          rw [any_text_tidy_all] at htext
          cases htext

theorem ordinary_tidy_all (inDefinitions : Bool) : (ns : List Node) → (kept : Bool) →
    EverywhereIn Node.IsOrdinary kept ns →
    EverywhereIn Node.IsOrdinary kept (tidyAll inDefinitions ns)
  | [], _, _ => trivial
  | n :: ns, kept, h => by
      rw [tidyAll]
      split
      · exact ordinary_tidy_all inDefinitions ns kept h.2
      · exact ⟨ordinary_tidy n kept h.1, ordinary_tidy_all inDefinitions ns kept h.2⟩

end

end Definitions

namespace EmptyContainers

theorem texts_shrink_all (ns : List Node) : textsOf (shrinkAll ns) = textsOf ns := by
  induction ns with
  | nil => rfl
  | cons n ns ih =>
      have hone : textsOf (shrink n) = textsOf [n] := by
        cases n with
        | leaf kind s => rfl
        | element tag children =>
            rw [shrink]
            split <;> rfl
      rw [shrinkAll, textsOf, List.filter_append, ← textsOf, ← textsOf, hone, ih, textsOf, textsOf,
        ← List.filter_append, List.singleton_append, textsOf]

mutual

theorem ordinary_shrink : (n : Node) → (kept : Bool) → n.Everywhere Node.IsOrdinary kept →
    EverywhereIn Node.IsOrdinary kept (shrink n)
  | .leaf .., _, h => ⟨h, trivial⟩
  | .element tag children, kept, h => by
      rw [shrink]
      split
      · trivial
      · exact ⟨⟨IsOrdinary.of_texts h.1 h.1.1 (fun hkeeps => hkeeps) (texts_shrink_all children),
          ordinary_shrink_all children _ h.2⟩, trivial⟩

theorem ordinary_shrink_all : (ns : List Node) → (kept : Bool) →
    EverywhereIn Node.IsOrdinary kept ns → EverywhereIn Node.IsOrdinary kept (shrinkAll ns)
  | [], _, _ => trivial
  | n :: ns, kept, h => everywhere_in_append.mpr
      ⟨ordinary_shrink n kept h.1, ordinary_shrink_all ns kept h.2⟩

end

end EmptyContainers

end SvgPress
