import SvgPress.Proofs.Pass.Dissolving
import SvgPress.Proofs.Pass.Retagging
import SvgPress.Proofs.Pipeline.Stages

/-!
The passes of the library as stages, each with what it looks for.
-/

namespace SvgPress

open Node

/-- Whether a document has text at top level depends on its texts there. -/
theorem textless_of_texts {doc other : Document} (h : doc.IsTextless)
    (htexts : textsOf other.nodes = textsOf doc.nodes) : other.IsTextless := by
  have hnone : textsOf doc.nodes = [] := List.filter_eq_nil_iff.mpr fun n hn => by simp [h n hn]
  rw [hnone, textsOf, List.filter_eq_nil_iff] at htexts
  exact fun n hn => by simpa using htexts n hn

namespace Stage

/-- A stage is lawful if its cut and its change of tags are. -/
theorem IsLawful.of_parts {cut : List Node → List Node} {retag : List Tag → Tag → Tag}
    {p : List Node → Prop} (hcut : ∀ ns, Shrinks countAll ns (cut ns) (p ns))
    (hpadded : ∀ {doc other}, Padded doc other → p doc.nodes → p other.nodes)
    (hnames : ∀ tags tag, (retag tags tag).name = tag.name)
    (hordinary : ∀ doc : Document, doc.IsOrdinary → Document.IsOrdinary ⟨cut doc.nodes⟩)
    (hretag : ∀ tags, (∀ tag ∈ tags, tag.IsOrdinary) → Retags (retag tags)) :
    IsLawful ⟨fun doc => ⟨cut doc.nodes⟩, retag⟩ where
  cuts doc := (hcut doc.nodes).same_or_less.imp_left (congrArg Document.mk)
  padded {doc other} h hsame := by
    have hp : p doc.nodes := (hcut doc.nodes).eq_iff.mp (congrArg Document.nodes hsame)
    exact congrArg Document.mk ((hcut other.nodes).same (hpadded h hp))
  names := hnames
  ordinary doc h := by
    have hafter := hordinary doc h
    have hg := hretag doc.tags h.tags
    exact ⟨textless_of_texts hafter.textless (texts_map_tags _ _),
      ordinary_map_tags_of hg _ false false (fun hkept => hkept) hafter.nodes⟩

/-! ### Nodes that a test rejects -/

/-- The stage that drops the nodes that a test rejects. -/
def dropping (keep : Node → Bool) : Stage where
  cut := (·.prune keep)
  retag _ tag := tag

theorem ordinary_prune_nodes {keep : Node → Bool} (htext : ∀ s, keep (.leaf .text s))
    {doc : Document} (h : doc.IsOrdinary) : Document.IsOrdinary ⟨pruneAll keep doc.nodes⟩ :=
  ⟨textless_of_texts h.textless (texts_prune_all htext doc.nodes),
    ordinary_prune_all htext doc.nodes false h.nodes⟩

theorem lawful_dropping {keep : Node → Bool} (htext : ∀ s, keep (.leaf .text s))
    (helement : ∀ tag children others,
      (NodeRemoval.isGenerated (textOf others) → NodeRemoval.isGenerated (textOf children)) →
      keep (.element tag children) → keep (.element tag others)) : (dropping keep).IsLawful :=
  .of_parts (fun ns => shrinks_prune_all keep ns false)
    (fun hpadded => hpadded.pads.kept_by htext helement) (fun _ _ => rfl)
    (fun _ => ordinary_prune_nodes htext) (fun _ _ => .id)

/-- The stage that tidies definitions is lawful; texts among them are the only ones that it takes
away. -/
theorem lawful_tidying : tidying.IsLawful := by
  refine .of_parts (fun ns => Definitions.shrinks_tidy_all false ns false) ?_ (fun _ _ => rfl) ?_
    (fun _ _ => .id)
  · rintro doc other hpadded ⟨-, htidy⟩
    exact ⟨fun h => (Bool.false_ne_true h).elim, hpadded.pads.tidy hpadded.defs htidy⟩
  · intro doc h
    exact ⟨textless_of_texts h.textless (Definitions.texts_tidy_all doc.nodes),
      Definitions.ordinary_tidy_all false doc.nodes false h.nodes⟩

/-! ### Editors -/

/-- The prefixes that tags bind to namespaces of editors. -/
def boundIn (tags : List Tag) : List String :=
  tags.flatMap fun tag => tag.attributes.filterMap fun a =>
    if EditorData.namespaces.contains a.value then EditorData.declared? a.name else none

/-- Whether a node is no element under one of the prefixes. -/
def isNative (prefixes : List String) : Node → Bool
  | .element tag _ => !EditorData.isForeign prefixes tag.name
  | .leaf .. => true

/-- The stage that takes away what belongs to editors. -/
def stripping : Stage where
  cut doc := doc.prune (isNative (boundIn doc.tags))
  retag tags tag := tag.keepAttributes (EditorData.isOwn (boundIn tags))

theorem strip_none (doc : Document) :
    (doc.prune (isNative [])).mapTags (·.keepAttributes (EditorData.isOwn [])) = doc := by
  have hforeign (name : String) : EditorData.isForeign [] name = false := by
    rw [EditorData.isForeign]
    cases EditorData.prefixOf? name <;> simp
  have hnative (n : Node) : isNative [] n := by
    cases n with
    | element tag children => simp [isNative, hforeign]
    | leaf kind s => rfl
  have hown (a : Attribute) : EditorData.isOwn [] a := by
    rw [EditorData.isOwn, hforeign]
    cases EditorData.declared? a.name <;> simp
  have hprune : doc.prune (isNative []) = doc := by
    refine congrArg Document.mk ((shrinks_prune_all (isNative []) doc.nodes false).same ?_)
    exact EverywhereIn.imp (fun _ n _ => hnative n) _ _ (everywhere_in_trivial doc.nodes false)
  rw [hprune, Document.map_tags_eq_self_iff]
  intro tag _
  exact congrArg (Tag.mk tag.name) (List.filter_eq_self.mpr fun a _ => hown a)

theorem strip_eq (doc : Document) :
    EditorData.strip (EditorData.prefixes EditorData.namespaces doc) doc = stripping.apply doc := by
  have hbound : EditorData.prefixes EditorData.namespaces doc = boundIn doc.tags := rfl
  have happly : stripping.apply doc = (doc.prune (isNative (boundIn doc.tags))).mapTags
      (·.keepAttributes (EditorData.isOwn (boundIn doc.tags))) := rfl
  rw [hbound, happly, EditorData.strip]
  split
  · rename_i hempty
    rw [List.isEmpty_iff.mp hempty, strip_none]
  · congr 2

/-- No tag that was read gives the prefix of the request to keep white space to an editor. -/
theorem xml_not_bound {tags : List Tag} (h : ∀ tag ∈ tags, tag.IsOrdinary) :
    "xml" ∉ boundIn tags := by
  intro hmem
  obtain ⟨tag, htag, hbinds⟩ := List.mem_flatMap.mp hmem
  obtain ⟨a, ha, hdeclares⟩ := List.mem_filterMap.mp hbinds
  split at hdeclares
  · rename_i heditor
    have hname : a.name = "xmlns:xml" := Markup.drop_prefix_eq_some_iff.mp hdeclares
    rw [h tag htag |>.attributes a ha hname] at heditor
    have hother : EditorData.namespaces.contains xmlNamespace = false := by decide +kernel
    rw [hother] at heditor
    cases heditor
  · cases hdeclares

theorem own_space_request {prefixes : List String} (h : "xml" ∉ prefixes) :
    EditorData.isOwn prefixes spaceRequest := by
  have hdeclared : EditorData.declared? spaceRequest.name = none := by decide +kernel
  have hprefix : EditorData.prefixOf? spaceRequest.name = some "xml" := by decide +kernel
  simp [EditorData.isOwn, EditorData.isForeign, hdeclared, hprefix, h]

theorem lawful_stripping : stripping.IsLawful := by
  have hcut (ns : List Node) := shrinks_prune_all (isNative (boundIn (tagsOf ns))) ns false
  refine .of_parts hcut ?_ (fun _ _ => rfl) ?_ ?_
  · intro doc other hpadded h
    have htags : tagsOf other.nodes = tagsOf doc.nodes := hpadded.pads.tags
    rw [htags]
    exact hpadded.pads.kept_by (fun _ => rfl) (fun _ _ _ _ hkeep => hkeep) h
  · exact fun doc h => ordinary_prune_nodes (fun _ => rfl) h
  · exact fun tags h => .keep (own_space_request (xml_not_bound h))

/-! ### What stands in the root element -/

/-- A property of the children of the root element, if there is one. -/
def InRoot (p : List Node → Prop) : List Node → Prop
  | [] => True
  | .element _ children :: _ => p children
  | .leaf .. :: rest => InRoot p rest

/-- The stage that changes what stands in the root element. -/
def within (cut : List Node → List Node) : Stage where
  cut := (·.mapRoot fun tag children => .element tag (cut children))
  retag _ tag := tag

theorem shrinks_map_root {cut : List Node → List Node} {p : List Node → Prop}
    (h : ∀ ns, Shrinks countAll ns (cut ns) (p ns)) (ns : List Node) :
    Shrinks countAll ns (Document.mapRoot.go (fun tag children => .element tag (cut children)) ns)
      (InRoot p ns) := by
  induction ns with
  | nil => exact .refl _ trivial
  | cons n ns ih =>
      cases n with
      | element tag children =>
          refine ((shrinks_children tag (h children)).append count_all_append
            (.refl ns trivial)).congr ?_
          exact and_iff_left trivial
      | leaf kind s =>
          refine ((Shrinks.refl [.leaf kind s] trivial).append count_all_append ih).congr ?_
          exact and_iff_right trivial

theorem in_root_padded {p : List Node → Prop} (hp : ∀ {ns ms}, Pads ns ms → p ns → p ms)
    {ns ms : List Node} (h : Pads ns ms) (hns : InRoot p ns) : InRoot p ms := by
  induction h with
  | nil => trivial
  | gone s _ ih => exact ih hns
  | come s _ ih => exact ih hns
  | leaf kind s _ _ ih => exact ih hns
  | element tag _ _ hbelow _ _ _ => exact hp hbelow hns

theorem texts_map_root (cut : List Node → List Node) (ns : List Node) :
    textsOf (Document.mapRoot.go (fun tag children => .element tag (cut children)) ns) =
      textsOf ns := by
  induction ns with
  | nil => rfl
  | cons n ns ih =>
      cases n with
      | element tag children => rfl
      | leaf kind s =>
          rw [textsOf, textsOf] at ih
          rw [Document.mapRoot.go, textsOf, textsOf, List.filter_cons, List.filter_cons, ih]

theorem ordinary_map_root {cut : List Node → List Node}
    (h : ∀ tag children, (Node.element tag children).Everywhere Node.IsOrdinary false →
      (Node.element tag (cut children)).Everywhere Node.IsOrdinary false) {ns : List Node}
    (hns : EverywhereIn Node.IsOrdinary false ns) : EverywhereIn Node.IsOrdinary false
      (Document.mapRoot.go (fun tag children => .element tag (cut children)) ns) := by
  induction ns with
  | nil => trivial
  | cons n ns ih =>
      cases n with
      | element tag children => exact ⟨h tag children hns.1, hns.2⟩
      | leaf kind s => exact ⟨hns.1, ih hns.2⟩

theorem lawful_within {cut : List Node → List Node} {p : List Node → Prop}
    (hcut : ∀ ns, Shrinks countAll ns (cut ns) (p ns)) (hp : ∀ {ns ms}, Pads ns ms → p ns → p ms)
    (hordinary : ∀ tag children, (Node.element tag children).Everywhere Node.IsOrdinary false →
      (Node.element tag (cut children)).Everywhere Node.IsOrdinary false) :
    (within cut).IsLawful := by
  refine .of_parts (shrinks_map_root hcut) (fun hpadded => in_root_padded hp hpadded.pads)
    (fun _ _ => rfl) ?_ (fun _ _ => .id)
  intro doc h
  exact ⟨textless_of_texts h.textless (texts_map_root cut doc.nodes),
    ordinary_map_root hordinary h.nodes⟩

theorem lawful_collapse : (within Groups.collapseAll).IsLawful := by
  refine lawful_within (fun ns => Groups.shrinks_collapse_all ns false) Pads.fixed ?_
  rintro tag children ⟨hhere, hbelow⟩
  have hdissolves := Groups.dissolves_collapse_all children _ hbelow
  rw [Bool.false_or] at hdissolves
  exact ⟨Groups.ordinary_of_dissolved hhere (by rwa [Bool.false_or]), hdissolves.ordinary⟩

theorem lawful_shrink : (within EmptyContainers.shrinkAll).IsLawful := by
  refine lawful_within (fun ns => EmptyContainers.shrinks_shrink_all ns false) Pads.used ?_
  rintro tag children ⟨hhere, hbelow⟩
  exact ⟨IsOrdinary.of_texts hhere hhere.1 (fun hkeeps => hkeeps)
      (EmptyContainers.texts_shrink_all children),
    EmptyContainers.ordinary_shrink_all children _ hbelow⟩

/-! ### Tags -/

/-- The stage that changes tags only. -/
def labelling (retag : List Tag → Tag → Tag) : Stage where
  cut doc := doc
  retag := retag

theorem lawful_labelling {retag : List Tag → Tag → Tag} (h : ∀ tags, Retags (retag tags)) :
    (labelling retag).IsLawful := by
  have hcut (ns : List Node) : Shrinks countAll ns ns True := .refl ns trivial
  exact .of_parts hcut (fun _ _ => trivial) (fun tags => (h tags).name) (fun _ hdoc => hdoc)
    fun tags _ => h tags

end Stage

end SvgPress
