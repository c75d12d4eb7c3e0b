import SvgPress.Batch
import SvgPress.Proofs.Markup.RoundTrip
import SvgPress.Proofs.Pass.Parts
import SvgPress.Proofs.Pipeline.DefaultSteps

/-!
A file that was accepted is delivered. Passes keep the root and leave nothing in a document that
could not be written and read again, so neither they nor the conversion of what they leave can fail.
-/

namespace SvgPress

open Markup Node

/-- An element all of whose names are names of the markup language, or a leaf of which something is
known. -/
def Node.IsXml (leaf : LeafKind → String → Prop) : Node → Prop
  | .element tag _ => tag.IsXml
  | .leaf kind s => leaf kind s

theorem Node.is_xml_shallow (leaf : LeafKind → String → Prop) : IsShallow (Node.IsXml leaf) :=
  fun _ _ => Iff.rfl

namespace Document

/-- The name of the root element, if there is one. -/
def rootName? (doc : Document) : Option String :=
  doc.root?.map (·.1.name)

/-- What is known of a drawing while passes change it. What is known of its leaves is left open. -/
structure IsDrawing (leaf : LeafKind → String → Prop) (doc : Document) : Prop where
  textless : doc.IsTextless
  parts : ∀ part ∈ partsOf doc.nodes, part.IsXml leaf
  root : doc.rootName? = some "svg"

/-! ### The root element -/

theorem root_name_map_tags {g : Tag → Tag} (hname : ∀ tag, (g tag).name = tag.name)
    (doc : Document) : (doc.mapTags g).rootName? = doc.rootName? := by
  obtain ⟨ns⟩ := doc
  induction ns with
  | nil => rfl
  | cons n ns ih =>
      cases n with
      | element tag children => exact congrArg some (hname tag)
      | leaf kind s => exact ih

theorem root_name_prune {keep : Node → Bool} {name : String}
    (hkeep : ∀ tag children, tag.name = name → keep (.element tag children)) {doc : Document}
    (h : doc.rootName? = some name) : (doc.prune keep).rootName? = some name := by
  obtain ⟨ns⟩ := doc
  induction ns with
  | nil => exact h
  | cons n ns ih =>
      rw [prune, pruneAll]
      cases n with
      | element tag children =>
          have hname : tag.name = name := Option.some.inj h
          rw [if_pos (hkeep tag children hname)]
          exact h
      | leaf kind s =>
          split
          · exact ih h
          · exact ih h

theorem root_name_tidy (doc : Document) :
    rootName? ⟨Definitions.tidyAll false doc.nodes⟩ = doc.rootName? := by
  obtain ⟨ns⟩ := doc
  induction ns with
  | nil => rfl
  | cons n ns ih =>
      rw [Definitions.tidyAll, if_neg (by simp)]
      cases n with
      | element tag children => rfl
      | leaf kind s => exact ih

theorem root_name_map_root (cut : List Node → List Node) (doc : Document) :
    (doc.mapRoot fun tag children => .element tag (cut children)).rootName? = doc.rootName? := by
  obtain ⟨ns⟩ := doc
  induction ns with
  | nil => rfl
  | cons n ns ih =>
      cases n with
      | element tag children => rfl
      | leaf kind s => exact ih

theorem root_name_reread (layout : Layout) (doc : Document) :
    (doc.reread layout).rootName? = doc.rootName? := by
  obtain ⟨ns⟩ := doc
  induction ns with
  | nil => rfl
  | cons n ns ih =>
      cases n with
      | element tag children => rfl
      | leaf kind s => exact ih

theorem any_element_of_root_name {doc : Document} {name : String} (h : doc.rootName? = some name) :
    doc.nodes.any isElement := by
  obtain ⟨ns⟩ := doc
  induction ns with
  | nil => cases h
  | cons n ns ih =>
      cases n with
      | element tag children => rfl
      | leaf kind s => exact ih h

/-! ### Read and written -/

variable {leaf : LeafKind → String → Prop} {doc : Document}

/-- A source whose names are names of the markup language, and whose root is called svg, is a
drawing. -/
theorem drawing_of_parse {source : String} (hparse : parse source = .ok doc)
    (hroot : doc.rootName? = some "svg")
    (hnames : ∀ tag ∈ doc.tags, isXmlName tag.name.toList ∧
      ∀ a ∈ tag.attributes, isXmlName a.name.toList) : doc.IsDrawing IsReadLeaf := by
  obtain ⟨-, htextless, hread⟩ := read_of_parse hparse
  refine ⟨htextless, (everywhere_in_iff_parts (is_xml_shallow _) doc.nodes false).mp ?_, hroot⟩
  refine EverywhereIn.imp ?_ _ _ (EverywhereIn.and _ _ hread (everywhere_in_of_tags _ _ hnames))
  rintro kept (⟨tag, children⟩ | ⟨kind, s⟩) ⟨hn, htag⟩
  · exact ⟨htag.1, htag.2, hn.1.distinct⟩
  · exact hn

/-- Whatever the layout, a drawing without doctypes is read from what is written for it. -/
theorem IsDrawing.parse_write (h : doc.IsDrawing fun kind s => IsReadable kind s.toList)
    (layout : Layout) : parse (doc.write layout) = .ok (doc.reread layout) := by
  have hxml := (everywhere_in_iff_parts (is_xml_shallow _) doc.nodes false).mpr h.parts
  rw [parse_eq_ok_iff, Document.parse_write h.textless (EverywhereIn.imp ?_ _ _ hxml),
    if_pos (any_element_of_root_name h.root)]
  rintro kept (⟨tag, children⟩ | ⟨kind, s⟩) hn
  · exact ⟨hn.plain, legible_of_xml_name hn.name children⟩
  · exact hn

end Document

namespace Stage

variable {leaf : LeafKind → String → Prop}

/-- Whether a stage makes a drawing of every drawing. -/
def KeepsDrawings (leaf : LeafKind → String → Prop) (stage : Stage) : Prop :=
  ∀ doc : Document, doc.IsDrawing leaf → (stage.apply doc).IsDrawing leaf

theorem KeepsDrawings.of_parts {stage : Stage}
    (hcut : ∀ doc : Document, doc.IsDrawing leaf → (stage.cut doc).IsDrawing leaf)
    (hname : ∀ tags tag, (stage.retag tags tag).name = tag.name)
    (hxml : ∀ tags tag, tag.IsXml → (stage.retag tags tag).IsXml) : stage.KeepsDrawings leaf := by
  intro doc h
  obtain ⟨htextless, hparts, hroot⟩ := hcut doc h
  refine ⟨textless_of_texts htextless (texts_map_tags _ _), ?_,
    (Document.root_name_map_tags (hname doc.tags) _).trans hroot⟩
  intro part hpart
  rw [apply, Document.mapTags, parts_map_tags_of] at hpart
  obtain ⟨before, hbefore, rfl⟩ := List.mem_map.mp hpart
  have hknown := hparts before hbefore
  cases before with
  | element tag children => exact hxml doc.tags tag hknown
  | leaf kind s => exact hknown

/-- Passes that take away neither texts nor elements with the name of the root. -/
theorem keeps_drawings_prune {keep : Node → Bool} (htext : ∀ s, keep (.leaf .text s))
    (hroot : ∀ tag children, tag.name = "svg" → keep (.element tag children)) {doc : Document}
    (h : doc.IsDrawing leaf) : (doc.prune keep).IsDrawing leaf where
  textless := textless_of_texts h.textless (texts_prune_all htext doc.nodes)
  parts part hpart := h.parts part ((parts_prune_all keep doc.nodes).subset hpart)
  root := Document.root_name_prune hroot h.root

theorem keeps_drawings_dropping {keep : Node → Bool} (htext : ∀ s, keep (.leaf .text s))
    (hroot : ∀ tag children, tag.name = "svg" → keep (.element tag children)) :
    (dropping keep).KeepsDrawings leaf :=
  .of_parts (fun _ => keeps_drawings_prune htext hroot) (fun _ _ => rfl) fun _ _ h => h

theorem keeps_drawings_stripping : stripping.KeepsDrawings leaf := by
  have hown (prefixes : List String) : EditorData.isForeign prefixes "svg" = false := by
    have hprefix : EditorData.prefixOf? "svg" = none := by decide +kernel
    rw [EditorData.isForeign, hprefix]
    rfl
  refine .of_parts (fun doc => keeps_drawings_prune (fun _ => rfl) fun tag _ hname => ?_)
    (fun _ _ => rfl) fun _ _ h => h.keep _
  rw [isNative, hname, hown]
  rfl

theorem keeps_drawings_tidying : tidying.KeepsDrawings leaf := by
  refine .of_parts (fun doc h => ⟨?_, ?_, ?_⟩) (fun _ _ => rfl) fun _ _ h => h
  · exact textless_of_texts h.textless (Definitions.texts_tidy_all doc.nodes)
  · exact fun part hpart =>
      h.parts part ((Definitions.parts_tidy_all false doc.nodes).subset hpart)
  · exact (Document.root_name_tidy doc).trans h.root

theorem keeps_drawings_within {cut : List Node → List Node}
    (hcut : ∀ ns, (∀ part ∈ partsOf ns, part.IsXml leaf) →
      ∀ part ∈ partsOf (cut ns), part.IsXml leaf) : (within cut).KeepsDrawings leaf := by
  refine .of_parts (fun doc h => ⟨?_, ?_, ?_⟩) (fun _ _ => rfl) fun _ _ h => h
  · exact textless_of_texts h.textless (texts_map_root cut doc.nodes)
  · exact parts_map_root hcut h.parts
  · exact (Document.root_name_map_root cut doc).trans h.root

theorem keeps_drawings_labelling {retag : List Tag → Tag → Tag}
    (hname : ∀ tags tag, (retag tags tag).name = tag.name)
    (hxml : ∀ tags tag, tag.IsXml → (retag tags tag).IsXml) :
    (labelling retag).KeepsDrawings leaf :=
  .of_parts (fun _ h => h) hname hxml

theorem xml_settling (namePrefix : String) (tags : List Tag) {tag : Tag} (h : tag.IsXml) :
    (settling namePrefix tags tag).IsXml := by
  rw [settling]
  split
  · exact h
  · refine Tag.IsXml.map_values ?_ _
    rcases Identifiers.settle_id_cases _ _ _ tag with hsame | ⟨new, hset⟩ | hgone
    · rwa [hsame]
    · rw [hset]
      exact h.set (by decide +kernel) new
    · rw [hgone]
      exact h.remove "id"

/-- None of the default passes makes anything else of a drawing. -/
theorem keeps_drawings_defaults (style : Numerals.Style) (namePrefix : String) :
    ∀ stage ∈ defaultsIn style namePrefix, stage.KeepsDrawings leaf := by
  have hother {kind : LeafKind} (hkind : kind ≠ .text) :
      (dropping (NodeRemoval.isOther kind)).KeepsDrawings leaf :=
    keeps_drawings_dropping (fun _ => by simpa [NodeRemoval.isOther, Node.isLeaf] using hkind.symm)
      fun _ _ _ => rfl
  have hnamed {name : String} (hname : name ≠ "svg") :
      (dropping (NodeRemoval.isNotNamed name)).KeepsDrawings leaf := by
    refine keeps_drawings_dropping (fun _ => rfl) fun tag _ hroot => ?_
    simpa [NodeRemoval.isNotNamed, isNamed, hroot] using hname.symm
  have hworthwhile : (dropping (NodeRemoval.isWorthwhile false)).KeepsDrawings leaf := by
    refine keeps_drawings_dropping (fun _ => rfl) fun tag _ hroot => ?_
    rw [NodeRemoval.isWorthwhile, hroot]
    rfl
  have hvalues {f : Attribute → String} :
      (labelling fun _ tag => tag.mapValues f).KeepsDrawings leaf :=
    keeps_drawings_labelling (fun _ _ => rfl) fun _ _ h => h.map_values f
  have hpaths : (labelling fun _ => PathData.minifyTag style).KeepsDrawings leaf := by
    refine keeps_drawings_labelling (fun _ => (PathData.retags_minify style).name) fun _ tag h => ?_
    rw [PathData.minifyTag]
    split
    · exact h.map_values _
    · exact h
  have hcollapse : (within Groups.collapseAll).KeepsDrawings leaf :=
    keeps_drawings_within (Groups.parts_collapse_all fun _ _ hgroup hchild =>
      hchild.hand_down_all hgroup.keys)
  have hshrink : (within EmptyContainers.shrinkAll).KeepsDrawings leaf :=
    keeps_drawings_within fun ns h part hpart =>
      h part ((EmptyContainers.parts_shrink_all ns).subset hpart)
  simp only [defaultsIn, List.forall_mem_cons]
  exact ⟨hother (by decide), hother (by decide),
    keeps_drawings_dropping (fun _ => rfl) fun _ _ _ => rfl, hnamed (by decide),
    keeps_drawings_stripping, hvalues, hnamed (by decide), hworthwhile, keeps_drawings_tidying,
    keeps_drawings_labelling (fun _ _ => rfl) fun _ _ h => h.keep _, hvalues, hvalues, hpaths,
    keeps_drawings_labelling (fun tags => (retags_settling namePrefix tags).name)
      fun tags _ => xml_settling namePrefix tags,
    hcollapse, hshrink, fun _ hmem => absurd hmem List.not_mem_nil⟩

theorem drawing_run {stages : List Stage} (h : ∀ stage ∈ stages, stage.KeepsDrawings leaf)
    {doc : Document} (hdoc : doc.IsDrawing leaf) : (run stages doc).IsDrawing leaf := by
  induction stages generalizing doc with
  | nil => exact hdoc
  | cons stage rest ih =>
      rw [List.forall_mem_cons] at h
      exact ih h.2 (h.1 doc hdoc)

/-- Doctypes are the only leaves that can be read and need not be readable. -/
theorem readable_without_doctypes {doc : Document} (h : doc.IsDrawing IsReadLeaf) :
    ((dropping (NodeRemoval.isOther .doctype)).apply doc).IsDrawing
      fun kind s => IsReadable kind s.toList := by
  rw [apply_dropping]
  have hpruned : (doc.prune (NodeRemoval.isOther .doctype)).IsDrawing IsReadLeaf :=
    keeps_drawings_prune (fun _ => rfl) (fun _ _ _ => rfl) h
  obtain ⟨htextless, hparts, hroot⟩ := hpruned
  refine ⟨htextless, fun part hpart => ?_, hroot⟩
  have hknown := hparts part hpart
  cases part with
  | element tag children => exact hknown
  | leaf kind s =>
      rcases hknown with ⟨hreadable, -⟩ | ⟨hkind, -⟩
      · exact hreadable
      · have hother : NodeRemoval.isOther .doctype (.leaf kind s) :=
          leaf_of_mem_parts_prune_all doc.nodes hpart
        simp [hkind, NodeRemoval.isOther, isLeaf] at hother

/-- The default passes begin with the one that takes away doctypes. -/
theorem readable_run_defaults (style : Numerals.Style) (namePrefix : String) {doc : Document}
    (h : doc.IsDrawing IsReadLeaf) : (run (defaultsIn style namePrefix) doc).IsDrawing
      fun kind s => IsReadable kind s.toList := by
  have hfirst : defaultsIn style namePrefix =
      dropping (NodeRemoval.isOther .doctype) :: (defaultsIn style namePrefix).tail := rfl
  rw [hfirst, run, List.foldl_cons]
  exact drawing_run (fun stage hstage =>
    keeps_drawings_defaults style namePrefix stage (List.mem_of_mem_tail hstage))
    (readable_without_doctypes h)

end Stage

theorem Jsx.convert_of_root {markup : String} {doc : Document} {tag : Tag} {children : List Node}
    (hparse : Document.parse markup = .ok doc) (hroot : doc.root? = some (tag, children))
    (indent : Nat) : Jsx.convert indent markup =
      .ok (Text.trimEnd (Jsx.write indent 0 (.element tag children))) := by
  simp only [convert, hparse, hroot]

namespace Optimizer

/-- A drawing that can be read goes through the default passes and the conversion, whatever else the
configuration says, and what comes out is a drawing again. -/
theorem process_default_ok {config : Config} (hplugins : config.plugins = Config.defaultPlugins)
    (files : Files) (path : Path) {source : String} {doc : Document}
    (hparse : Document.parse source = .ok doc) (hroot : doc.rootName? = some "svg")
    (hnames : ∀ tag ∈ doc.tags, isXmlName tag.name.toList ∧
      ∀ a ∈ tag.attributes, isXmlName a.name.toList) (indent : Nat) :
    let optimizer := (ofConfig config Catalog.builtin files).value
    ∃ optimized again root children,
      (optimizer.optimize path source).value = .ok optimized ∧
      Document.parse optimized.markup = .ok again ∧ again.root? = some (root, children) ∧
      root.name = "svg" ∧
      Jsx.convert indent optimized.markup =
        .ok (Text.trimEnd (Jsx.write indent 0 (.element root children))) ∧
      ∃ output, (optimizer.process (Jsx.convert indent) path source).value = .ok output ∧
        output.markup = optimized.markup := by
  intro optimizer
  obtain ⟨outcome, hsettle, hpasses⟩ :=
    settle_of_runs (runs_of_default_plugins hplugins files path) doc
  have hdrawing := Document.drawing_of_parse hparse hroot hnames
  obtain ⟨n, hn⟩ := Nat.exists_eq_succ_of_ne_zero hpasses
  have hlast :
      ((Stage.run (Stage.defaultsIn config.numberStyle (Naming.idPrefix path)))^[outcome.passes]
      doc).IsDrawing fun kind s => IsReadable kind s.toList := by
    rw [hn, Function.iterate_succ_apply]
    exact Function.Iterate.rec (fun next : Document => next.IsDrawing _)
      (Stage.readable_run_defaults _ _ hdrawing)
      (fun next hnext => Stage.drawing_run (Stage.keeps_drawings_defaults _ _) hnext) n
  generalize
    (Stage.run (Stage.defaultsIn config.numberStyle (Naming.idPrefix path)))^[outcome.passes]
      doc = last at hsettle hlast
  have hagain := hlast.parse_write config.layout
  have hname := (Document.root_name_reread config.layout last).trans hlast.root
  obtain ⟨⟨root, children⟩, hfound, hsvg⟩ := Option.map_eq_some_iff.mp hname
  have hoptimize : (optimizer.optimize path source).value =
      .ok ⟨last.write config.layout, outcome⟩ :=
    optimize_ok_iff.mpr ⟨doc, last, hparse, hsettle, rfl⟩
  have hconvert := Jsx.convert_of_root hagain hfound indent
  refine ⟨_, _, root, children, hoptimize, hagain, hfound, hsvg, hconvert, ?_⟩
  simp only [process, Logged.value_bind, hoptimize, hconvert, Logged.value_pure]
  exact ⟨_, rfl, rfl⟩

/-- A drawing with an empty doctype, which could not be written and read again, and a group whose
attributes are handed down. -/
theorem process_default_doctype :
    let source := "<!DOCTYPE \u00a0><svg><g fill=\"red\"><path d=\"M0.25 0\"/></g></svg>"
    let config : Config := { Config.default with floatPrecision := some 1, prettyOutput := false }
    let optimizer := (ofConfig config Catalog.builtin noFiles).value
    Document.parse source = .ok ⟨[.leaf .doctype "",
        .element ⟨"svg", []⟩ [.element ⟨"g", [⟨"fill", "red"⟩]⟩
          [.element ⟨"path", [⟨"d", "M0.25 0"⟩]⟩ []]]]⟩ ∧
      ∃ optimized again root children,
        (optimizer.optimize ⟨"a.svg"⟩ source).value = .ok optimized ∧
        Document.parse optimized.markup = .ok again ∧ again.root? = some (root, children) ∧
        root.name = "svg" ∧
        Jsx.convert 2 optimized.markup =
          .ok (Text.trimEnd (Jsx.write 2 0 (.element root children))) ∧
        ∃ output, (optimizer.process (Jsx.convert 2) ⟨"a.svg"⟩ source).value = .ok output ∧
          output.markup = optimized.markup := by
  intro source config
  have hplugins : config.plugins = Config.defaultPlugins := rfl
  have hparse : Document.parse source = .ok ⟨[.leaf .doctype "",
      .element ⟨"svg", []⟩ [.element ⟨"g", [⟨"fill", "red"⟩]⟩
        [.element ⟨"path", [⟨"d", "M0.25 0"⟩]⟩ []]]]⟩ := by decide +kernel
  exact ⟨hparse, process_default_ok hplugins noFiles ⟨"a.svg"⟩ hparse (by decide +kernel)
    (by decide +kernel) 2⟩

end Optimizer

end SvgPress
