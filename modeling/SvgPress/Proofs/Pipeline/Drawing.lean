import SvgPress.Proofs.Pipeline.DefaultSteps

/-!
What a drawing shows. Descriptions, definitions and what editors left may go, and containers may be
dissolved; the other elements come out of every run in the order in which they went in.
-/

namespace SvgPress

open Node

/-- Elements that are not shown, and neither is anything in them. -/
def unshown : List String :=
  ["metadata", "title", "desc", "defs"]

/-- Whether neither an element of this name nor anything in it is a part of the drawing. -/
def isHidden (name : String) : Bool :=
  unshown.contains name || name.toList.contains ':'

namespace Node

mutual

/-- The names of the elements that draw, in document order. -/
def drawn : Node → List String
  | .element tag children =>
    if isHidden tag.name then []
    else if EmptyContainers.containers.contains tag.name then drawnAll children
    else tag.name :: drawnAll children
  | .leaf .. => []
termination_by structural n => n

def drawnAll : List Node → List String
  | [] => []
  | n :: rest => n.drawn ++ drawnAll rest
termination_by structural ns => ns

end

theorem drawn_all_append (ns ms : List Node) :
    drawnAll (ns ++ ms) = drawnAll ns ++ drawnAll ms := by
  induction ns with
  | nil => rfl
  | cons n ns ih => rw [List.cons_append, drawnAll, drawnAll, ih, List.append_assoc]

theorem drawn_all_one (n : Node) : drawnAll [n] = n.drawn := by
  rw [drawnAll, drawnAll, List.append_nil]

/-- What an element draws depends on its name and on what its children draw, and on the latter only
where it is shown. -/
theorem drawn_element_congr {tag other : Tag} {children others : List Node}
    (hname : other.name = tag.name)
    (h : isHidden tag.name = false → drawnAll others = drawnAll children) :
    (element other others).drawn = (element tag children).drawn := by
  rw [drawn, drawn, hname]
  split
  · rfl
  · rename_i hshown
    rw [h (Bool.eq_false_iff.mpr hshown)]

/-! ### Changed tags and nodes taken away -/

mutual

theorem drawn_map_tags {g : Tag → Tag} (hname : ∀ tag, (g tag).name = tag.name) : (n : Node) →
    (n.mapTags g).drawn = n.drawn
  | .leaf .. => rfl
  | .element tag children =>
      drawn_element_congr (hname tag) fun _ => drawn_map_tags_of hname children

theorem drawn_map_tags_of {g : Tag → Tag} (hname : ∀ tag, (g tag).name = tag.name) :
    (ns : List Node) → drawnAll (mapTagsOf g ns) = drawnAll ns
  | [] => rfl
  | n :: ns => by
      rw [mapTagsOf, drawnAll, drawnAll, drawn_map_tags hname n, drawn_map_tags_of hname ns]

end

mutual

theorem drawn_prune {keep : Node → Bool} (hkeep : ∀ n, keep n = false → n.drawn = []) :
    (n : Node) → (n.prune keep).drawn = n.drawn
  | .leaf .. => rfl
  | .element _ children => drawn_element_congr rfl fun _ => drawn_prune_all hkeep children

/-- Nodes that draw nothing may go. -/
theorem drawn_prune_all {keep : Node → Bool} (hkeep : ∀ n, keep n = false → n.drawn = []) :
    (ns : List Node) → drawnAll (pruneAll keep ns) = drawnAll ns
  | [] => rfl
  | n :: ns => by
      rw [pruneAll, drawnAll]
      split
      · rw [drawnAll, drawn_prune hkeep n, drawn_prune_all hkeep ns]
      · rename_i hgone
        rw [hkeep n (Bool.eq_false_iff.mpr hgone), drawn_prune_all hkeep ns, List.nil_append]

end

/-- What stands in the root element may be replaced by what draws the same. -/
theorem drawn_map_root {cut : List Node → List Node} (h : ∀ ns, drawnAll (cut ns) = drawnAll ns)
    (ns : List Node) :
    drawnAll (Document.mapRoot.go (fun tag children => .element tag (cut children)) ns) =
      drawnAll ns := by
  induction ns with
  | nil => rfl
  | cons n ns ih =>
      cases n with
      | element tag children =>
          rw [Document.mapRoot.go, drawnAll, drawnAll, drawn_element_congr rfl fun _ => h children]
      | leaf kind s => rw [Document.mapRoot.go, drawnAll, drawnAll, ih]

end Node

namespace Definitions

mutual

theorem drawn_tidy : (n : Node) → (tidy n).drawn = n.drawn
  | .leaf .. => rfl
  | .element tag children => by
      rw [tidy]
      refine drawn_element_congr rfl fun hshown => ?_
      have hname : (tag.name == "defs") = false := by
        rw [beq_eq_false_iff_ne]
        rintro hdefs
        rw [hdefs] at hshown
        exact absurd hshown (by decide +kernel)
      rw [hname]
      exact drawn_tidy_all children

/-- Definitions are not shown, so it does not matter which of them go. -/
theorem drawn_tidy_all : (ns : List Node) → drawnAll (tidyAll false ns) = drawnAll ns
  | [] => rfl
  | n :: ns => by
      rw [tidyAll, if_neg (by simp), drawnAll, drawnAll, drawn_tidy n, drawn_tidy_all ns]

end

end Definitions

namespace Groups

/-- A group draws what its content draws. -/
theorem drawn_group {tag : Tag} (hname : tag.name = "g") (children : List Node) :
    (element tag children).drawn = drawnAll children := by
  have hshown : isHidden "g" = false := by decide +kernel
  have hcontainer : EmptyContainers.containers.contains "g" = true := by decide +kernel
  rw [drawn, hname, hshown, hcontainer]
  rfl

theorem drawn_dissolve (tag : Tag) (children : List Node) :
    drawnAll (dissolve tag children) = (element tag children).drawn := by
  unfold dissolve
  split
  · exact drawn_all_one _
  · rename_i hname
    have hgroup : tag.name = "g" := by simpa using hname
    split
    · exact (drawn_group hgroup children).symm
    · split
      · rename_i child below
        split
        · rw [drawn_group hgroup, drawn_all_one, drawn_all_one]
          exact drawn_element_congr (hand_down_all_name tag.attributes child) fun _ => rfl
        · exact drawn_all_one _
      · exact drawn_all_one _

mutual

theorem drawn_collapse : (n : Node) → drawnAll (collapse n) = n.drawn
  | .leaf .. => rfl
  | .element tag children => by
      rw [collapse, drawn_dissolve]
      exact drawn_element_congr rfl fun _ => drawn_collapse_all children

theorem drawn_collapse_all : (ns : List Node) → drawnAll (collapseAll ns) = drawnAll ns
  | [] => rfl
  | n :: ns => by
      rw [collapseAll, drawn_all_append, drawn_collapse n, drawn_collapse_all ns, drawnAll]

end

end Groups

namespace EmptyContainers

/-- A container without content draws nothing. -/
theorem drawn_useless {tag : Tag} {children : List Node} (h : isUseless tag children) :
    (element tag children).drawn = [] := by
  simp only [isUseless, Bool.and_eq_true] at h
  obtain ⟨⟨hcontainer, hempty⟩, -⟩ := h
  rw [drawn, hcontainer, List.isEmpty_iff.mp hempty]
  split <;> rfl

mutual

theorem drawn_shrink : (n : Node) → drawnAll (shrink n) = n.drawn
  | .leaf .. => rfl
  | .element tag children => by
      have hsame : (element tag (shrinkAll children)).drawn = (element tag children).drawn :=
        drawn_element_congr rfl fun _ => drawn_shrink_all children
      rw [shrink, ← hsame]
      split
      · rename_i h
        exact (drawn_useless h).symm
      · exact drawn_all_one _

theorem drawn_shrink_all : (ns : List Node) → drawnAll (shrinkAll ns) = drawnAll ns
  | [] => rfl
  | n :: ns => by
      rw [shrinkAll, drawn_all_append, drawn_shrink n, drawn_shrink_all ns, drawnAll]

end

end EmptyContainers

/-- The names of the elements of a document that draw, in document order. -/
def Document.drawn (doc : Document) : List String :=
  drawnAll doc.nodes

namespace Stage

/-- Whether a stage leaves what a document draws as it is. -/
def KeepsDrawing (stage : Stage) : Prop :=
  ∀ doc, (stage.apply doc).drawn = doc.drawn

theorem KeepsDrawing.of_parts {stage : Stage} (hcut : ∀ doc, (stage.cut doc).drawn = doc.drawn)
    (hname : ∀ tags tag, (stage.retag tags tag).name = tag.name) : stage.KeepsDrawing :=
  fun doc => (drawn_map_tags_of (hname doc.tags) _).trans (hcut doc)

theorem drawn_run {stages : List Stage} (h : ∀ stage ∈ stages, stage.KeepsDrawing)
    (doc : Document) : (run stages doc).drawn = doc.drawn := by
  induction stages generalizing doc with
  | nil => rfl
  | cons stage rest ih =>
      rw [List.forall_mem_cons] at h
      exact (ih h.2 (stage.apply doc)).trans (h.1 doc)

/-- Leaves may go, and so may elements that are not shown. -/
theorem drawn_of_rejected {keep : Node → Bool}
    (hkeep : ∀ tag children, keep (.element tag children) = false → isHidden tag.name) :
    ∀ n, keep n = false → n.drawn = []
  | .leaf .., _ => rfl
  | .element tag children, hgone => by
      rw [drawn, if_pos (hkeep tag children hgone)]

theorem keeps_drawing_dropping {keep : Node → Bool}
    (hkeep : ∀ tag children, keep (.element tag children) = false → isHidden tag.name) :
    (dropping keep).KeepsDrawing :=
  .of_parts (fun doc => drawn_prune_all (drawn_of_rejected hkeep) doc.nodes) fun _ _ => rfl

/-- A name with a prefix has the colon after it. -/
theorem hidden_of_foreign {prefixes : List String} {name : String}
    (h : EditorData.isForeign prefixes name) : isHidden name := by
  rw [EditorData.isForeign, EditorData.prefixOf?, Option.any_map, Text.splitOnce?, Option.any_map]
    at h
  obtain ⟨⟨front, back⟩, hcut, -⟩ := (Option.any_eq_true _ _).mp h
  have hcolon : ':' ∈ name.toList := by
    rw [Markup.cutAt?_eq hcut]
    simp
  rw [isHidden, Bool.or_eq_true]
  exact .inr (List.contains_iff_mem.mpr hcolon)

theorem keeps_drawing_stripping : stripping.KeepsDrawing := by
  refine .of_parts (fun doc => drawn_prune_all (drawn_of_rejected fun tag _ hgone => ?_) doc.nodes)
    fun _ _ => rfl
  exact hidden_of_foreign (by simpa [isNative] using hgone)

theorem keeps_drawing_tidying : tidying.KeepsDrawing :=
  .of_parts (fun doc => Definitions.drawn_tidy_all doc.nodes) fun _ _ => rfl

theorem keeps_drawing_within {cut : List Node → List Node}
    (h : ∀ ns, drawnAll (cut ns) = drawnAll ns) : (within cut).KeepsDrawing :=
  .of_parts (fun doc => drawn_map_root h doc.nodes) fun _ _ => rfl

theorem keeps_drawing_labelling {retag : List Tag → Tag → Tag}
    (hname : ∀ tags tag, (retag tags tag).name = tag.name) : (labelling retag).KeepsDrawing :=
  .of_parts (fun _ => rfl) hname

/-- None of the default passes changes what is drawn. -/
theorem keeps_drawing_defaults (style : Numerals.Style) (namePrefix : String) :
    ∀ stage ∈ defaultsIn style namePrefix, stage.KeepsDrawing := by
  have hleaves {keep : Node → Bool} (hkeep : ∀ tag children, keep (.element tag children)) :
      (dropping keep).KeepsDrawing :=
    keeps_drawing_dropping fun tag children hgone => by simp [hkeep] at hgone
  have hnamed {name : String} (hname : isHidden name) :
      (dropping (NodeRemoval.isNotNamed name)).KeepsDrawing := by
    refine keeps_drawing_dropping fun tag _ hgone => ?_
    obtain rfl : tag.name = name := by simpa [NodeRemoval.isNotNamed, isNamed] using hgone
    exact hname
  have hworthwhile : (dropping (NodeRemoval.isWorthwhile false)).KeepsDrawing := by
    refine keeps_drawing_dropping fun tag _ hgone => ?_
    have hdesc : tag.name = "desc" := by
      simp only [NodeRemoval.isWorthwhile, Bool.or_eq_false_iff, bne_eq_false_iff_eq] at hgone
      exact hgone.1
    rw [hdesc]
    decide +kernel
  have hvalues {f : Attribute → String} :
      (labelling fun _ tag => tag.mapValues f).KeepsDrawing :=
    keeps_drawing_labelling fun _ _ => rfl
  simp only [defaultsIn, List.forall_mem_cons]
  exact ⟨hleaves fun _ _ => rfl, hleaves fun _ _ => rfl, hleaves fun _ _ => rfl,
    hnamed (by decide +kernel), keeps_drawing_stripping, hvalues, hnamed (by decide +kernel),
    hworthwhile, keeps_drawing_tidying, keeps_drawing_labelling fun _ _ => rfl, hvalues, hvalues,
    keeps_drawing_labelling fun _ => (PathData.retags_minify style).name,
    keeps_drawing_labelling fun tags => (retags_settling namePrefix tags).name,
    keeps_drawing_within Groups.drawn_collapse_all,
    keeps_drawing_within EmptyContainers.drawn_shrink_all,
    fun _ hmem => absurd hmem List.not_mem_nil⟩

end Stage

namespace Optimizer

/-- However often the default passes run, the elements that draw are those that were read, in the
same order. -/
theorem drawn_optimized {config : Config} (hplugins : config.plugins = Config.defaultPlugins)
    (files : Files) (path : Path) {source : String} {doc : Document}
    (hparse : Document.parse source = .ok doc) :
    let optimizer := (ofConfig config Catalog.builtin files).value
    ∃ last outcome,
      Pipeline.settle (Pipeline.stepsForFile optimizer.steps path).value optimizer.options doc =
        .ok (last, outcome) ∧
      (optimizer.optimize path source).value = .ok ⟨last.write config.layout, outcome⟩ ∧
      last.drawn = doc.drawn := by
  intro optimizer
  obtain ⟨outcome, hsettle, -⟩ := settle_of_runs (runs_of_default_plugins hplugins files path) doc
  refine ⟨_, outcome, hsettle, optimize_ok_iff.mpr ⟨doc, _, hparse, hsettle, rfl⟩, ?_⟩
  have hstep := Stage.drawn_run
    (Stage.keeps_drawing_defaults config.numberStyle (Naming.idPrefix path))
  exact Function.Iterate.rec (fun next : Document => next.drawn = doc.drawn) rfl
    (fun next hnext => (hstep next).trans hnext) outcome.passes

/-- A drawing with a title, groups, a definition that nothing refers to, and an element of an
editor. -/
def badge : Document :=
  ⟨[.element ⟨"svg", []⟩ [.element ⟨"title", []⟩ [.leaf .text "t"],
    .element ⟨"g", []⟩ [.element ⟨"g", [⟨"id", "i"⟩]⟩ [.element ⟨"path", [⟨"d", "M0 0"⟩]⟩ []]],
    .element ⟨"defs", []⟩ [.element ⟨"rect", []⟩ []],
    .element ⟨"a:b", [⟨"xmlns:a", "http://www.serif.com/"⟩]⟩ [.element ⟨"rect", []⟩ []],
    .element ⟨"text", []⟩ [.leaf .text "x"]]]⟩

theorem drawn_optimized_badge :
    let source :=
      "<svg><title>t</title><g><g id=\"i\"><path d=\"M0 0\"/></g></g><defs><rect/></defs>" ++
        "<a:b xmlns:a=\"http://www.serif.com/\"><rect/></a:b><text>x</text></svg>"
    let optimizer := (ofConfig Config.default Catalog.builtin noFiles).value
    Document.parse source = .ok badge ∧
      ∃ last outcome,
        Pipeline.settle (Pipeline.stepsForFile optimizer.steps ⟨"a.svg"⟩).value optimizer.options
          badge = .ok (last, outcome) ∧
        (optimizer.optimize ⟨"a.svg"⟩ source).value = .ok ⟨last.write .standard, outcome⟩ ∧
        last.drawn = ["svg", "path", "text"] := by
  intro source optimizer
  have hplugins : Config.default.plugins = Config.defaultPlugins := rfl
  have hparse : Document.parse source = .ok badge := by decide +kernel
  obtain ⟨last, outcome, hsettle, hoptimize, hdrawn⟩ :=
    drawn_optimized hplugins noFiles ⟨"a.svg"⟩ hparse
  refine ⟨hparse, last, outcome, hsettle, hoptimize, hdrawn.trans ?_⟩
  decide +kernel

end Optimizer

end SvgPress
