import SvgPress.Proofs.Markup.Pretty
import SvgPress.Proofs.Pass.Rereading
import SvgPress.Proofs.Pipeline.DefaultSteps

/-!
Optimizing what was optimized. The second run reads the text of the document on which the first one
ended, padding included; it changes nothing exactly if that document is read back, its texts stay as
they are, and padding that is kept stands neither among definitions nor around padding that is not.
-/

namespace SvgPress

open Node

/-- A tag whose names hold no quotation mark and that gives the prefix `xml` no other meaning. -/
def Tag.IsUsual (tag : Tag) : Prop :=
  tag.IsUnquoted ∧ ∀ a ∈ tag.attributes, a.IsOrdinary

theorem shows_text_of_trimmed {s : String} (hs : s ≠ "") (htrim : Text.trim s = s) :
    (Node.leaf .text s).showsText := by
  rw [showsText, Bool.not_eq_true', Bool.eq_false_iff]
  intro hblank
  exact hs (by rw [← htrim, blank_text_iff_trim.mp hblank])

theorem Node.ordinary_of_read {kept : Bool} {n : Node} (h : n.IsRead kept)
    (htag : n.HasTag Tag.IsUsual) : n.IsOrdinary kept := by
  cases n with
  | leaf kind s => exact h
  | element tag children =>
      obtain ⟨hread, -, hsettled⟩ := h
      refine ⟨⟨hread.plain htag.1, htag.2⟩, fun htext => ?_⟩
      cases hkeeps : keepsOwnSpace tag children || kept with
      | true =>
          rw [keepsOwnSpace] at hkeeps
          simp only [Bool.or_eq_true, isMixed, Bool.and_eq_true] at hkeeps
          rw [Tag.keepsPadding]
          simp only [Bool.or_eq_true]
          rcases hkeeps with ((hlisted | hmixed)) | hkept
          · exact .inl (.inl hlisted)
          · exact .inr hmixed.2
          · exact .inl (.inr hkept)
      | false =>
          rw [settle_of_not_keeps hkeeps, trim_texts_eq_iff] at hsettled
          obtain ⟨n, hn, hleaf⟩ := List.any_eq_true.mp htext
          rcases n.text_or_other with ⟨s, rfl⟩ | hother
          · obtain ⟨hs, htrim⟩ := hsettled s hn
            exact .inr (List.any_eq_true.mpr ⟨_, hn, shows_text_of_trimmed hs htrim⟩)
          · rw [hother] at hleaf
            cases hleaf

namespace Document

theorem ordinary_of_parse {source : String} {doc : Document} (h : parse source = .ok doc)
    (htags : ∀ tag ∈ doc.tags, tag.IsUsual) : doc.IsOrdinary := by
  obtain ⟨-, htextless, hnodes⟩ := read_of_parse h
  refine ⟨htextless, EverywhereIn.imp (fun _ _ hn => ordinary_of_read hn.1 hn.2) _ _
    (EverywhereIn.and _ _ hnodes (everywhere_in_of_tags _ _ htags))⟩

/-- What is read from the text of a document that passes left. -/
theorem IsOrdinary.parse_write {doc : Document} (h : doc.IsOrdinary) (layout : Layout) :
    (parse (doc.write layout)).toOption = some (doc.reread layout) ∧ doc.IsWritable ∧
        doc.nodes.any isElement ∨
      (parse (doc.write layout)).toOption = none ∧
        ¬ (doc.IsWritable ∧ doc.nodes.any isElement) := by
  have hfollowed : EverywhereIn (fun _ n => n.IsFollowed) false doc.nodes := by
    refine EverywhereIn.imp ?_ _ _ h.nodes
    rintro kept (⟨tag, children⟩ | ⟨kind, s⟩) hn
    · exact hn.1.plain
    · exact hn
  by_cases hwritable : doc.IsWritable
  · have hlegible : EverywhereIn (fun _ n => n.IsLegible) false doc.nodes :=
      EverywhereIn.imp (fun _ _ hn => legible_of_writable hn.1 hn.2) _ _
        (EverywhereIn.and _ _ hfollowed hwritable)
    rw [Document.parse_write h.textless hlegible]
    split
    · rename_i hroot
      exact .inl ⟨rfl, hwritable, hroot⟩
    · rename_i hroot
      exact .inr ⟨rfl, fun hboth => hroot hboth.2⟩
  · exact .inr ⟨parse_write_unwritable h.textless hfollowed hwritable layout,
      fun hboth => hwritable hboth.1⟩

/-- What is read from the text of a document that passes left has the tags of that document. -/
theorem IsOrdinary.tags_of_parse {doc again : Document} (h : doc.IsOrdinary) (layout : Layout)
    (hagain : parse (doc.write layout) = .ok again) : again.tags = doc.tags := by
  rw [parse_eq_ok_iff] at hagain
  rcases h.parse_write layout with ⟨hread, -⟩ | ⟨hnone, -⟩
  · rw [hread] at hagain
    rw [← Option.some.inj hagain]
    exact Document.tags_reread doc layout
  · rw [hnone] at hagain
    cases hagain

theorem IsOrdinary.text_sound {doc : Document} (h : doc.IsOrdinary) :
    EverywhereIn IsTextSound false doc.nodes := by
  refine EverywhereIn.imp ?_ _ _ h.nodes
  rintro kept (⟨tag, children⟩ | ⟨kind, s⟩) hn
  · exact hn.2
  · rintro rfl
    rcases hn with ⟨-, hs⟩ | ⟨hdoctype, -⟩
    · exact hs rfl
    · cases hdoctype

/-- Whether a document on which a run ended is found unchanged in its own pretty text. -/
structure IsStable (doc : Document) : Prop where
  root : doc.nodes.any isElement
  writable : doc.IsWritable
  firm : doc.IsFirm
  nests : doc.NestsPadding
  drops : OnLinesIn DropsPaddingInDefs false doc.nodes

theorem stable_iff {namePrefix : String} {doc : Document} (h : doc.IsOrdinary)
    (hfixed : Stage.run (Stage.defaults namePrefix) doc = doc) (layout : Layout)
    (hpretty : layout.pretty) :
    doc.IsStable ↔ (parse (doc.write layout)).toOption = some (doc.reread layout) ∧
      Stage.run (Stage.defaults namePrefix) (doc.reread layout) = doc.reread layout ∧
      (doc.reread layout).write layout = doc.write layout := by
  have hlawful := Stage.lawful_defaults namePrefix
  have htidying : Stage.tidying ∈ Stage.defaults namePrefix := by
    simp [Stage.defaults, Stage.defaultsIn]
  have hsound := h.text_sound
  have hdefs : EverywhereIn HasTextlessDefs false doc.nodes :=
    Stage.textless_defs_of_calm hlawful htidying
      (Stage.calm_of_count hlawful (Nat.le_of_eq (congrArg (countAll ·.nodes) hfixed.symm)))
  have hlines := textless_defs_iff_all doc.nodes layout hpretty 0 false hdefs
  rw [write_reread_iff h.textless hsound hpretty]
  constructor
  · rintro ⟨hroot, hwritable, hfirm, hnests, hdrops⟩
    have hpads := pads_reread_all doc.nodes layout 0 false hsound hfirm
    refine ⟨?_, (Stage.run_padded_iff hlawful htidying hfixed hpads).mpr (hlines.mpr hdrops), hfirm,
      hnests⟩
    rcases h.parse_write layout with ⟨hparse, -⟩ | ⟨-, hnot⟩
    · exact hparse
    · exact absurd ⟨hwritable, hroot⟩ hnot
  · rintro ⟨hparse, hagain, hfirm, hnests⟩
    have hpads := pads_reread_all doc.nodes layout 0 false hsound hfirm
    have hdrops := hlines.mp ((Stage.run_padded_iff hlawful htidying hfixed hpads).mp hagain)
    rcases h.parse_write layout with ⟨-, hwritable, hroot⟩ | ⟨hnone, -⟩
    · exact ⟨hroot, hwritable, hfirm, hnests, hdrops⟩
    · rw [hnone] at hparse
      cases hparse

end Document

namespace Optimizer

/-- The optimizer of the default configuration. -/
def standard (files : Files) : Optimizer :=
  (ofConfig Config.default Catalog.builtin files).value

/-- The steps of the default configuration for a file. -/
def standardSteps (files : Files) (path : Path) : List Step :=
  (Pipeline.stepsForFile (standard files).steps path).value

/-- The stages of the default configuration run until nothing changes. -/
def settleStages (namePrefix : String) (doc : Document) : Except RunFault (Document × Outcome) :=
  Pipeline.converge (fun doc => .ok (Stage.run (Stage.defaults namePrefix) doc)) 10 0 doc

/-- Everything about a run with the default configuration is said by what its stages do. -/
theorem settle_standard (files : Files) (path : Path) (doc : Document) :
    Pipeline.settle (standardSteps files path) (standard files).options doc =
      settleStages (Naming.idPrefix path) doc :=
  settle_eq_converge (runs_of_default_plugins rfl files path) rfl doc

theorem settled_once_iff (files : Files) {path : Path} {doc last : Document} :
    Pipeline.settle (standardSteps files path) (standard files).options doc =
        .ok (last, .converged 1) ↔
      Stage.run (Stage.defaults (Naming.idPrefix path)) doc = doc ∧ last = doc := by
  rw [settle_standard, settleStages, Pipeline.converged_once_iff, Except.ok.injEq]

/-- A run with the default configuration, from what is read to what is written. -/
theorem optimize_standard_of (files : Files) {path : Path} {source namePrefix : String}
    {doc last : Document} {outcome : Outcome} (hparse : Document.parse source = .ok doc)
    (hname : Naming.idPrefix path = namePrefix)
    (hrun : settleStages namePrefix doc = .ok (last, outcome)) :
    ((standard files).optimize path source).value = .ok ⟨last.write .standard, outcome⟩ := by
  refine optimize_ok_iff.mpr ⟨doc, last, hparse, ?_, rfl⟩
  rw [← hname, ← settle_standard files] at hrun
  exact hrun

/-- What was optimized until nothing changed is optimized again to the same text, in a single pass,
exactly if the document on which the first run ended is stable. -/
theorem optimize_again_iff (files : Files) {path : Path} {source markup : String} {passes : Nat}
    (h : ((standard files).optimize path source).value = .ok ⟨markup, .converged passes⟩)
    (htags : ∀ doc, Document.parse source = .ok doc → ∀ tag ∈ doc.tags, tag.IsUsual) :
    ∃ doc last, Document.parse source = .ok doc ∧
      Pipeline.settle (standardSteps files path) (standard files).options doc =
        .ok (last, .converged passes) ∧
      markup = last.write .standard ∧
      (((standard files).optimize path markup).value = .ok ⟨markup, .converged 1⟩ ↔
        last.IsStable) := by
  obtain ⟨doc, last, hparse, hsettle, hmarkup⟩ := optimize_ok_iff.mp h
  refine ⟨doc, last, hparse, hsettle, hmarkup, ?_⟩
  have hwritten : markup = last.write .standard := hmarkup
  have hrun := (settle_standard files path doc).symm.trans hsettle
  obtain ⟨hordinary, hfixed, -⟩ := Pipeline.converged_of_invariant (p := Document.IsOrdinary)
    (fun doc next hdoc hnext => by
      rw [← Except.ok.inj hnext]
      exact Stage.ordinary_run (Stage.lawful_defaults _) hdoc)
    (Document.ordinary_of_parse hparse (htags doc hparse)) hrun
  rw [Document.stable_iff hordinary (Except.ok.inj hfixed) .standard rfl, ← hwritten,
    ← Document.parse_eq_ok_iff, optimize_ok_iff]
  constructor
  · rintro ⟨other, final, hagain, hsettleAgain, hsame⟩
    obtain ⟨hfixedAgain, rfl⟩ := (settled_once_iff files).mp hsettleAgain
    have hread : final = last.reread .standard := by
      rcases hordinary.parse_write .standard with ⟨hsome, -⟩ | ⟨hnone, -⟩
      · rw [← hwritten, Document.parse_eq_ok_iff.mp hagain] at hsome
        exact Option.some.inj hsome
      · rw [← hwritten, Document.parse_eq_ok_iff.mp hagain] at hnone
        cases hnone
    subst hread
    exact ⟨hagain, hfixedAgain, hsame.symm⟩
  · rintro ⟨hagain, hfixedAgain, hsame⟩
    exact ⟨_, _, hagain, (settled_once_iff files).mpr ⟨hfixedAgain, rfl⟩, hsame.symm⟩

theorem settle_in_two {namePrefix : String} {doc last : Document}
    (hfirst : Stage.run (Stage.defaults namePrefix) doc = last) (hchanged : last ≠ doc)
    (hsecond : Stage.run (Stage.defaults namePrefix) last = last) :
    settleStages namePrefix doc = .ok (last, .converged 2) := by
  rw [settleStages, Pipeline.converge_succ, Except.bind, hfirst, if_neg hchanged,
    Pipeline.converge_succ, Except.bind, hsecond, if_pos rfl]

/-- A drawing of nothing but a text around some nodes. -/
def lettering (around : List Node → List Node) : Document :=
  ⟨[.element ⟨"svg", []⟩ (around [.element ⟨"text", []⟩
    [.leaf .text "a ", .element ⟨"tspan", []⟩ [.leaf .text "b"]]])]⟩

theorem stable_lettering : (lettering id).IsStable := by
  refine ⟨rfl, ?_, ?_, ?_, ?_⟩
  · decide +kernel
  · decide +kernel
  · decide +kernel
  · decide +kernel

/-- A drawing that loses a group is optimized to the same text again. -/
theorem optimize_again_lettering :
    let source := "<svg> <g><text>a <tspan>b</tspan></text></g></svg>"
    let markup := "<svg>\n  <text>a <tspan>b</tspan></text>\n</svg>"
    ((standard noFiles).optimize ⟨"a.svg"⟩ source).value = .ok ⟨markup, .converged 2⟩ ∧
      ((standard noFiles).optimize ⟨"a.svg"⟩ markup).value = .ok ⟨markup, .converged 1⟩ := by
  intro source markup
  let drawing := lettering fun ns => [.element ⟨"g", []⟩ ns]
  have hparse : Document.parse source = .ok drawing := by decide +kernel
  have hrun : settleStages "a-" drawing = .ok (lettering id, .converged 2) := by
    refine settle_in_two ?_ ?_ ?_ <;> decide +kernel
  have hname : Naming.idPrefix ⟨"a.svg"⟩ = "a-" := by decide +kernel
  have hmarkup : (lettering id).write .standard = markup := by decide +kernel
  have hfirst := optimize_standard_of noFiles hparse hname hrun
  rw [hmarkup] at hfirst
  refine ⟨hfirst, ?_⟩
  have htags : ∀ tag ∈ drawing.tags, tag.IsUsual := by
    unfold Tag.IsUsual Tag.IsUnquoted Attribute.IsOrdinary
    decide +kernel
  have husual : ∀ doc, Document.parse source = .ok doc → ∀ tag ∈ doc.tags, tag.IsUsual := by
    intro doc hdoc
    rw [hparse] at hdoc
    exact Except.ok.inj hdoc ▸ htags
  obtain ⟨doc, last, hread, hsettle, -, hiff⟩ := optimize_again_iff noFiles hfirst husual
  refine hiff.mpr ?_
  have hdoc : drawing = doc := Except.ok.inj (hparse.symm.trans hread)
  rw [settle_standard, hname, ← hdoc, hrun] at hsettle
  cases hsettle
  exact stable_lettering

/-- A drawing that keeps white space, with a gradient among its definitions. -/
def shaded (name fill : String) : Document :=
  ⟨[.element ⟨"svg", [⟨"xml:space", "preserve"⟩]⟩
    [.element ⟨"defs", []⟩ [.element ⟨"linearGradient", [⟨"id", name⟩]⟩ []],
      .element ⟨"rect", [⟨"fill", fill⟩]⟩ []]]⟩

/-- Padding is put among definitions that keep it, where the second run finds text that nothing
refers to. -/
theorem optimize_again_differs :
    let source :=
      "<svg xml:space=\"preserve\"><defs><linearGradient id=\"q\"/></defs>" ++
        "<rect fill=\"url(#q)\"/></svg>"
    let markup :=
      "<svg xml:space=\"preserve\">\n  <defs>\n    <linearGradient id=\"a-a\"/>\n  </defs>\n" ++
        "  <rect fill=\"url(#a-a)\"/>\n</svg>"
    ((standard noFiles).optimize ⟨"a.svg"⟩ source).value = .ok ⟨markup, .converged 2⟩ ∧
      ((standard noFiles).optimize ⟨"a.svg"⟩ markup).value ≠ .ok ⟨markup, .converged 1⟩ := by
  intro source markup
  let settled := shaded "a-a" "url(#a-a)"
  have hname : Naming.idPrefix ⟨"a.svg"⟩ = "a-" := by decide +kernel
  have hparse : Document.parse source = .ok (shaded "q" "url(#q)") := by decide +kernel
  have hrun : settleStages "a-" (shaded "q" "url(#q)") = .ok (settled, .converged 2) := by
    refine settle_in_two ?_ ?_ ?_ <;> decide +kernel
  have hmarkup : settled.write .standard = markup := by decide +kernel
  have hfirst := optimize_standard_of noFiles hparse hname hrun
  rw [hmarkup] at hfirst
  refine ⟨hfirst, fun hsame => ?_⟩
  have hagain : Document.parse markup = .ok (settled.reread .standard) := by decide +kernel
  have hchanges : Stage.run (Stage.defaults "a-") (settled.reread .standard) ≠
      settled.reread .standard := by decide +kernel
  obtain ⟨doc, last, hread, hsettle, -⟩ := optimize_ok_iff.mp hsame
  have hdoc : settled.reread .standard = doc := Except.ok.inj (hagain.symm.trans hread)
  have hfixed := ((settled_once_iff noFiles).mp hsettle).1
  rw [hname, ← hdoc] at hfixed
  exact hchanges hfixed

end Optimizer

end SvgPress
