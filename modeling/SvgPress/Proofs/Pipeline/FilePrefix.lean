import SvgPress.Proofs.Identifiers.Succession
import SvgPress.Proofs.Pipeline.SecondRun

/-!
References behind the prefix of a file. An optimizer that does nothing but clean up identifiers puts
a prefix before them that follows from the name of the file, and reads what it wrote in the next
pass. Links follow whatever the file is called. References in values follow if the prefix can be
read in one, which a quotation mark or a parenthesis in the name of the file prevents.
-/

namespace SvgPress

open Identifiers

namespace Stage

theorem apply_settling {lead : String} {doc : Document} (h : isScripted doc = false) :
    (labelling (settling lead)).apply doc =
      doc.mapTags (settled (Pipeline.policyFor lead) (referenced doc)
        ((Pipeline.policyFor lead).assign (referenced doc) [] 0 (identifiers doc))) := by
  rw [← Pipeline.apply_policy_for, Policy.apply, h]
  rfl

/-- What any number of passes has done, if there was one at all. -/
theorem have_passed_iterate {lead : String} {doc : Document} (h : IsReady lead doc) (n : Nat) :
    ∃ settle value, (run [labelling (settling lead)])^[n + 1] doc = doc.mapTags settle ∧
      HavePassed lead doc settle value := by
  have hremove : (Pipeline.policyFor lead).remove = true := rfl
  have hminify : (Pipeline.policyFor lead).minify = true := rfl
  have hfree : ∀ name, (Pipeline.policyFor lead).preserves name = false := fun _ => rfl
  induction n with
  | zero =>
      obtain ⟨m, hassigned⟩ := assigned hminify (referenced doc) (identifiers doc)
      exact ⟨_, _, apply_settling h.unscripted, h.passed hremove hfree hassigned⟩
  | succ n ih =>
      obtain ⟨settle, value, hrun, hpassed⟩ := ih
      obtain ⟨m, hassigned⟩ :=
        assigned hminify (referenced (doc.mapTags settle)) (identifiers (doc.mapTags settle))
      refine ⟨_, _, ?_, hpassed.next hremove hfree hassigned⟩
      rw [Function.iterate_succ_apply', hrun]
      exact (apply_settling hpassed.ready.unscripted).trans (Document.map_tags_map_tags _ _ _)

end Stage

namespace Optimizer

/-- An optimizer with no other pass than the cleanup of identifiers. -/
theorem runs_of_cleanup {config : Config}
    (hplugins : config.plugins = [{ name := some "cleanupIDs" }])
    (files : Files) (path : Path) :
    List.Forall₂ Step.Runs
      (Pipeline.stepsForFile (ofConfig config Catalog.builtin files).value.steps path).value
      [Stage.labelling (Stage.settling (Naming.idPrefix path))] := by
  have hsteps : (ofConfig config Catalog.builtin files).value.steps =
      (config.steps Catalog.builtin files).value := rfl
  have hlist : ([{ name := some "cleanupIDs" }] : List PassSpec) =
      [cleanup].map fun pass => { name := some pass.name } := rfl
  have hplace : Pass.builtin[13]? = some cleanup := rfl
  have hbuiltin : ∀ pass ∈ [cleanup], pass ∈ Pass.builtin := by
    intro pass hpass
    rw [List.mem_singleton.mp hpass]
    exact List.mem_of_getElem? hplace
  rw [hsteps, Config.steps, hplugins, hlist, Config.steps_of_passes config files hbuiltin,
    Pipeline.value_steps_for_file]
  exact .cons (Pipeline.runs_cleanup config path) .nil

/-- Whatever the file is called, links to the elements of a drawing lead there after any number of
passes. References in its values do exactly if none of them is to an element, or the prefix can be
read in a reference and none to an element stands behind one that was not finished. All of this is
so in what is read from the text that is written, too. -/
theorem references_follow_prefix_iff {config : Config}
    (hplugins : config.plugins = [{ name := some "cleanupIDs" }]) (files : Files) (path : Path)
    {source : String} {doc : Document} (hparse : Document.parse source = .ok doc)
    (hopen : isScripted doc = false) (hids : ∀ id ∈ identifiers doc, '(' ∉ id.toList)
    (hlead : ∀ name ∈ namesIn (Naming.idPrefix path), name ∉ identifiers doc) :
    ∃ settle outcome,
      ((ofConfig config Catalog.builtin files).value.optimize path source).value =
        .ok ⟨(doc.mapTags settle).write config.layout, outcome⟩ ∧
      (∀ tag ∈ doc.tags, (settle tag).name = tag.name) ∧
      ((∀ tag ∈ doc.tags, tag.IsUsual) → ∀ again,
        Document.parse ((doc.mapTags settle).write config.layout) = .ok again →
          again.tags = doc.tags.map settle) ∧
      LinksFollow doc settle ∧
      (MentionsFollow doc settle ↔ ∀ tag ∈ doc.tags, ∀ a ∈ others tag,
        Survives (Naming.idPrefix path) (identifiers doc) a.value) := by
  have hdistinct : ∀ tag ∈ doc.tags, (tag.attributes.map (·.name)).Nodup :=
    fun tag htag => ((Document.read_of_parse hparse).tags tag htag).distinct
  have hready : IsReady (Naming.idPrefix path) doc :=
    ⟨hopen, hdistinct, fun id hid => .inl (hids id hid), hlead⟩
  obtain ⟨outcome, hsettle, hpasses⟩ := settle_of_runs (runs_of_cleanup hplugins files path) doc
  obtain ⟨n, hn⟩ := Nat.exists_eq_succ_of_ne_zero hpasses
  obtain ⟨settle, value, hrun, hpassed⟩ := Stage.have_passed_iterate hready n
  rw [hn, hrun] at hsettle
  refine ⟨settle, outcome, ?_, fun tag _ => hpassed.name tag, fun htags again hagain => ?_,
    hpassed.links_follow, hpassed.mentions_follow_iff⟩
  · exact optimize_ok_iff.mpr ⟨doc, _, hparse, hsettle, rfl⟩
  · have hlawful : ∀ stage ∈ [Stage.labelling (Stage.settling (Naming.idPrefix path))],
        stage.IsLawful := by
      intro stage hstage
      rw [List.mem_singleton.mp hstage]
      exact Stage.lawful_labelling (Stage.retags_settling _)
    have hordinary : (doc.mapTags settle).IsOrdinary := by
      rw [← hrun]
      exact Function.Iterate.rec Document.IsOrdinary (Document.ordinary_of_parse hparse htags)
        (fun next hnext => Stage.ordinary_run hlawful hnext) (n + 1)
    rw [← Document.tags_map_tags, ← Document.tags_reread (doc.mapTags settle) config.layout]
    rw [Document.parse_eq_ok_iff] at hagain
    rcases hordinary.parse_write config.layout with ⟨hread, -⟩ | ⟨hnone, -⟩
    · rw [hread] at hagain
      rw [Option.some.inj hagain]
    · rw [hnone] at hagain
      cases hagain

/-- The default configuration with no other pass than the cleanup of identifiers. -/
def cleanupOnly : Config :=
  { Config.default with plugins := [{ name := some "cleanupIDs" }] }

theorem plugins_cleanup_only : cleanupOnly.plugins = [{ name := some "cleanupIDs" }] := rfl

/-- An element and a shape painted with it. -/
def painted (tag : Tag) (fill : String) : Document :=
  ⟨[.element ⟨"svg", []⟩ [.element tag [], .element ⟨"rect", [⟨"fill", fill⟩]⟩ []]]⟩

/-- White space in the name of a file is no danger. -/
theorem references_follow_spaced :
    let source := "<svg><g id=\"a\"/><rect fill=\"url( '#a' )\"/></svg>"
    let doc := painted ⟨"g", [⟨"id", "a"⟩]⟩ "url( '#a' )"
    Document.parse source = .ok doc ∧ ∃ settle outcome,
      ((ofConfig cleanupOnly Catalog.builtin noFiles).value.optimize ⟨"my icon.svg"⟩ source).value =
        .ok ⟨(doc.mapTags settle).write .standard, outcome⟩ ∧
      LinksFollow doc settle ∧ MentionsFollow doc settle := by
  intro source doc
  have hparse : Document.parse source = .ok doc := by decide +kernel
  have hname : Naming.idPrefix ⟨"my icon.svg"⟩ = "my-icon-" := by decide +kernel
  have hlead : ∀ name ∈ namesIn (Naming.idPrefix ⟨"my icon.svg"⟩), name ∉ identifiers doc := by
    decide +kernel
  obtain ⟨settle, outcome, hoptimize, -, -, hlinks, hiff⟩ :=
    references_follow_prefix_iff plugins_cleanup_only noFiles ⟨"my icon.svg"⟩ hparse
      (by decide +kernel) (by decide +kernel) hlead
  refine ⟨hparse, settle, outcome, hoptimize, hlinks, hiff.mpr ?_⟩
  rw [hname]
  unfold Survives
  decide +kernel

/-- An apostrophe in the name of a file is: what is written in a reference is read up to it only, so
the next pass finds that nothing refers to the element. -/
theorem quoted_prefix_loses_reference :
    let source := "<svg><g id=\"a\"/><rect fill=\"url(#a)\"/></svg>"
    let markup := "<svg>\n  <g/>\n  <rect fill=\"url(#it&apos;s-a)\"/>\n</svg>"
    let before := painted ⟨"g", [⟨"id", "a"⟩]⟩ "url(#a)"
    let after := painted ⟨"g", []⟩ "url(#it's-a)"
    Document.parse source = .ok before ∧ identifiers before = ["a"] ∧ referenced before = ["a"] ∧
      isScripted before = false ∧
      ((ofConfig cleanupOnly Catalog.builtin noFiles).value.optimize ⟨"it's.svg"⟩ source).value =
        .ok ⟨markup, .converged 3⟩ ∧
      Document.parse markup = .ok (after.reread .standard) ∧
      identifiers (after.reread .standard) = [] := by
  intro source markup before after
  have hparse : Document.parse source = .ok before := by decide +kernel
  have hname : Naming.idPrefix ⟨"it's.svg"⟩ = "it's-" := by decide +kernel
  have hsettle : Pipeline.settle
      (Pipeline.stepsForFile (ofConfig cleanupOnly Catalog.builtin noFiles).value.steps
        ⟨"it's.svg"⟩).value (ofConfig cleanupOnly Catalog.builtin noFiles).value.options before =
      .ok (after, .converged 3) := by
    let stages := [Stage.labelling (Stage.settling "it's-")]
    let between := painted ⟨"g", [⟨"id", "it's-a"⟩]⟩ "url(#it's-a)"
    have hfirst : Stage.run stages before = between := by decide +kernel
    have hsecond : Stage.run stages between = after := by decide +kernel
    have hthird : Stage.run stages after = after := by decide +kernel
    have hruns := runs_of_cleanup plugins_cleanup_only noFiles ⟨"it's.svg"⟩
    rw [hname] at hruns
    rw [settle_eq_converge hruns rfl]
    show Pipeline.converge _ 10 0 before = _
    rw [Pipeline.converge_succ, Except.bind, hfirst, if_neg (by decide +kernel),
      Pipeline.converge_succ, Except.bind, hsecond, if_neg (by decide +kernel),
      Pipeline.converge_succ, Except.bind, hthird, if_pos rfl]
  have hmarkup : after.write .standard = markup := by decide +kernel
  refine ⟨hparse, by decide +kernel, by decide +kernel, by decide +kernel, ?_, by decide +kernel,
    by decide +kernel⟩
  exact optimize_ok_iff.mpr ⟨before, after, hparse, hsettle, hmarkup.symm⟩

end Optimizer

end SvgPress
