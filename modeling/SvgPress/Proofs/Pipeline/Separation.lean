import SvgPress.Proofs.Identifiers.Ownership
import SvgPress.Proofs.Pass.Parts
import SvgPress.Proofs.Pipeline.FilePrefix

/-!
Identifiers of different files. The first run over a drawing leaves no identifiers but those that
outgrow the prefix of the file, and from the second run on all of them are short names behind it. A
run that ends after the first has found that a second one changes nothing. So two drawings have an
identifier in common only if their files have one prefix, which the names of the files do not
exclude: they may differ in capital letters or in white space.
-/

namespace SvgPress

open Node Identifiers

namespace Stage

/-- Whether a stage leaves all tags of a kind if they were of that kind before. -/
def KeepsTags (q : Tag → Prop) (stage : Stage) : Prop :=
  ∀ doc : Document, (∀ tag ∈ doc.tags, q tag) → ∀ tag ∈ (stage.apply doc).tags, q tag

section KeepsTags

variable {q : Tag → Prop}

theorem KeepsTags.of_parts {stage : Stage}
    (hcut : ∀ doc : Document, (∀ part ∈ partsOf doc.nodes, part.HasTag q) →
      ∀ part ∈ partsOf (stage.cut doc).nodes, part.HasTag q)
    (hretag : ∀ tags tag, q tag → q (stage.retag tags tag)) : stage.KeepsTags q := by
  intro doc h
  have hstays := (tags_iff_parts _).mpr (hcut doc ((tags_iff_parts _).mp h))
  rw [apply, Document.tags_map_tags, List.forall_mem_map]
  exact fun tag htag => hretag doc.tags tag (hstays tag htag)

theorem keeps_tags_pruning (keep : Document → Node → Bool) {retag : List Tag → Tag → Tag}
    (hretag : ∀ tags tag, q tag → q (retag tags tag)) :
    KeepsTags q ⟨fun doc => doc.prune (keep doc), retag⟩ :=
  .of_parts (fun doc h part hpart => h part ((parts_prune_all _ doc.nodes).subset hpart)) hretag

theorem keeps_tags_tidying : tidying.KeepsTags q :=
  .of_parts (fun doc h part hpart =>
    h part ((Definitions.parts_tidy_all false doc.nodes).subset hpart)) fun _ _ h => h

theorem keeps_tags_within {cut : List Node → List Node}
    (hcut : ∀ ns, (∀ part ∈ partsOf ns, part.HasTag q) → ∀ part ∈ partsOf (cut ns), part.HasTag q) :
    (within cut).KeepsTags q :=
  .of_parts (fun _ => parts_map_root hcut) fun _ _ h => h

theorem keeps_tags_shrink : (within EmptyContainers.shrinkAll).KeepsTags q :=
  keeps_tags_within fun ns h part hpart =>
    h part ((EmptyContainers.parts_shrink_all ns).subset hpart)

theorem keeps_tags_labelling {retag : List Tag → Tag → Tag}
    (h : ∀ tags tag, q tag → q (retag tags tag)) : (labelling retag).KeepsTags q :=
  .of_parts (fun _ hparts => hparts) h

theorem tags_run {stages : List Stage} (hstages : ∀ stage ∈ stages, stage.KeepsTags q)
    {doc : Document} (h : ∀ tag ∈ doc.tags, q tag) : ∀ tag ∈ (run stages doc).tags, q tag := by
  induction stages generalizing doc with
  | nil => exact h
  | cons stage rest ih =>
      rw [List.forall_mem_cons] at hstages
      exact ih hstages.2 (hstages.1 doc h)

end KeepsTags

/-! ### The default passes -/

/-- The passes that run before identifiers get their prefix. -/
def preparing (lead : String) : List Stage :=
  (defaults lead).take 13

/-- The passes that run after that. -/
def finishing : List Stage :=
  [within Groups.collapseAll, within EmptyContainers.shrinkAll]

theorem defaults_eq (lead : String) :
    defaults lead = preparing lead ++ labelling (settling lead) :: finishing :=
  rfl

theorem run_defaults (lead : String) (doc : Document) :
    run (defaults lead) doc =
      run finishing ((labelling (settling lead)).apply (run (preparing lead) doc)) := by
  rw [defaults_eq, run_append]
  exact List.foldl_cons ..

/-- Before identifiers get their prefix, the only change to them is that white space goes. -/
theorem keeps_tags_preparing (lead : String) {p : String → Prop}
    (hclean : ∀ id, p id → p ((AttributeText.Cleaning.mk true true true).clean id)) :
    ∀ stage ∈ preparing lead, stage.KeepsTags (Bears p) := by
  have hother {f : Attribute → String} (hid : ∀ id, f ⟨"id", id⟩ = id) {tag : Tag}
      (h : Bears p tag) : Bears p (tag.mapValues f) :=
    h.map_values fun id hp => by rwa [hid]
  have hdropping {keep : Node → Bool} : (dropping keep).KeepsTags (Bears p) :=
    keeps_tags_pruning (fun _ => keep) fun _ _ h => h
  have hdata : "id" ≠ "d" := by decide
  have hcolor : ¬ Colors.attributes.contains "id" := by decide
  have hpaths : (labelling fun _ => PathData.minifyTag ⟨3, true⟩).KeepsTags (Bears p) := by
    refine keeps_tags_labelling fun _ tag h => ?_
    rw [PathData.minifyTag]
    split
    · exact hother (fun _ => if_neg hdata) h
    · exact h
  simp only [preparing, defaults, defaultsIn, List.take_succ_cons, List.take_zero,
    List.forall_mem_cons]
  exact ⟨hdropping, hdropping, hdropping, hdropping,
    keeps_tags_pruning (fun doc => isNative (boundIn doc.tags)) fun _ _ h => h.keep _,
    keeps_tags_labelling fun _ _ h => h.map_values hclean, hdropping, hdropping, keeps_tags_tidying,
    keeps_tags_labelling fun _ _ h => h.keep _,
    keeps_tags_labelling fun _ _ h => hother (fun _ => rfl) h,
    keeps_tags_labelling fun _ _ h => hother (fun _ => if_neg hcolor) h, hpaths,
    fun _ hmem => absurd hmem List.not_mem_nil⟩

theorem keeps_tags_finishing {p : String → Prop} :
    ∀ stage ∈ finishing, stage.KeepsTags (Bears p) := by
  have hcollapse : (within Groups.collapseAll).KeepsTags (Bears p) :=
    keeps_tags_within (Groups.parts_collapse_all fun _ _ hgroup hchild =>
      hgroup.hand_down_all hchild)
  simp only [finishing, List.forall_mem_cons]
  exact ⟨hcollapse, keeps_tags_shrink, fun _ hmem => absurd hmem List.not_mem_nil⟩

theorem plain_finishing : ∀ stage ∈ finishing, ∀ tags tag, stage.retag tags tag = tag := by
  simp only [finishing, List.forall_mem_cons]
  exact ⟨fun _ _ => rfl, fun _ _ => rfl, fun _ hmem => absurd hmem List.not_mem_nil⟩

section Runs

variable {lead : String} {doc : Document} {p : String → Prop}

theorem settling_assigned (lead : String) (h : ∀ tag ∈ doc.tags, Bears p tag) :
    ∃ policy renames m, policy.namePrefix = lead ∧ policy.remove = true ∧
      (∀ name, policy.preserves name = false) ∧
      IsAssigned policy (referenced doc) (identifiers doc) renames m ∧
      (labelling (settling lead)).apply doc =
        doc.mapTags (settled policy (referenced doc) renames) := by
  have hminify : (Pipeline.policyFor lead).minify = true := rfl
  obtain ⟨m, hassigned⟩ := assigned hminify (referenced doc) (identifiers doc)
  exact ⟨_, _, m, rfl, rfl, fun _ => rfl, hassigned, apply_settling (unscripted_of_bears h)⟩

/-- After one run names are longer than the prefix, whatever was there before. -/
theorem outgrows_run (h : ∀ tag ∈ doc.tags, Bears (fun _ => True) tag) :
    ∀ tag ∈ (run (defaults lead) doc).tags, Bears (Outgrows lead) tag := by
  have hprepared := tags_run (keeps_tags_preparing lead fun _ _ => trivial) h
  obtain ⟨policy, renames, m, rfl, hremove, hfree, hassigned, happly⟩ :=
    settling_assigned lead hprepared
  rw [run_defaults, happly]
  exact tags_run keeps_tags_finishing
    (outgrows_settled hremove hfree hassigned hprepared)

theorem outgrows_prepared (h : ∀ tag ∈ doc.tags, Bears (Outgrows lead) tag) :
    ∀ tag ∈ (run (preparing lead) doc).tags, Bears (Outgrows lead) tag := by
  refine tags_run (keeps_tags_preparing lead fun id hlong => ?_) h
  rw [Outgrows, AttributeText.ink_clean]
  exact hlong

/-- After the next run they are short names behind the prefix. -/
theorem own_run (h : ∀ tag ∈ doc.tags, Bears (Outgrows lead) tag) :
    ∀ tag ∈ (run (defaults lead) doc).tags, Bears (IsOwn lead) tag := by
  have hprepared := outgrows_prepared h
  obtain ⟨policy, renames, m, rfl, hremove, hfree, hassigned, happly⟩ :=
    settling_assigned lead hprepared
  rw [run_defaults, happly]
  exact tags_run keeps_tags_finishing
    (own_settled hremove hfree hassigned hprepared)

theorem own_iterate (lead : String) (h : ∀ tag ∈ doc.tags, Bears (fun _ => True) tag) (n : Nat) :
    ∀ tag ∈ ((run (defaults lead))^[n] (run (defaults lead) (run (defaults lead) doc))).tags,
      Bears (IsOwn lead) tag :=
  Function.Iterate.rec (fun next : Document => ∀ tag ∈ next.tags, Bears (IsOwn lead) tag)
    (own_run (outgrows_run h))
    (fun _ hnext => own_run fun tag htag => (hnext tag htag).imp fun _ => IsOwn.outgrows) n

/-- A document that stays as it is has the first short name, if it has any identifier. -/
theorem first_of_fixed (h : ∀ tag ∈ doc.tags, Bears (Outgrows lead) tag)
    (hfixed : run (defaults lead) doc = doc) (hsome : identifiers doc ≠ []) :
    lead ++ shortName 0 ∈ identifiers doc := by
  have hcalm : Calm (defaults lead) doc :=
    calm_of_count (lawful_defaults lead) (Nat.le_of_eq (congrArg (countAll ·.nodes) hfixed.symm))
  -- nothing is taken away after the names are given, so these are the identifiers in the end
  have hlast : (labelling (settling lead)).apply (run (preparing lead) doc) = doc := by
    rw [defaults_eq] at hcalm
    have hfinishing := hcalm.of_append.2.run_eq plain_finishing
    rw [run_defaults] at hfixed
    exact hfinishing.symm.trans hfixed
  have hprepared := outgrows_prepared h
  obtain ⟨policy, renames, m, rfl, hremove, hfree, hassigned, happly⟩ :=
    settling_assigned lead hprepared
  rw [happly] at hlast
  rw [← hlast] at hsome ⊢
  exact first_given hremove hfree hassigned hprepared hsome

end Runs

end Stage

namespace Naming

theorem id_prefix_ends (path : Path) : ∃ front, (idPrefix path).toList = front ++ ['-'] :=
  ⟨_, by rw [idPrefix, String.toList_ofList]⟩

end Naming

namespace Optimizer

/-- A run with the default configuration on a file, from its source to the document that is
written. -/
structure Runs (files : Files) (path : Path) (source : String) (last : Document)
    (outcome : Outcome) : Prop where
  settles : ∃ doc, Document.parse source = .ok doc ∧
    Pipeline.settle (standardSteps files path) (standard files).options doc = .ok (last, outcome)
  result : ((standard files).optimize path source).value = .ok ⟨last.write .standard, outcome⟩

/-- Whatever the identifiers of a source are, the drawing that is made of it has no others than
short names behind the prefix of the file. If the run has converged, the first of them is there as
soon as any is. -/
theorem runs_own (files : Files) (path : Path) {source : String} {doc : Document}
    (hparse : Document.parse source = .ok doc) (hopen : isScripted doc = false) :
    ∃ last outcome, Runs files path source last outcome ∧
      (∀ id ∈ identifiers last, IsOwn (Naming.idPrefix path) id) ∧
      (∀ passes, outcome = .converged passes → identifiers last ≠ [] →
        Naming.idPrefix path ++ shortName 0 ∈ identifiers last) ∧
      ((∀ tag ∈ doc.tags, tag.IsUsual) → ∀ again,
        Document.parse (last.write .standard) = .ok again →
          identifiers again = identifiers last) := by
  have hbears : ∀ tag ∈ doc.tags, Bears (fun _ => True) tag := by
    intro tag htag
    refine ⟨?_, ((Document.read_of_parse hparse).tags tag htag).distinct, fun _ _ => trivial⟩
    rw [isScripted, List.any_eq_false] at hopen
    simpa using hopen tag htag
  let pass := Stage.run (Stage.defaults (Naming.idPrefix path))
  have hpass (doc : Document) : (fun doc => (.ok (pass doc) : Except RunFault Document)) doc =
      .ok (pass doc) := rfl
  obtain ⟨n, outcome, hrun⟩ := Pipeline.converge_twice hpass 8 0 doc
  have hown := Stage.own_iterate (Naming.idPrefix path) hbears n
  have hsettle : Pipeline.settle (standardSteps files path) (standard files).options doc =
      .ok (pass^[n] (pass (pass doc)), outcome) := (settle_standard files path doc).trans hrun
  refine ⟨_, outcome, ⟨⟨doc, hparse, hsettle⟩,
    optimize_ok_iff.mpr ⟨doc, _, hparse, hsettle, rfl⟩⟩,
    fun id hid => bears_identifiers hown hid, fun passes hconverged hsome => ?_,
    fun husual again hagain => ?_⟩
  · rw [hconverged] at hrun
    have hfixed := (Pipeline.converged_of_invariant (p := fun _ => True) (fun _ _ _ _ => trivial)
      trivial hrun).2.1
    exact Stage.first_of_fixed (fun tag htag => (hown tag htag).imp fun _ => IsOwn.outgrows)
      (Except.ok.inj hfixed) hsome
  · have hordinary : (pass^[n] (pass (pass doc))).IsOrdinary :=
      Function.Iterate.rec Document.IsOrdinary
        (Stage.ordinary_run (Stage.lawful_defaults _) (Stage.ordinary_run (Stage.lawful_defaults _)
          (Document.ordinary_of_parse hparse husual)))
        (fun _ hnext => Stage.ordinary_run (Stage.lawful_defaults _) hnext) n
    rw [identifiers, hordinary.tags_of_parse .standard hagain, identifiers]

/-- The drawings of two files with different prefixes have no identifier in common, whatever is in
the files. Two drawings on which the runs converged have none in common only then, or if one of them
has none at all. What is read from the texts that are written has the same identifiers. -/
theorem identifiers_disjoint (files : Files) {path path' : Path} {source source' : String}
    {doc doc' : Document} (hparse : Document.parse source = .ok doc)
    (hparse' : Document.parse source' = .ok doc') (hopen : isScripted doc = false)
    (hopen' : isScripted doc' = false) :
    ∃ last last' outcome outcome', Runs files path source last outcome ∧
      Runs files path' source' last' outcome' ∧
      (Naming.idPrefix path ≠ Naming.idPrefix path' →
        (identifiers last).Disjoint (identifiers last')) ∧
      (∀ passes passes', outcome = .converged passes → outcome' = .converged passes' →
        ((identifiers last).Disjoint (identifiers last') ↔
          Naming.idPrefix path ≠ Naming.idPrefix path' ∨
            identifiers last = [] ∨ identifiers last' = [])) ∧
      ((∀ tag ∈ doc.tags, tag.IsUsual) → ∀ again,
        Document.parse (last.write .standard) = .ok again → identifiers again = identifiers last) ∧
      ((∀ tag ∈ doc'.tags, tag.IsUsual) → ∀ again,
        Document.parse (last'.write .standard) = .ok again →
          identifiers again = identifiers last') := by
  obtain ⟨last, outcome, hruns, hown, hfirst, hread⟩ := runs_own files path hparse hopen
  obtain ⟨last', outcome', hruns', hown', hfirst', hread'⟩ := runs_own files path' hparse' hopen'
  have happart (hne : Naming.idPrefix path ≠ Naming.idPrefix path') :
      (identifiers last).Disjoint (identifiers last') := by
    intro id hid hid'
    obtain ⟨front, hfront⟩ := Naming.id_prefix_ends path
    obtain ⟨front', hfront'⟩ := Naming.id_prefix_ends path'
    exact hne (IsOwn.lead_eq hfront hfront' (hown id hid) (hown' id hid'))
  refine ⟨last, last', outcome, outcome', hruns, hruns', happart,
    fun passes passes' hconverged hconverged' => ⟨fun hdisjoint => ?_, ?_⟩, hread, hread'⟩
  · by_contra hnot
    simp only [not_or, Classical.not_not] at hnot
    obtain ⟨hsame, hsome, hsome'⟩ := hnot
    have hmem := hfirst passes hconverged hsome
    rw [hsame] at hmem
    exact hdisjoint hmem (hfirst' passes' hconverged' hsome')
  · rintro (hne | hnone | hnone)
    · exact happart hne
    · rw [hnone]
      exact List.disjoint_nil_left _
    · rw [hnone]
      exact List.disjoint_nil_right _

/-- A drawing that uses one of its elements. -/
def linked (name id : String) : Document :=
  ⟨[.element ⟨"svg", []⟩
    [.element ⟨name, [⟨"id", id⟩]⟩ [], .element ⟨"use", [⟨"href", "#" ++ id⟩]⟩ []]]⟩

theorem identifiers_disjoint_arrows :
    Naming.idPrefix ⟨"icons/up.svg"⟩ ≠ Naming.idPrefix ⟨"icons/down.svg"⟩ ∧
      ∃ last last' outcome outcome',
        Runs noFiles ⟨"icons/up.svg"⟩ "<svg><path id=\"x\"/><use href=\"#x\"/></svg>" last outcome ∧
        Runs noFiles ⟨"icons/down.svg"⟩ "<svg><rect id=\"x\"/><use href=\"#x\"/></svg>" last'
          outcome' ∧
        (identifiers last).Disjoint (identifiers last') := by
  have hne : Naming.idPrefix ⟨"icons/up.svg"⟩ ≠ Naming.idPrefix ⟨"icons/down.svg"⟩ := by
    decide +kernel
  have hparse : Document.parse "<svg><path id=\"x\"/><use href=\"#x\"/></svg>" =
      .ok (linked "path" "x") := by decide +kernel
  have hparse' : Document.parse "<svg><rect id=\"x\"/><use href=\"#x\"/></svg>" =
      .ok (linked "rect" "x") := by decide +kernel
  obtain ⟨last, last', outcome, outcome', hruns, hruns', hdisjoint, -⟩ :=
    identifiers_disjoint noFiles hparse hparse' (by decide +kernel) (by decide +kernel)
  exact ⟨hne, last, last', outcome, outcome', hruns, hruns', hdisjoint hne⟩

/-- The prefix does not tell files apart whose names differ in capital letters. -/
theorem identifier_shared :
    let path : Path := ⟨"icons/arrowUp.svg"⟩
    let path' : Path := ⟨"icons/arrowup.svg"⟩
    let source := "<svg><path id=\"x\"/><use href=\"#x\"/></svg>"
    let source' := "<svg><rect id=\"x\"/><use href=\"#x\"/></svg>"
    let markup := "<svg>\n  <path id=\"arrowup-a\"/>\n  <use href=\"#arrowup-a\"/>\n</svg>"
    let markup' := "<svg>\n  <rect id=\"arrowup-a\"/>\n  <use href=\"#arrowup-a\"/>\n</svg>"
    path.parent? = path'.parent? ∧ path.fileName? ≠ path'.fileName? ∧
      Naming.componentName path ≠ Naming.componentName path' ∧
      ((standard noFiles).optimize path source).value = .ok ⟨markup, .converged 2⟩ ∧
      ((standard noFiles).optimize path' source').value = .ok ⟨markup', .converged 2⟩ ∧
      Document.parse markup = .ok (linked "path" "arrowup-a") ∧
      Document.parse markup' = .ok (linked "rect" "arrowup-a") ∧
      "arrowup-a" ∈ identifiers (linked "path" "arrowup-a") ∧
      "arrowup-a" ∈ identifiers (linked "rect" "arrowup-a") := by
  intro path path' source source' markup markup'
  have hname : Naming.idPrefix path = "arrowup-" := by decide +kernel
  have hname' : Naming.idPrefix path' = "arrowup-" := by decide +kernel
  have hparse : Document.parse source = .ok (linked "path" "x") := by decide +kernel
  have hparse' : Document.parse source' = .ok (linked "rect" "x") := by decide +kernel
  have hrun : settleStages "arrowup-" (linked "path" "x") =
      .ok (linked "path" "arrowup-a", .converged 2) := by
    refine settle_in_two ?_ ?_ ?_ <;> decide +kernel
  have hrun' : settleStages "arrowup-" (linked "rect" "x") =
      .ok (linked "rect" "arrowup-a", .converged 2) := by
    refine settle_in_two ?_ ?_ ?_ <;> decide +kernel
  have hmarkup : (linked "path" "arrowup-a").write .standard = markup := by decide +kernel
  have hmarkup' : (linked "rect" "arrowup-a").write .standard = markup' := by decide +kernel
  have hoptimize := optimize_standard_of noFiles hparse hname hrun
  have hoptimize' := optimize_standard_of noFiles hparse' hname' hrun'
  rw [hmarkup] at hoptimize
  rw [hmarkup'] at hoptimize'
  refine ⟨?_, ?_, ?_, hoptimize, hoptimize', ?_, ?_, ?_, ?_⟩ <;> decide +kernel

end Optimizer

end SvgPress
