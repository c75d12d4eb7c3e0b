import SvgPress.Proofs.Pass.Ordinary
import SvgPress.Proofs.Pass.Padding

/-!
A run of passes in stages. A stage first takes nodes away and then changes tags, and how it changes
them depends on nothing but the tags there were. A run that leaves a document as it is takes nothing
away at any stage, since nothing that was taken away is put back. So it leaves any other document
with the same tags as it is too, if only it takes nothing away from that one.
-/

namespace SvgPress

open Node

/-- A pass seen as two changes, the second of which knows the tags that were there before the
first. -/
structure Stage where
  cut : Document → Document
  retag : List Tag → Tag → Tag

namespace Stage

def apply (stage : Stage) (doc : Document) : Document :=
  (stage.cut doc).mapTags (stage.retag doc.tags)

/-- The stages in order. -/
def run (stages : List Stage) (doc : Document) : Document :=
  stages.foldl (fun doc stage => stage.apply doc) doc

/-- Whether no stage takes anything away from what the stages before it leave. -/
def Calm : List Stage → Document → Prop
  | [], _ => True
  | stage :: rest, doc => stage.cut doc = doc ∧ Calm rest (doc.mapTags (stage.retag doc.tags))

/-- Documents that differ in their text only, where no text of the second stands among
definitions. -/
structure Padded (doc other : Document) : Prop where
  pads : Pads doc.nodes other.nodes
  defs : EverywhereIn HasTextlessDefs false other.nodes

/-- What a stage has to obey. It makes documents smaller if it takes anything away; it looks for
nothing that padding would bring about; it keeps the names of elements, and a document that was read
keeps what is known of it. -/
structure IsLawful (stage : Stage) : Prop where
  cuts : ∀ doc, stage.cut doc = doc ∨ countAll (stage.cut doc).nodes < countAll doc.nodes
  padded : ∀ {doc other}, Padded doc other → stage.cut doc = doc → stage.cut other = other
  names : ∀ tags tag, (stage.retag tags tag).name = tag.name
  ordinary : ∀ doc, doc.IsOrdinary → (stage.apply doc).IsOrdinary

theorem count_apply (stage : Stage) (doc : Document) :
    countAll (stage.apply doc).nodes = countAll (stage.cut doc).nodes :=
  count_all_map_tags _ _

variable {stages : List Stage}

section Lawful

variable (hlawful : ∀ stage ∈ stages, stage.IsLawful)

include hlawful

theorem count_run_le (doc : Document) : countAll (run stages doc).nodes ≤ countAll doc.nodes := by
  induction stages generalizing doc with
  | nil => exact Nat.le_refl _
  | cons stage rest ih =>
      rw [List.forall_mem_cons] at hlawful
      have hrest := ih hlawful.2 (stage.apply doc)
      rw [count_apply] at hrest
      rcases hlawful.1.cuts doc with hsame | hless
      · rw [hsame] at hrest
        exact hrest
      · exact Nat.le_trans hrest (Nat.le_of_lt hless)

/-- A run after which there are as many nodes as before took nothing away. -/
theorem calm_of_count {doc : Document}
    (h : countAll doc.nodes ≤ countAll (run stages doc).nodes) : Calm stages doc := by
  induction stages generalizing doc with
  | nil => trivial
  | cons stage rest ih =>
      rw [List.forall_mem_cons] at hlawful
      have hrest := count_run_le hlawful.2 (stage.apply doc)
      rw [count_apply] at hrest
      have hwhole : countAll doc.nodes ≤ countAll (run rest (stage.apply doc)).nodes := h
      have hsame : stage.cut doc = doc := by
        rcases hlawful.1.cuts doc with hsame | hless
        · exact hsame
        · omega
      have hnext : stage.apply doc = doc.mapTags (stage.retag doc.tags) := by
        rw [apply, hsame]
      refine ⟨hsame, ?_⟩
      rw [← hnext]
      refine ih hlawful.2 (Nat.le_trans (Nat.le_of_eq ?_) hwhole)
      rw [count_apply, hsame]

theorem ordinary_run {doc : Document} (h : doc.IsOrdinary) : (run stages doc).IsOrdinary := by
  induction stages generalizing doc with
  | nil => exact h
  | cons stage rest ih =>
      rw [List.forall_mem_cons] at hlawful
      exact ih hlawful.2 (hlawful.1.ordinary doc h)

/-- Padding that does not stand among definitions is no reason to take anything away. -/
theorem Calm.padded {doc other : Document} (h : Calm stages doc) (hpadded : Padded doc other) :
    Calm stages other := by
  induction stages generalizing doc other with
  | nil => trivial
  | cons stage rest ih =>
      rw [List.forall_mem_cons] at hlawful
      have htags : other.tags = doc.tags := hpadded.pads.tags
      refine ⟨hlawful.1.padded hpadded h.1, ?_⟩
      rw [htags]
      exact ih hlawful.2 h.2 ⟨hpadded.pads.map_tags _,
        (textless_defs_map_tags_iff (hlawful.1.names doc.tags) _ _).mp hpadded.defs⟩

/-- Where nothing is taken away, each stage sees the document with changed tags. -/
theorem Calm.cut_eq {doc : Document} (h : Calm stages doc) {stage : Stage}
    (hmem : stage ∈ stages) :
    ∃ g : Tag → Tag, (∀ tag, (g tag).name = tag.name) ∧
      stage.cut (doc.mapTags g) = doc.mapTags g := by
  induction stages generalizing doc with
  | nil => cases hmem
  | cons first rest ih =>
      rw [List.forall_mem_cons] at hlawful
      rcases List.mem_cons.mp hmem with rfl | hmem
      · have hsame : doc.mapTags (fun tag => tag) = doc :=
          Document.map_tags_eq_self_iff.mpr fun _ _ => rfl
        exact ⟨fun tag => tag, fun _ => rfl, by rw [hsame, h.1]⟩
      · obtain ⟨g, hname, hcut⟩ := ih hlawful.2 h.2 hmem
        rw [Document.map_tags_map_tags] at hcut
        exact ⟨_, fun tag => (hname _).trans (hlawful.1.names _ tag), hcut⟩

end Lawful

theorem run_append (stages more : List Stage) (doc : Document) :
    run (stages ++ more) doc = run more (run stages doc) :=
  List.foldl_append

/-- Where nothing is taken away, nothing is taken away by the last stages. -/
theorem Calm.of_append {stages more : List Stage} {doc : Document} (h : Calm (stages ++ more) doc) :
    Calm more (run stages doc) := by
  induction stages generalizing doc with
  | nil => exact h
  | cons stage rest ih =>
      obtain ⟨hsame, hrest⟩ := h
      have happly : stage.apply doc = doc.mapTags (stage.retag doc.tags) := by rw [apply, hsame]
      rw [run, List.foldl_cons, happly]
      exact ih hrest

/-- Stages that change no tags leave a document as it is if they take nothing away. -/
theorem Calm.run_eq {stages : List Stage} {doc : Document} (h : Calm stages doc)
    (hplain : ∀ stage ∈ stages, ∀ tags tag, stage.retag tags tag = tag) : run stages doc = doc := by
  induction stages generalizing doc with
  | nil => rfl
  | cons stage rest ih =>
      rw [List.forall_mem_cons] at hplain
      have hsame : doc.mapTags (stage.retag doc.tags) = doc :=
        Document.map_tags_eq_self_iff.mpr fun tag _ => hplain.1 doc.tags tag
      have happly : stage.apply doc = doc := by rw [apply, h.1, hsame]
      rw [run, List.foldl_cons, happly]
      refine ih ?_ hplain.2
      have hrest := h.2
      rwa [hsame] at hrest

/-- Two documents with the same tags from which nothing is taken away have their tags changed in
the same way. -/
theorem run_of_calm {doc other : Document} (h : Calm stages doc) (hother : Calm stages other)
    (htags : other.tags = doc.tags) :
    ∃ g, run stages doc = doc.mapTags g ∧ run stages other = other.mapTags g := by
  induction stages generalizing doc other with
  | nil =>
      have hsame (doc : Document) : doc.mapTags (fun tag => tag) = doc :=
        Document.map_tags_eq_self_iff.mpr fun _ _ => rfl
      exact ⟨fun tag => tag, (hsame doc).symm, (hsame other).symm⟩
  | cons stage rest ih =>
      have hagain : (other.mapTags (stage.retag doc.tags)).tags =
          (doc.mapTags (stage.retag doc.tags)).tags := by
        rw [Document.tags_map_tags, Document.tags_map_tags, htags]
      have hcalm := hother.2
      rw [htags] at hcalm
      obtain ⟨g, hdoc, hotherRun⟩ := ih h.2 hcalm hagain
      rw [Document.map_tags_map_tags] at hdoc hotherRun
      have hfirst : stage.apply doc = doc.mapTags (stage.retag doc.tags) := by
        rw [apply, h.1]
      have hfirstOther : stage.apply other = other.mapTags (stage.retag doc.tags) := by
        rw [apply, hother.1, htags]
      refine ⟨fun tag => g (stage.retag doc.tags tag), ?_, ?_⟩
      · rw [run, List.foldl_cons, hfirst]
        exact hdoc
      · rw [run, List.foldl_cons, hfirstOther]
        exact hotherRun

/-- A document that differs in its text only from one that settled is settled too exactly if no
stage finds anything in it to take away. -/
theorem run_again_iff (hlawful : ∀ stage ∈ stages, stage.IsLawful) {doc other : Document}
    (h : run stages doc = doc) (htags : other.tags = doc.tags) :
    run stages other = other ↔ Calm stages other := by
  have hcalm : Calm stages doc := calm_of_count hlawful (by rw [h])
  constructor
  · intro hother
    exact calm_of_count hlawful (by rw [hother])
  · intro hother
    obtain ⟨g, hdoc, hagain⟩ := run_of_calm hcalm hother htags
    rw [hagain, Document.map_tags_eq_self_iff, htags, ← Document.map_tags_eq_self_iff, ← hdoc, h]

/-- The stage that tidies definitions. -/
def tidying : Stage where
  cut doc := ⟨Definitions.tidyAll false doc.nodes⟩
  retag _ tag := tag

theorem textless_defs_of_calm (hlawful : ∀ stage ∈ stages, stage.IsLawful)
    (hmem : tidying ∈ stages) {doc : Document} (h : Calm stages doc) :
    EverywhereIn HasTextlessDefs false doc.nodes := by
  obtain ⟨g, hname, hcut⟩ := h.cut_eq hlawful hmem
  have hnodes : Definitions.tidyAll false (mapTagsOf g doc.nodes) = mapTagsOf g doc.nodes :=
    congrArg Document.nodes hcut
  have htidy := ((Definitions.shrinks_tidy_all false _ false).eq_iff.mp hnodes).2
  exact (textless_defs_map_tags_iff hname _ _).mpr (textless_defs_of_tidy htidy)

/-- Padding unsettles a document exactly if it stands among definitions. -/
theorem run_padded_iff (hlawful : ∀ stage ∈ stages, stage.IsLawful) (hmem : tidying ∈ stages)
    {doc other : Document} (h : run stages doc = doc) (hpads : Pads doc.nodes other.nodes) :
    run stages other = other ↔ EverywhereIn HasTextlessDefs false other.nodes := by
  rw [run_again_iff hlawful h hpads.tags]
  constructor
  · exact textless_defs_of_calm hlawful hmem
  · intro hdefs
    have hcalm : Calm stages doc := calm_of_count hlawful (by rw [h])
    exact hcalm.padded hlawful ⟨hpads, hdefs⟩

end Stage

end SvgPress
