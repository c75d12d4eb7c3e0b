import SvgPress.Proofs.Pass.Sorting
import SvgPress.Proofs.Pass.Weight
import SvgPress.Proofs.Pipeline.FixedPoint

/-!
Runs of structural passes always settle. Each of these passes makes a document lighter, unless it
leaves it as it is or does nothing but sort attributes. So does a pass over several of them, and of
several orders the last one counts. A second pass that only sorts thus changes nothing, and between
two passes that make the document lighter there is at most one that only sorts.
-/

namespace SvgPress

open Node

/-- A document with the attributes of every element in a given order, if there is one. -/
def Document.arrange : Option (List String) → Document → Document
  | none, doc => doc
  | some order, doc => doc.mapTags fun tag =>
      { tag with attributes := AttributeOrder.sort order tag.attributes }

namespace Document

theorem weight_arrange (order : Option (List String)) (doc : Document) :
    (doc.arrange order).weight = doc.weight := by
  cases order with
  | none => rfl
  | some order =>
      have htags := tags_of_map_tags (fun tag : Tag =>
        { tag with attributes := AttributeOrder.sort order tag.attributes }) doc.nodes
      refine congrArg₂ (· + ·) (count_all_map_tags _ doc.nodes) ?_
      refine congrArg List.sum ((congrArg (List.map _) htags).trans ?_)
      rw [List.map_map]
      exact List.map_congr_left fun tag _ =>
        (AttributeOrder.perm_sort order tag.attributes).length_eq

/-- Of two orders the last one counts. -/
theorem arrange_arrange (order before : Option (List String)) (doc : Document) :
    (doc.arrange before).arrange order = doc.arrange (order.or before) := by
  cases order with
  | none => rfl
  | some order =>
      cases before with
      | none => rfl
      | some before =>
          refine (map_tags_map_tags _ _ doc).trans (congrArg doc.mapTags (funext fun tag => ?_))
          exact congrArg (Tag.mk tag.name) (AttributeOrder.sort_sort order before tag.attributes)

end Document

/-- Whether a change makes every document lighter for which it does more than to sort attributes. -/
def ThinsOrSorts (order : Option (List String)) (change : Document → Document) : Prop :=
  ∀ doc, change doc = doc.arrange order ∨ (change doc).weight < doc.weight

theorem ThinsOrSorts.comp {order before : Option (List String)} {change next : Document → Document}
    (hnext : ThinsOrSorts order next) (h : ThinsOrSorts before change) :
    ThinsOrSorts (order.or before) fun doc => next (change doc) := by
  intro doc
  have hle : (change doc).weight ≤ doc.weight := by
    rcases h doc with hsorted | hless
    · rw [hsorted, Document.weight_arrange]
    · exact Nat.le_of_lt hless
  rcases hnext (change doc) with hsorted | hless
  · refine (h doc).imp (fun hbefore => ?_) fun hless => ?_
    · rw [← Document.arrange_arrange, ← hbefore]
      exact hsorted
    · rw [← Document.weight_arrange order, ← hsorted] at hless
      exact hless
  · exact .inr (hless.trans_le hle)

namespace Pass

/-- The passes that look at the structure of a document only: they take nodes and attributes away,
dissolve groups, and sort attributes. -/
def structural : List Pass :=
  [NodeRemoval.removeDoctype,
    NodeRemoval.removeDeclaration,
    NodeRemoval.removeComments,
    NodeRemoval.removeMetadata,
    NodeRemoval.removeTitle,
    NodeRemoval.removeDescriptions,
    EditorData.removeEditorData,
    Definitions.removeUseless,
    AttributeRemoval.removeEmpty,
    EmptyContainers.removeEmpty,
    AttributeRemoval.removeDimensions,
    AttributeRemoval.removeMatching .standard,
    Groups.collapseGroups,
    AttributeOrder.sortAttributes]

/-- Whether a pass takes some parameters, shown by a document to which it can be applied. -/
def Accepts (pass : Pass) (params : Params) : Prop :=
  ∃ doc next, pass.apply params doc = .ok next

/-- Whether a pass with some parameters never fails and makes lighter or sorts. -/
def Settles (pass : Pass) (params : Params) : Prop :=
  ∃ order change, ThinsOrSorts order change ∧ ∀ doc, pass.apply params doc = .ok (change doc)

theorem settles_of_thins {pass : Pass} {params : Params} {change : Document → Document}
    (hthins : Thins change) (h : ∀ doc, pass.apply params doc = .ok (change doc)) :
    pass.Settles params :=
  ⟨none, change, hthins, h⟩

/-- A pass that reads its parameters before it does anything. -/
theorem settles_of_read {α : Type} {pass : Pass} {params : Params} {reading : Except PassFault α}
    {change : α → Document → Document}
    (happly : ∀ doc, pass.apply params doc = reading.map (change · doc))
    (hchange : ∀ a, ∃ order, ThinsOrSorts order (change a)) (h : pass.Accepts params) :
    pass.Settles params := by
  cases reading with
  | error fault =>
      obtain ⟨doc, next, hok⟩ := h
      rw [happly] at hok
      cases hok
  | ok a =>
      obtain ⟨order, horder⟩ := hchange a
      exact ⟨order, change a, horder, happly⟩

end Pass

namespace AttributeRemoval

/-- The rules that parameters give. -/
def rulesOf (engine : Text.Pattern.Engine) (params : Params) : Except PassFault (List Rule) := do
  let separator ← params.text "elemSeparator" ":"
  if separator.isEmpty then throw (.invalidParam "elemSeparator" "must not be empty")
  (← params.texts "attrs").mapM (rule engine separator)

theorem apply_remove_matching (engine : Text.Pattern.Engine) (params : Params) (doc : Document) :
    (removeMatching engine).apply params doc =
      (rulesOf engine params).map fun rules => doc.mapTags (applyRules rules) := by
  simp only [removeMatching, rulesOf]
  cases params.text "elemSeparator" ":" with
  | error fault => rfl
  | ok separator =>
      dsimp only [bind, Except.bind]
      split
      · rfl
      · cases params.texts "attrs" with
        | error fault => rfl
        | ok written =>
            dsimp only
            cases List.mapM (rule engine separator) written <;> rfl

end AttributeRemoval

/-- Every structural pass makes lighter or sorts, with all parameters that it takes. -/
theorem Pass.settles_of_structural {pass : Pass} (hpass : pass ∈ Pass.structural) {params : Params}
    (h : pass.Accepts params) : pass.Settles params := by
  have hprune (keep : Node → Bool) : ∃ order, ThinsOrSorts order (·.prune keep) :=
    ⟨none, thins_prune keep⟩
  simp only [structural, List.mem_cons, List.not_mem_nil, or_false] at hpass
  rcases hpass with
    rfl | rfl | rfl | rfl | rfl | rfl | rfl | rfl | rfl | rfl | rfl | rfl | rfl | rfl
  · exact settles_of_thins (thins_prune (NodeRemoval.isOther .doctype)) fun _ => rfl
  · exact settles_of_thins (thins_prune (NodeRemoval.isOther .declaration)) fun _ => rfl
  · exact settles_of_thins (thins_prune NodeRemoval.isNoticeOrOther) fun _ => rfl
  · exact settles_of_thins (thins_prune (NodeRemoval.isNotNamed "metadata")) fun _ => rfl
  · exact settles_of_thins (thins_prune (NodeRemoval.isNotNamed "title")) fun _ => rfl
  · exact settles_of_read (fun _ => rfl) (fun removeAny => hprune _) h
  · exact settles_of_read (fun _ => rfl)
      (fun additional => ⟨none, fun doc => EditorData.thins_strip _ doc⟩) h
  · exact settles_of_thins Definitions.thins_tidy fun _ => rfl
  · exact settles_of_thins (thins_keep fun _ => AttributeRemoval.isTelling) fun _ => rfl
  · exact settles_of_thins EmptyContainers.thins_shrink fun _ => rfl
  · exact settles_of_thins AttributeRemoval.thins_without_size fun _ => rfl
  · exact settles_of_read (AttributeRemoval.apply_remove_matching .standard params)
      (fun rules => ⟨none, AttributeRemoval.thins_rules rules⟩) h
  · exact settles_of_thins Groups.thins_collapse fun _ => rfl
  · exact settles_of_read (fun _ => rfl) (fun order => ⟨some order, fun _ => .inl rfl⟩) h

namespace Pipeline

/-- A pass over structural steps makes lighter or sorts. -/
theorem once_of_settles {steps : List Step}
    (h : ∀ step ∈ steps, step.active → step.pass.Settles (step.params.getD [])) :
    ∃ order change, ThinsOrSorts order change ∧ ∀ doc, once steps doc = .ok (change doc) := by
  induction steps with
  | nil => exact ⟨none, fun doc => doc, fun _ => .inl rfl, fun _ => rfl⟩
  | cons step rest ih =>
      rw [List.forall_mem_cons] at h
      obtain ⟨order, change, hchange, hrest⟩ := ih h.2
      cases hactive : step.active with
      | false => exact ⟨order, change, hchange, fun doc => by rw [once_idle hactive, hrest]⟩
      | true =>
          obtain ⟨before, first, hfirst, happly⟩ := h.1 hactive
          refine ⟨_, _, hchange.comp hfirst, fun doc => ?_⟩
          have hstep : step.apply doc = .ok (first doc) := happly doc
          rw [once_active hactive, hstep]
          exact hrest (first doc)

/-- Whether repeated passes converge on a document after at most so many. -/
def ConvergesWithin {ε : Type} (f : Document → Except ε Document) (bound : Nat)
    (doc : Document) : Prop :=
  ∀ left done, bound ≤ left →
    ∃ last n, converge f left done doc = .ok (last, .converged n) ∧ n ≤ done + bound

section Settling

variable {f : Document → Except RunFault Document} {bound : Nat} {doc next : Document}

theorem ConvergesWithin.mono {more : Nat} (h : ConvergesWithin f bound doc) (hle : bound ≤ more) :
    ConvergesWithin f more doc := by
  intro left done hleft
  obtain ⟨last, n, hrun, hn⟩ := h left done (hle.trans hleft)
  exact ⟨last, n, hrun, hn.trans (Nat.add_le_add_left hle done)⟩

theorem ConvergesWithin.pass (hpass : f doc = .ok next)
    (h : next ≠ doc → ConvergesWithin f bound next) : ConvergesWithin f (bound + 1) doc := by
  intro left done hleft
  obtain ⟨left, rfl⟩ := Nat.exists_eq_add_of_le' (Nat.le_of_add_left_le hleft)
  rw [converge_succ, hpass, Except.bind]
  split
  · exact ⟨next, done + 1, rfl, by omega⟩
  · rename_i hmoves
    obtain ⟨last, n, hrun, hn⟩ := h hmoves left (done + 1) (Nat.le_of_succ_le_succ hleft)
    exact ⟨last, n, hrun, by omega⟩

/-- Repeated passes converge after two for each node and each attribute, and two more: a pass that
only sorts is followed by one that makes lighter, unless it is the last but one. -/
theorem converges_within {order : Option (List String)} {change : Document → Document}
    (hchange : ThinsOrSorts order change) (hf : ∀ doc, f doc = .ok (change doc)) (doc : Document) :
    ConvergesWithin f (2 * doc.weight + 2) doc := by
  induction hweight : doc.weight using Nat.strong_induction_on generalizing doc with
  | _ weight ih =>
      have hlighter (doc : Document) (hweight : doc.weight = weight)
          (hless : (change doc).weight < doc.weight) :
          ConvergesWithin f (2 * weight) (change doc) :=
        (ih _ (hweight ▸ hless) (change doc) rfl).mono (by omega)
      have hsorted (doc : Document) (hweight : doc.weight = weight)
          (hsorted : doc.arrange order = doc) : ConvergesWithin f (2 * weight + 1) doc := by
        refine .pass (hf doc) fun hmoves => hlighter doc hweight ?_
        exact (hchange doc).resolve_left fun hsorts => hmoves (hsorts.trans hsorted)
      refine .pass (hf doc) fun _ => ?_
      rcases hchange doc with hsorts | hless
      · refine hsorted (change doc) ?_ ?_
        · rw [hsorts, Document.weight_arrange, hweight]
        · rw [hsorts, Document.arrange_arrange, Option.or_self]
      · exact (hlighter doc hweight hless).mono (Nat.le_succ _)

end Settling

/-- Structural passes settle on every document: where the limit leaves room for two passes for each
node and each attribute, and two more, a run of any of them converges. -/
theorem structural_converges {steps : List Step}
    (hsteps : ∀ step ∈ steps, step.active →
      step.pass ∈ Pass.structural ∧ step.pass.Accepts (step.params.getD []))
    {options : RunOptions} (hrepeat : options.multipass = true) (doc : Document)
    (hlimit : 2 * (countAll doc.nodes + attributeCount doc.nodes) + 2 ≤ options.maxPasses) :
    ∃ (last : Document) (n : Nat), (run steps options doc).value =
        .ok ⟨last.write options.layout, .converged n⟩ ∧
      n ≤ 2 * (countAll doc.nodes + attributeCount doc.nodes) + 2 := by
  obtain ⟨order, change, hchange, honce⟩ := once_of_settles fun step hstep hactive =>
    Pass.settles_of_structural (hsteps step hstep hactive).1 (hsteps step hstep hactive).2
  obtain ⟨last, n, hrun, hn⟩ := converges_within hchange honce doc (max 1 options.maxPasses) 0
    (hlimit.trans (Nat.le_max_right _ _))
  rw [Nat.zero_add] at hn
  refine ⟨last, n, ?_, hn⟩
  rw [value_run, settle_repeated hrepeat, hrun]
  rfl

/-- Two orders, a size that becomes a view box, and a group that goes into its only child. -/
theorem structural_converges_banner :
    let doc : Document := ⟨[.element ⟨"svg", [⟨"width", "2"⟩, ⟨"height", "3px"⟩]⟩
      [.element ⟨"g", [⟨"stroke", "red"⟩]⟩ [.element ⟨"path", [⟨"d", "M0 0"⟩]⟩ []]]]⟩
    let steps : List Step :=
      [⟨"first", "sortAttrs", some [("order", .ofStrings ["stroke"])], true,
          AttributeOrder.sortAttributes⟩,
        .ofPass "size" true AttributeRemoval.removeDimensions,
        .ofPass "groups" true Groups.collapseGroups,
        ⟨"fills", "removeAttrs", some [("attrs", .string "fill.*")], true,
          AttributeRemoval.removeMatching .standard⟩,
        .ofPass "last" true AttributeOrder.sortAttributes]
    let options : RunOptions := ⟨true, 16, ⟨false, 0⟩⟩
    Document.parse "<svg width='2' height='3px'><g stroke='red'><path d='M0 0'/></g></svg>" =
        .ok doc ∧
      ∃ (last : Document) (n : Nat), (run steps options doc).value =
          .ok ⟨last.write options.layout, .converged n⟩ ∧
        n ≤ 2 * (countAll doc.nodes + attributeCount doc.nodes) + 2 := by
  intro doc steps options
  have hsteps : ∀ step ∈ steps, step.active →
      step.pass ∈ Pass.structural ∧ step.pass.Accepts (step.params.getD []) := by
    simp only [steps, List.forall_mem_cons]
    refine ⟨fun _ => ⟨?_, ⟨[]⟩, ⟨[]⟩, by decide +kernel⟩, fun _ => ⟨?_, ⟨[]⟩, ⟨[]⟩, rfl⟩,
      fun _ => ⟨?_, ⟨[]⟩, ⟨[]⟩, rfl⟩, fun _ => ⟨?_, ⟨[]⟩, ⟨[]⟩, by decide +kernel⟩,
      fun _ => ⟨?_, ⟨[]⟩, ⟨[]⟩, by decide +kernel⟩, by simp⟩ <;> simp [Pass.structural, Step.ofPass]
  exact ⟨by decide +kernel, structural_converges hsteps rfl doc (by decide +kernel)⟩

end Pipeline

end SvgPress
