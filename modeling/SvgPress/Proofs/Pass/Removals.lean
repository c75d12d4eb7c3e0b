import Mathlib.Data.List.Forall2
import SvgPress.Pass.NodeRemoval
import SvgPress.Proofs.Markup.Sites
import SvgPress.Proofs.Pipeline.FixedPoint

/-!
Removals in any order. Each of the passes that remove nodes tests a node before anything below it
goes, and the test for descriptions looks at what is written in a node. No removal takes character
data away, so none changes what another one sees. Removals after one another are therefore one
removal by all their tests, and it does not matter in which order they are made, or how often.
-/

namespace SvgPress

namespace Node

/-- Whether a test keeps all character data. -/
def KeepsText (keep : Node → Bool) : Prop :=
  ∀ s, keep (.leaf .text s) ∧ keep (.leaf .cdata s)

theorem character_data_prune (keep : Node → Bool) (n : Node) :
    (n.prune keep).characterData = n.characterData := by
  cases n <;> rfl

theorem character_data_of_rejected {keep : Node → Bool} (htext : KeepsText keep) {n : Node}
    (hn : keep n = false) : n.characterData = "" := by
  cases n with
  | element tag children => rfl
  | leaf kind s =>
      obtain ⟨hplain, hcdata⟩ := htext s
      cases kind with
      | text => rw [hn] at hplain; cases hplain
      | cdata => rw [hn] at hcdata; cases hcdata
      | _ => rfl

/-- What is written in an element is not changed by removals that keep character data. -/
theorem text_of_prune_all {keep : Node → Bool} (htext : KeepsText keep) (ns : List Node) :
    textOf (pruneAll keep ns) = textOf ns := by
  induction ns with
  | nil => rfl
  | cons n ns ih =>
      have hcons (m : Node) (ms : List Node) : textOf (m :: ms) = m.characterData ++ textOf ms := by
        rw [textOf, textOf, List.map_cons, String.join_cons]
      rw [pruneAll]
      cases hn : keep n with
      | true => rw [if_pos rfl, hcons, hcons, character_data_prune, ih]
      | false =>
          rw [if_neg Bool.false_ne_true, hcons, character_data_of_rejected htext hn,
            String.empty_append, ih]

mutual

/-- Two removals are one if the first does not change what the second sees. -/
theorem prune_prune {keep keep' : Node → Bool}
    (hsees : ∀ n : Node, keep' (n.prune keep) = keep' n) :
    (n : Node) → (n.prune keep).prune keep' = n.prune fun m => keep m && keep' m
  | .leaf .. => rfl
  | .element tag children => by
      rw [prune, prune, prune, prune_all_prune_all hsees children]

theorem prune_all_prune_all {keep keep' : Node → Bool}
    (hsees : ∀ n : Node, keep' (n.prune keep) = keep' n) : (ns : List Node) →
    pruneAll keep' (pruneAll keep ns) = pruneAll (fun m => keep m && keep' m) ns
  | [] => rfl
  | n :: ns => by
      have hrest := prune_all_prune_all hsees ns
      rw [pruneAll, pruneAll]
      cases hn : keep n with
      | false =>
          rw [Bool.false_and, if_neg Bool.false_ne_true, if_neg Bool.false_ne_true, hrest]
      | true =>
          rw [Bool.true_and, if_pos rfl, pruneAll, hsees n, hrest, prune_prune hsees n]

end

mutual

theorem prune_nothing : (n : Node) → n.prune (fun _ => true) = n
  | .leaf .. => rfl
  | .element tag children => by rw [prune, prune_all_nothing children]

theorem prune_all_nothing : (ns : List Node) → pruneAll (fun _ => true) ns = ns
  | [] => rfl
  | n :: ns => by rw [pruneAll, if_pos rfl, prune_nothing n, prune_all_nothing ns]

end

end Node

open Node (KeepsText)

namespace NodeRemoval

/-- The removals. That of descriptions comes in two settings. -/
inductive Removal where
  | doctype
  | declaration
  | comments
  | metadata
  | title
  | descriptions (removeAny : Bool)
  deriving DecidableEq, Repr

namespace Removal

def pass : Removal → Pass
  | doctype => removeDoctype
  | declaration => removeDeclaration
  | comments => removeComments
  | metadata => removeMetadata
  | title => removeTitle
  | descriptions _ => removeDescriptions

/-- The nodes that a removal does not reject. -/
def keeps : Removal → Node → Bool
  | doctype => isOther .doctype
  | declaration => isOther .declaration
  | comments => isNoticeOrOther
  | metadata => isNotNamed "metadata"
  | title => isNotNamed "title"
  | descriptions removeAny => isWorthwhile removeAny

/-- Whether a step makes a removal: it is active, and its parameters come to the setting. -/
structure IsMadeBy (r : Removal) (step : Step) : Prop where
  active : step.active = true
  pass : step.pass = r.pass
  setting : ∀ removeAny, r = descriptions removeAny →
    (step.params.getD []).bool "removeAny" false = .ok removeAny

variable {r : Removal} {step : Step}

theorem apply_step (h : r.IsMadeBy step) (doc : Document) :
    step.apply doc = .ok (doc.prune r.keeps) := by
  rw [Step.apply, h.pass]
  cases r with
  | descriptions removeAny =>
      show (Params.bool _ _ _).bind _ = _
      rw [h.setting removeAny rfl]
      rfl
  | _ => rfl

theorem keeps_text (r : Removal) : KeepsText r.keeps := by
  intro s
  cases r <;> exact ⟨rfl, rfl⟩

/-- No removal changes what another one sees. -/
theorem keeps_prune {keep : Node → Bool} (htext : KeepsText keep) (r : Removal) (n : Node) :
    r.keeps (n.prune keep) = r.keeps n := by
  cases n with
  | leaf kind s => rfl
  | element tag children =>
      cases r with
      | descriptions removeAny =>
          show isWorthwhile removeAny (.element tag _) = isWorthwhile removeAny (.element tag _)
          rw [isWorthwhile, isWorthwhile, Node.text_of_prune_all htext]
      | _ => rfl

end Removal

/-- Whether some removals all keep a node. -/
def allKeep (removals : List Removal) (n : Node) : Bool :=
  removals.all (·.keeps n)

/-- Removals after one another are one by all their tests. -/
theorem once_removals {removals : List Removal} {steps : List Step}
    (hsteps : List.Forall₂ Removal.IsMadeBy removals steps) (doc : Document) :
    Pipeline.once steps doc = .ok (doc.prune (allKeep removals)) := by
  induction hsteps generalizing doc with
  | nil =>
      have hnothing : doc.prune (allKeep []) = doc :=
        congrArg Document.mk (Node.prune_all_nothing doc.nodes)
      rw [hnothing]
      rfl
  | @cons r step removals steps hstep _ ih =>
      rw [Pipeline.once_active hstep.active, Removal.apply_step hstep]
      refine (ih (doc.prune r.keeps)).trans ?_
      have hsees (n : Node) : allKeep removals (n.prune r.keeps) = allKeep removals n := by
        simp only [allKeep, Removal.keeps_prune r.keeps_text]
      exact congrArg (fun ns => Except.ok (Document.mk ns))
        (Node.prune_all_prune_all hsees doc.nodes)

/-- All tests of the same removals are the same test. -/
theorem all_keep_congr {removals removals' : List Removal}
    (hsame : ∀ r, r ∈ removals ↔ r ∈ removals') : allKeep removals = allKeep removals' := by
  funext n
  rw [Bool.eq_iff_iff, allKeep, allKeep, List.all_eq_true, List.all_eq_true]
  exact forall_congr' fun r => imp_congr_left (hsame r)

theorem prune_keeps_prune_keeps (r s : Removal) (doc : Document) :
    (doc.prune r.keeps).prune s.keeps = doc.prune fun n => r.keeps n && s.keeps n :=
  congrArg Document.mk (Node.prune_all_prune_all (Removal.keeps_prune r.keeps_text s) doc.nodes)

theorem exists_made {removals : List Removal} {steps : List Step}
    (hsteps : List.Forall₂ Removal.IsMadeBy removals steps) {step : Step} (hstep : step ∈ steps) :
    ∃ r : Removal, r.IsMadeBy step := by
  induction hsteps with
  | nil => cases hstep
  | cons hmade _ ih =>
      rcases List.mem_cons.mp hstep with rfl | hlater
      · exact ⟨_, hmade⟩
      · exact ih hlater

/-- Steps that remove nodes can be run in any order and any number of times: what they leave follows
from the set of removals that they make. It is the nodes for which none of these removals rejects
the node itself or anything around it, in their order and where they stood. Two such steps can
change places, and one that is done again changes nothing. -/
theorem removals_any_order {removals removals' : List Removal} {steps steps' : List Step}
    (hsteps : List.Forall₂ Removal.IsMadeBy removals steps)
    (hsteps' : List.Forall₂ Removal.IsMadeBy removals' steps')
    (hsame : ∀ r, r ∈ removals ↔ r ∈ removals') (doc : Document) :
    ∃ out, Pipeline.once steps doc = .ok out ∧ Pipeline.once steps' doc = .ok out ∧
      out.sites.map Site.outline = (doc.sites.filter fun site =>
        site.trail.all fun n => removals.all (·.keeps n)).map Site.outline ∧
      (∀ p ∈ steps, ∀ q ∈ steps, (p.apply doc).bind q.apply = (q.apply doc).bind p.apply) ∧
      ∀ p ∈ steps, (p.apply doc).bind p.apply = p.apply doc := by
  refine ⟨doc.prune (allKeep removals), once_removals hsteps doc, ?_, ?_, ?_, ?_⟩
  · rw [all_keep_congr hsame]
    exact once_removals hsteps' doc
  · have hsift : Node.pruneAll (allKeep removals) doc.nodes =
        Node.siftAll (fun _ m => allKeep removals m) [] doc.nodes :=
      Node.prune_all_eq_sift (allKeep removals) doc.nodes []
    rw [Document.sites, Document.prune, hsift, Node.outlines_sift_all doc.nodes rfl rfl]
    simp only [Node.stays_alone]
    rfl
  · intro p hp q hq
    obtain ⟨r, hr⟩ := exists_made hsteps hp
    obtain ⟨s, hs⟩ := exists_made hsteps hq
    rw [Removal.apply_step hr, Removal.apply_step hs, Except.bind, Except.bind,
      Removal.apply_step hs, Removal.apply_step hr, prune_keeps_prune_keeps,
      prune_keeps_prune_keeps]
    simp only [Bool.and_comm]
  · intro p hp
    obtain ⟨r, hr⟩ := exists_made hsteps hp
    rw [Removal.apply_step hr, Except.bind, Removal.apply_step hr, prune_keeps_prune_keeps]
    simp only [Bool.and_self]

/-- A description that is generated behind a comment, a notice, and a title in a group. -/
def described : Document :=
  ⟨[.leaf .doctype "svg", .element ⟨"svg", []⟩
    [.element ⟨"desc", []⟩ [.leaf .comment "a", .leaf .text "Created ", .leaf .cdata "with b"],
      .element ⟨"g", []⟩ [.leaf .comment "! c", .element ⟨"title", []⟩ [.leaf .text "d"]]]]⟩

theorem removals_any_order_described :
    let descriptions : Step := .ofPass "removeDesc" true removeDescriptions
    let comments : Step := .ofPass "removeComments" true removeComments
    let titles : Step := .ofPass "removeTitle" true removeTitle
    ∃ out, Pipeline.once [comments, descriptions, titles] described = .ok out ∧
      Pipeline.once [titles, descriptions, titles, comments] described = .ok out ∧
      out.sites.map (fun site => site.node.bare) = [.leaf .doctype "svg", .element ⟨"svg", []⟩ [],
        .element ⟨"g", []⟩ [], .leaf .comment "! c"] := by
  intro descriptions comments titles
  have hdescriptions : Removal.IsMadeBy (.descriptions false) descriptions :=
    ⟨rfl, rfl, fun removeAny h => by cases h; rfl⟩
  have hcomments : Removal.IsMadeBy .comments comments := ⟨rfl, rfl, fun _ h => by cases h⟩
  have htitles : Removal.IsMadeBy .title titles := ⟨rfl, rfl, fun _ h => by cases h⟩
  have hsame (r : Removal) : r ∈ [.comments, .descriptions false, .title] ↔
      r ∈ [.title, .descriptions false, .title, .comments] := by
    simp only [List.mem_cons, List.not_mem_nil, or_false]
    tauto
  obtain ⟨out, hout, hout', hsites, -⟩ := removals_any_order
    (.cons hcomments (.cons hdescriptions (.cons htitles .nil)))
    (.cons htitles (.cons hdescriptions (.cons htitles (.cons hcomments .nil)))) hsame described
  refine ⟨out, hout, hout', ?_⟩
  have hbare := congrArg (List.map Site.node) hsites
  rw [List.map_map, List.map_map] at hbare
  refine hbare.trans ?_
  decide +kernel

end NodeRemoval

end SvgPress
