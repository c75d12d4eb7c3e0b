import SvgPress.Pass.Builtin
import SvgPress.Proofs.Markup.Reread
import SvgPress.Proofs.Shrinking

/-!
Passes that take nodes away. Each of them leaves a document alone exactly if no node of it is one
that the pass looks for, and makes it smaller otherwise.
-/

namespace SvgPress

namespace Node

mutual

/-- How many nodes stand in a node, itself counted. -/
def count : Node → Nat
  | .leaf .. => 1
  | .element _ children => countAll children + 1
termination_by structural n => n

def countAll : List Node → Nat
  | [] => 0
  | n :: rest => n.count + countAll rest
termination_by structural ns => ns

end

theorem count_all_append (ns ms : List Node) : countAll (ns ++ ms) = countAll ns + countAll ms := by
  induction ns with
  | nil => simp [countAll]
  | cons n ns ih => simp [countAll, ih, Nat.add_assoc]

mutual

theorem count_map_tags (f : Tag → Tag) : (n : Node) → (n.mapTags f).count = n.count
  | .element _ children => by rw [mapTags, count, count, count_all_map_tags f children]
  | .leaf .. => rfl

theorem count_all_map_tags (f : Tag → Tag) : (ns : List Node) →
    countAll (mapTagsOf f ns) = countAll ns
  | [] => rfl
  | n :: rest => by
      rw [mapTagsOf, countAll, countAll, count_map_tags f n, count_all_map_tags f rest]

end

theorem count_all_one (n : Node) : countAll [n] = n.count := by
  rw [countAll, countAll, Nat.add_zero]

theorem count_pos (n : Node) : 0 < n.count := by
  cases n <;> simp [count]

/-- A node that goes. -/
theorem shrinks_gone (n : Node) {p : Prop} (hp : ¬ p) : Shrinks countAll [n] [] p := by
  refine .of_less hp ?_
  rw [count_all_one, countAll]
  exact n.count_pos

/-- An element whose children change. -/
theorem shrinks_children (tag : Tag) {ns ms : List Node} {p : Prop} (h : Shrinks countAll ns ms p) :
    Shrinks countAll [.element tag ns] [.element tag ms] p where
  same hp := by rw [h.same hp]
  less hp := by
    have hless := h.less hp
    rw [count_all_one, count_all_one, count, count]
    omega

end Node

open Node

/-! ### Nodes that a test rejects -/

mutual

theorem shrinks_prune (keep : Node → Bool) : (n : Node) → (kept : Bool) →
    Shrinks countAll [n] (if keep n then [n.prune keep] else [])
      (n.Everywhere (fun _ n => keep n) kept)
  | .leaf kind s, kept => by
      split
      · rename_i h
        exact .refl _ h
      · rename_i h
        exact shrinks_gone _ h
  | .element tag children, kept => by
      split
      · rename_i h
        rw [prune]
        refine (shrinks_children tag
          (shrinks_prune_all keep children (kept || tag.preservesSpace))).congr ?_
        exact ⟨fun hall => ⟨h, hall⟩, fun hall => hall.2⟩
      · rename_i h
        exact shrinks_gone _ fun hall => h hall.1

theorem shrinks_prune_all (keep : Node → Bool) : (ns : List Node) → (kept : Bool) →
    Shrinks countAll ns (pruneAll keep ns) (EverywhereIn (fun _ n => keep n) kept ns)
  | [], _ => .refl _ trivial
  | n :: ns, kept => by
      have hsame : pruneAll keep (n :: ns) =
          (if keep n then [n.prune keep] else []) ++ pruneAll keep ns := by
        rw [pruneAll]
        split <;> rfl
      rw [hsame]
      exact (shrinks_prune keep n kept).append count_all_append (shrinks_prune_all keep ns kept)

end

namespace Definitions

/-- Whether everything in an element of definitions can be referred to. -/
def IsTidy (_ : Bool) : Node → Prop
  | .leaf .. => True
  | .element tag children => tag.name = "defs" → ∀ n ∈ children, isReferable n

mutual

theorem shrinks_tidy (inDefinitions : Bool) : (n : Node) → (kept : Bool) →
    Shrinks countAll [n] (if inDefinitions && !isReferable n then [] else [tidy n])
      ((inDefinitions → isReferable n) ∧ n.Everywhere IsTidy kept)
  | .leaf kind s, kept => by
      split
      · rename_i h
        exact shrinks_gone _ fun hall => by simp_all
      · rename_i h
        refine .refl _ ⟨?_, trivial⟩
        simpa using h
  | .element tag children, kept => by
      split
      · rename_i h
        exact shrinks_gone _ fun hall => by simp_all
      · rename_i h
        have hall := shrinks_tidy_all (tag.name == "defs") children (kept || tag.preservesSpace)
        refine (shrinks_children tag hall).congr ?_
        have hreferable : inDefinitions → isReferable (.element tag children) := by
          simpa using h
        simp only [Everywhere, IsTidy, beq_iff_eq]
        exact ⟨fun hbelow => ⟨hreferable, hbelow⟩, fun hbelow => hbelow.2⟩

theorem shrinks_tidy_all (inDefinitions : Bool) : (ns : List Node) → (kept : Bool) →
    Shrinks countAll ns (tidyAll inDefinitions ns)
      ((inDefinitions → ∀ n ∈ ns, isReferable n) ∧ EverywhereIn IsTidy kept ns)
  | [], _ => .refl _ ⟨fun _ => by simp, trivial⟩
  | n :: ns, kept => by
      have hboth := (shrinks_tidy inDefinitions n kept).append count_all_append
        (shrinks_tidy_all inDefinitions ns kept)
      have hsame : tidyAll inDefinitions (n :: ns) =
          (if inDefinitions && !isReferable n then [] else [tidy n]) ++
            tidyAll inDefinitions ns := by
        rw [tidyAll]
        split <;> rfl
      rw [hsame]
      refine hboth.congr ?_
      simp only [List.forall_mem_cons, EverywhereIn]
      constructor
      · rintro ⟨⟨hn, hbelow⟩, hns, hrest⟩
        exact ⟨fun h => ⟨hn h, hns h⟩, hbelow, hrest⟩
      · rintro ⟨hall, hbelow, hrest⟩
        exact ⟨⟨fun h => (hall h).1, hbelow⟩, fun h => (hall h).2, hrest⟩

end

end Definitions

namespace Groups

/-- Whether an element is no group that can be dissolved. -/
def IsFixed (_ : Bool) : Node → Prop
  | .leaf .. => True
  | .element tag children => tag.name = "g" → tag.attributes ≠ [] ∧
      ∀ child below, children = [.element child below] → canHandDown tag.attributes child = false

theorem shrinks_dissolve (tag : Tag) (children : List Node) (kept : Bool) :
    Shrinks countAll [.element tag children] (dissolve tag children)
      (IsFixed kept (.element tag children)) := by
  by_cases hname : tag.name = "g"
  · by_cases hempty : tag.attributes = []
    · have hsame : dissolve tag children = children := by simp [dissolve, hname, hempty]
      rw [hsame]
      refine .of_less (fun h => (h hname).1 hempty) ?_
      rw [count_all_one, count]
      exact Nat.lt_succ_self _
    · by_cases hsingle : ∃ child below, children = [.element child below]
      · obtain ⟨child, below, rfl⟩ := hsingle
        cases hcan : canHandDown tag.attributes child with
        | true =>
            have hsame : dissolve tag [.element child below] =
                [.element (tag.attributes.foldl handDown child) below] := by
              simp [dissolve, hname, hempty, hcan]
            rw [hsame]
            refine .of_less (fun h => ?_) ?_
            · rw [(h hname).2 child below rfl] at hcan
              cases hcan
            · simp only [countAll, count]
              omega
        | false =>
            have hsame : dissolve tag [.element child below] =
                [.element tag [.element child below]] := by
              simp [dissolve, hname, hempty, hcan]
            rw [hsame]
            refine .refl _ fun _ => ⟨hempty, fun child' below' heq => ?_⟩
            cases heq
            exact hcan
      · have hsame : dissolve tag children = [.element tag children] := by
          simp only [dissolve, hname, bne_self_eq_false, Bool.false_eq_true, if_false,
            List.isEmpty_iff, hempty]
          split
          · exact absurd ⟨_, _, rfl⟩ hsingle
          · rfl
        rw [hsame]
        exact .refl _ fun _ =>
          ⟨hempty, fun child below heq => absurd ⟨child, below, heq⟩ hsingle⟩
  · have hsame : dissolve tag children = [.element tag children] := by simp [dissolve, hname]
    rw [hsame]
    exact .refl _ fun h => absurd h hname

mutual

theorem shrinks_collapse : (n : Node) → (kept : Bool) →
    Shrinks countAll [n] (collapse n) (n.Everywhere IsFixed kept)
  | .leaf .., _ => .refl _ trivial
  | .element tag children, kept => by
      have hbelow :=
        shrinks_children tag (shrinks_collapse_all children (kept || tag.preservesSpace))
      have hhere := shrinks_dissolve tag (collapseAll children) kept
      rw [collapse]
      refine (hbelow.trans hhere).congr ⟨fun h => ?_, fun h => ?_⟩
      · obtain ⟨hchildren, hfixed⟩ := h
        rw [(shrinks_collapse_all children _).same hchildren] at hfixed
        exact ⟨hfixed, hchildren⟩
      · obtain ⟨hfixed, hchildren⟩ := h
        rw [(shrinks_collapse_all children _).same hchildren]
        exact ⟨hchildren, hfixed⟩

theorem shrinks_collapse_all : (ns : List Node) → (kept : Bool) →
    Shrinks countAll ns (collapseAll ns) (EverywhereIn IsFixed kept ns)
  | [], _ => .refl _ trivial
  | n :: ns, kept =>
      (shrinks_collapse n kept).append count_all_append (shrinks_collapse_all ns kept)

end

end Groups

namespace EmptyContainers

/-- Whether an element is no container without content. -/
def IsUsed (_ : Bool) : Node → Prop
  | .leaf .. => True
  | .element tag children => isUseless tag children = false

mutual

theorem shrinks_shrink : (n : Node) → (kept : Bool) →
    Shrinks countAll [n] (shrink n) (n.Everywhere IsUsed kept)
  | .leaf .., _ => .refl _ trivial
  | .element tag children, kept => by
      have hall := shrinks_shrink_all children (kept || tag.preservesSpace)
      have hhere : Shrinks countAll [.element tag (shrinkAll children)]
          (if isUseless tag (shrinkAll children) then [] else [.element tag (shrinkAll children)])
          (isUseless tag (shrinkAll children) = false) := by
        split
        · rename_i h
          exact shrinks_gone _ (by simp [h])
        · rename_i h
          exact .refl _ (by simpa using h)
      rw [shrink]
      refine ((shrinks_children tag hall).trans hhere).congr ⟨fun h => ?_, fun h => ?_⟩
      · obtain ⟨hchildren, hused⟩ := h
        rw [hall.same hchildren] at hused
        exact ⟨hused, hchildren⟩
      · obtain ⟨hused, hchildren⟩ := h
        rw [hall.same hchildren]
        exact ⟨hchildren, hused⟩

theorem shrinks_shrink_all : (ns : List Node) → (kept : Bool) →
    Shrinks countAll ns (shrinkAll ns) (EverywhereIn IsUsed kept ns)
  | [], _ => .refl _ trivial
  | n :: ns, kept => (shrinks_shrink n kept).append count_all_append (shrinks_shrink_all ns kept)

end

end EmptyContainers

end SvgPress
