import SvgPress.Proofs.Markup.Sites
import SvgPress.Proofs.Pass.Inheritance

/-!
Groups among the alternatives of a switch. Of the elements in a `<switch>` only one is shown, so
each of them is an alternative, a group no less than a single shape. Dissolving does not look at
what is around a group: one without attributes gives its children to a switch as to any other
element, and they become alternatives of their own. The alternatives stay what they are exactly
where each such group stands for one element; then they hold the same elements, to which the same
applies in them.
-/

namespace SvgPress

open Node

/-- An element in a node, with what it and the groups around it there say. -/
structure Shape where
  name : String
  /-- The values of an attribute that are met on the way to the element, transforms apart. -/
  values : String → List String
  transform : String

/-- An element as a shape. A leaf is none. -/
def Heir.shape? (heir : Heir) : Option Shape :=
  match heir.figure with
  | .element name => some {
      name := name
      values := fun key => if key = "transform" then [] else heir.values key
      transform := heir.transform }
  | .leaf .. => none

namespace Node

/-- The names of the elements in a node, itself included, in document order and without groups. -/
def names (n : Node) : List String :=
  (n.tags.map (·.name)).filter (· != "g")

/-- The elements in a node, itself included, in document order and without groups. -/
def shapes (n : Node) : List Shape :=
  (n.heirs []).filterMap Heir.shape?

/-- What each of the elements among some nodes holds. -/
def alternatives {γ : Type} (hold : Node → List γ) (ns : List Node) : List (List γ) :=
  (ns.filter isElement).map hold

/-- The children of each switch in some nodes, in document order. -/
def switches (ns : List Node) : List (List Node) :=
  ((elementsOf ns).filter (·.1.name == "switch")).map Prod.snd

end Node

namespace Document

/-- The alternatives of each switch of a document. -/
def alternatives {γ : Type} (hold : Node → List γ) (doc : Document) : List (List (List γ)) :=
  (switches doc.nodes).map (Node.alternatives hold)

/-- The switches in the root element, itself included. -/
def rootSwitches (doc : Document) : List (List Node) :=
  switches ((doc.nodes.filter isElement).take 1)

/-- The switches in the elements behind the root. -/
def laterSwitches (doc : Document) : List (List Node) :=
  switches ((doc.nodes.filter isElement).drop 1)

end Document

namespace Groups

mutual

/-- What a node is once groups without attributes are opened, the outermost ones and those right in
them. -/
def opened : Node → List Node
  | .element tag children =>
    if tag.name = "g" ∧ tag.attributes = [] then openedAll children else [.element tag children]
  | .leaf kind s => [.leaf kind s]
termination_by structural n => n

def openedAll : List Node → List Node
  | [] => []
  | n :: rest => opened n ++ openedAll rest
termination_by structural ns => ns

end

/-- Whether a node, if it is an element, stands for exactly one element when it is opened. -/
def StandsForOne (n : Node) : Prop :=
  n.isElement → (opened n).countP isElement = 1

instance (n : Node) : Decidable (StandsForOne n) :=
  inferInstanceAs (Decidable (n.isElement → (opened n).countP isElement = 1))

/-! ### What a node holds -/

/-- Whether a way to say what a node holds comes to the same result when the groups in it are
dissolved, if its tags are sound. Leaves hold nothing. -/
structure Keeps {γ : Type} (Sound : Tag → Prop) (hold : Node → List γ) : Prop where
  leaf : ∀ kind s, hold (.leaf kind s) = []
  collapse : ∀ n : Node, (∀ tag ∈ n.tags, Sound tag) → (Groups.collapse n).flatMap hold = hold n

theorem heirs_of_eq_flat_map (above : List Tag) (ns : List Node) :
    heirsOf above ns = ns.flatMap (heirs above) := by
  induction ns with
  | nil => rfl
  | cons n ns ih => rw [heirsOf, ih, List.flatMap_cons]

/-- An element that is seen with what is read along its line. -/
def elementSeen? {β γ : Type} (view : String → β → γ) (seen : Figure × β) : Option γ :=
  match seen.1 with
  | .element name => some (view name seen.2)
  | .leaf .. => none

/-- What is seen of the elements of a node stays the same. -/
theorem keeps_of_inherited {β γ : Type} {Sound : Tag → Prop} {read : List Tag → β}
    (hread : IsInherited Sound read) (view : String → β → γ) :
    Keeps Sound fun n => ((n.heirs []).map (seen read)).filterMap (elementSeen? view) where
  leaf _ _ := rfl
  collapse n hsound := by
    have hseen := seen_collapse hread n hsound (rfl : read [] = read [])
    rw [heirs_of_eq_flat_map, List.map_flatMap] at hseen
    rw [← hseen, List.filterMap_flatMap]

mutual

theorem names_eq_heirs (above : List Tag) : (n : Node) →
    n.names = ((n.heirs above).map (seen fun _ => ())).filterMap (elementSeen? fun name _ => name)
  | .leaf .. => rfl
  | .element tag children => by
      have hbelow := names_eq_heirs_all (above ++ [tag]) children
      rw [names, tags, List.map_cons, List.filter_cons, hbelow, heirs]
      by_cases hname : tag.name = "g"
      · rw [if_neg (by simp [hname]), if_pos hname]
      · rw [if_pos (by simp [hname]), if_neg hname]
        rfl

theorem names_eq_heirs_all (above : List Tag) : (ns : List Node) →
    ((tagsOf ns).map (·.name)).filter (· != "g") =
      ((heirsOf above ns).map (seen fun _ => ())).filterMap (elementSeen? fun name _ => name)
  | [] => rfl
  | n :: ns => by
      have hfirst := names_eq_heirs above n
      rw [names] at hfirst
      rw [tagsOf, List.map_append, List.filter_append, hfirst, names_eq_heirs_all above ns, heirsOf,
        List.map_append, List.filterMap_append]

end

/-- Elements other than groups stay, in their order. -/
theorem keeps_names : Keeps (fun _ => True) names := by
  have hread : IsInherited (fun _ => True) fun _ : List Tag => () :=
    ⟨fun _ _ => rfl, fun _ _ _ => rfl, fun _ _ _ _ _ => rfl⟩
  have hkeeps := keeps_of_inherited hread fun name _ => name
  rwa [← funext (names_eq_heirs [])] at hkeeps

/-- All that applies to an element along a line of tags. Transforms are read with those that come
after them. -/
def applied (line : List Tag) : (String → List String) × (List String → String) :=
  (fun name => if name = "transform" then [] else valuesAlong name line, transformAlong line)

theorem inherited_applied : IsInherited IsDistinct applied := by
  have hpair {line other : List Tag}
      (hvalues : ∀ name, name ≠ "transform" → valuesAlong name other = valuesAlong name line)
      (htransform : transformAlong other = transformAlong line) : applied other = applied line := by
    refine Prod.ext (funext fun name => ?_) htransform
    dsimp only [applied]
    split
    · rfl
    · rename_i hname
      exact hvalues name hname
  have hvalues {line other : List Tag} (h : applied other = applied line) {name : String}
      (hname : name ≠ "transform") : valuesAlong name other = valuesAlong name line := by
    have hread := congrFun (congrArg Prod.fst h) name
    simpa only [applied, if_neg hname] using hread
  constructor
  · intro line other tag h
    exact hpair (fun name hname => (inherited_values hname).snoc tag (hvalues h hname))
      (inherited_transform.snoc tag (congrArg Prod.snd h))
  · intro line tag hempty
    exact hpair (fun name hname => (inherited_values hname).empty line hempty)
      (inherited_transform.empty line hempty)
  · intro line group child hdistinct hcan
    exact hpair (fun name hname => (inherited_values hname).handed line hdistinct hcan)
      (inherited_transform.handed line hdistinct hcan)

/-- The elements stay as they are, and the same applies to them. -/
theorem keeps_shapes : Keeps IsDistinct shapes := by
  have hkeeps := keeps_of_inherited inherited_applied fun name seen =>
    (⟨name, seen.1, seen.2 []⟩ : Shape)
  have hshapes : shapes = fun n : Node => ((n.heirs []).map (seen applied)).filterMap
      (elementSeen? fun name seen => ⟨name, seen.1, seen.2 []⟩) := by
    funext n
    rw [shapes, List.filterMap_map]
    refine List.filterMap_congr fun heir _ => ?_
    obtain ⟨figure, line⟩ := heir
    cases figure with
    | leaf kind s => rfl
    | element name =>
        simp [Heir.shape?, elementSeen?, seen, applied, Heir.values, Heir.transform, transformAlong]
  rwa [← hshapes] at hkeeps

/-! ### Alternatives and switches -/

theorem switches_append (ns ms : List Node) : switches (ns ++ ms) = switches ns ++ switches ms := by
  simp [switches, elements_of_append]

theorem switches_cons (n : Node) (ns : List Node) :
    switches (n :: ns) = switches [n] ++ switches ns :=
  switches_append [n] ns

theorem switches_element (tag : Tag) (children : List Node) :
    switches [.element tag children] =
      (if tag.name = "switch" then [children] else []) ++ switches children := by
  simp only [switches, elementsOf, elements, List.append_nil, List.filter_cons, beq_iff_eq]
  split <;> rfl

mutual

theorem tags_of_switch : (n : Node) → ∀ s ∈ switches [n], tagsOf s ⊆ n.tags
  | .leaf .. => fun s hs => absurd hs List.not_mem_nil
  | .element tag children => by
      rw [switches_element, tags, List.forall_mem_append]
      refine ⟨fun s hs => ?_, fun s hs => ?_⟩
      · split at hs
        · rw [List.mem_singleton.mp hs]
          exact List.subset_cons_self _ _
        · exact absurd hs List.not_mem_nil
      · exact List.subset_cons_of_subset _ (tags_of_switch_all children s hs)

theorem tags_of_switch_all : (ns : List Node) → ∀ s ∈ switches ns, tagsOf s ⊆ tagsOf ns
  | [] => fun s hs => absurd hs List.not_mem_nil
  | n :: ns => by
      rw [switches_cons, tagsOf, List.forall_mem_append]
      exact ⟨fun s hs => List.subset_append_of_subset_left _ (tags_of_switch n s hs),
        fun s hs => List.subset_append_of_subset_right _ (tags_of_switch_all ns s hs)⟩

end

theorem switches_dissolve (tag : Tag) (children : List Node) :
    switches (dissolve tag children) = switches [.element tag children] := by
  unfold dissolve
  split
  · rfl
  · rename_i hname
    have hgroup : tag.name = "g" := by simpa using hname
    have hother : ¬ tag.name = "switch" := by
      rw [hgroup]
      decide
    split
    · rw [switches_element, if_neg hother, List.nil_append]
    · split
      · split
        · rw [switches_element tag, if_neg hother, List.nil_append, switches_element,
            switches_element, hand_down_all_name]
        · rfl
      · rfl

theorem switches_filter_elements (ns : List Node) :
    switches (ns.filter isElement) = switches ns := by
  induction ns with
  | nil => rfl
  | cons n ns ih =>
      cases n with
      | leaf kind s => exact ih
      | element tag children =>
          have helement : (element tag children).isElement := rfl
          rw [List.filter_cons, if_pos helement, switches_cons, switches_cons _ ns, ih]

theorem switches_of_document (doc : Document) :
    switches doc.nodes = doc.rootSwitches ++ doc.laterSwitches := by
  rw [← switches_filter_elements, Document.rootSwitches, Document.laterSwitches, ← switches_append,
    List.take_append_drop]

section Alternatives

variable {γ : Type} {Sound : Tag → Prop} {hold : Node → List γ} {n : Node} {ns : List Node}

theorem alternatives_append (ns ms : List Node) :
    alternatives hold (ns ++ ms) = alternatives hold ns ++ alternatives hold ms := by
  simp [alternatives]

theorem alternatives_cons (n : Node) (ns : List Node) :
    alternatives hold (n :: ns) = alternatives hold [n] ++ alternatives hold ns :=
  alternatives_append [n] ns

/-- Leaves hold nothing, so what some nodes hold is what the elements among them hold. -/
theorem flatten_alternatives (hleaf : ∀ kind s, hold (.leaf kind s) = []) (ns : List Node) :
    (alternatives hold ns).flatten = ns.flatMap hold := by
  induction ns with
  | nil => rfl
  | cons n ns ih =>
      rw [alternatives_cons, List.flatten_append, ih, List.flatMap_cons]
      cases n with
      | element tag children => exact congrArg (· ++ _) (List.append_nil _)
      | leaf kind s => rw [hleaf]; rfl

/-- A group with attributes, or an element of another name, stays one element. -/
theorem dissolve_closed {tag : Tag} (hclosed : ¬ (tag.name = "g" ∧ tag.attributes = []))
    (children : List Node) : ∃ n, dissolve tag children = [n] ∧ n.isElement := by
  unfold dissolve
  split
  · exact ⟨_, rfl, rfl⟩
  · rename_i hname
    split
    · rename_i hempty
      exact absurd ⟨by simpa using hname, List.isEmpty_iff.mp hempty⟩ hclosed
    · split
      · split
        · exact ⟨_, rfl, rfl⟩
        · exact ⟨_, rfl, rfl⟩
      · exact ⟨_, rfl, rfl⟩

mutual

theorem alternatives_collapse (hkeeps : Keeps Sound hold) : (n : Node) →
    (∀ tag ∈ n.tags, Sound tag) →
    alternatives hold (collapse n) = alternatives hold (opened n)
  | .leaf .., _ => rfl
  | .element tag children, hsound => by
      rw [opened]
      split
      · rename_i hbare
        have hopen : dissolve tag (collapseAll children) = collapseAll children := by
          simp [dissolve, hbare.1, hbare.2]
        rw [collapse, hopen,
          alternatives_collapse_all hkeeps children (List.forall_mem_cons.mp hsound).2]
      · rename_i hclosed
        have hsame := hkeeps.collapse _ hsound
        obtain ⟨n, hn, helement⟩ := dissolve_closed hclosed (collapseAll children)
        rw [collapse, hn, List.flatMap_singleton] at hsame
        have hfilter : [n].filter isElement = [n] := by rw [List.filter_singleton, helement]; rfl
        rw [collapse, hn, alternatives, hfilter, List.map_singleton, hsame]
        rfl

/-- As alternatives, groups without attributes are opened and all else stays. -/
theorem alternatives_collapse_all (hkeeps : Keeps Sound hold) : (ns : List Node) →
    (∀ tag ∈ tagsOf ns, Sound tag) →
    alternatives hold (collapseAll ns) = alternatives hold (openedAll ns)
  | [], _ => rfl
  | n :: ns, hsound => by
      rw [tagsOf, List.forall_mem_append] at hsound
      rw [collapseAll, openedAll, alternatives_append, alternatives_append,
        alternatives_collapse hkeeps n hsound.1, alternatives_collapse_all hkeeps ns hsound.2]

end

/-- Opening a group loses none of the elements that it holds. -/
theorem flatten_alternatives_opened (hkeeps : Keeps Sound hold)
    (hsound : ∀ tag ∈ n.tags, Sound tag) :
    (alternatives hold (opened n)).flatten = hold n := by
  rw [← alternatives_collapse hkeeps n hsound, flatten_alternatives hkeeps.leaf,
    hkeeps.collapse n hsound]

/-- An element in which groups were dissolved, but which stays itself. -/
theorem switches_within (hkeeps : Keeps Sound hold) (tag : Tag) {children : List Node}
    (hsound : ∀ tag ∈ tagsOf children, Sound tag)
    (hbelow : (switches (collapseAll children)).map (alternatives hold) =
      (switches children).map fun s => alternatives hold (openedAll s)) :
    (switches [.element tag (collapseAll children)]).map (alternatives hold) =
      (switches [.element tag children]).map fun s => alternatives hold (openedAll s) := by
  rw [switches_element, switches_element, List.map_append, List.map_append, hbelow]
  split
  · rw [List.map_singleton, List.map_singleton, alternatives_collapse_all hkeeps children hsound]
  · rfl

mutual

theorem switches_collapse (hkeeps : Keeps Sound hold) : (n : Node) → (∀ tag ∈ n.tags, Sound tag) →
    (switches (collapse n)).map (alternatives hold) =
      (switches [n]).map fun s => alternatives hold (openedAll s)
  | .leaf .., _ => rfl
  | .element tag children, hsound => by
      have hbelow := (List.forall_mem_cons.mp hsound).2
      rw [collapse, switches_dissolve]
      exact switches_within hkeeps tag hbelow (switches_collapse_all hkeeps children hbelow)

/-- The switches are the same, each with its alternatives opened. -/
theorem switches_collapse_all (hkeeps : Keeps Sound hold) : (ns : List Node) →
    (∀ tag ∈ tagsOf ns, Sound tag) →
    (switches (collapseAll ns)).map (alternatives hold) =
      (switches ns).map fun s => alternatives hold (openedAll s)
  | [], _ => rfl
  | n :: ns, hsound => by
      rw [tagsOf, List.forall_mem_append] at hsound
      rw [collapseAll, switches_append, switches_cons n ns, List.map_append, List.map_append,
        switches_collapse hkeeps n hsound.1, switches_collapse_all hkeeps ns hsound.2]

end

/-! ### When they stay -/

theorem alternatives_opened_of_one (hkeeps : Keeps Sound hold) (h : StandsForOne n)
    (hsound : ∀ tag ∈ n.tags, Sound tag) :
    alternatives hold (opened n) = alternatives hold [n] := by
  cases n with
  | leaf kind s => rfl
  | element tag children =>
      have hcount := h rfl
      rw [List.countP_eq_length_filter, List.length_eq_one_iff] at hcount
      obtain ⟨m, hm⟩ := hcount
      have hboth := flatten_alternatives_opened hkeeps hsound
      rw [alternatives, hm, List.map_singleton, List.flatten_singleton] at hboth
      rw [alternatives, hm, List.map_singleton, hboth]
      rfl

theorem alternatives_opened_all_of_one (hkeeps : Keeps Sound hold)
    (h : ∀ n ∈ ns, StandsForOne n) (hsound : ∀ tag ∈ tagsOf ns, Sound tag) :
    alternatives hold (openedAll ns) = alternatives hold ns := by
  induction ns with
  | nil => rfl
  | cons n ns ih =>
      rw [List.forall_mem_cons] at h
      rw [tagsOf, List.forall_mem_append] at hsound
      rw [openedAll, alternatives_append, alternatives_cons n ns,
        alternatives_opened_of_one hkeeps h.1 hsound.1, ih h.2 hsound.2]

/-- Of alternatives that all hold something, some hold nothing together only if they are none. -/
theorem eq_nil_of_nothing_held {held : List (List γ)}
    (hshown : ∀ n ∈ ns, n.isElement → hold n ≠ []) (hheld : ∀ x ∈ held, x ∈ alternatives hold ns)
    (hnothing : held.flatten = []) : held = [] := by
  refine List.eq_nil_iff_forall_not_mem.mpr fun x hx => ?_
  obtain ⟨n, hn, rfl⟩ := List.mem_map.mp (hheld x hx)
  obtain ⟨hmem, helement⟩ := List.mem_filter.mp hn
  exact hshown n hmem helement (List.flatten_eq_nil_iff.mp hnothing (hold n) hx)

/-- Where every alternative holds something, none can take the place of another. -/
theorem one_of_alternatives_opened (hkeeps : Keeps Sound hold)
    (hsound : ∀ tag ∈ tagsOf ns, Sound tag)
    (hshown : ∀ n ∈ ns, n.isElement → hold n ≠ [])
    (h : alternatives hold (openedAll ns) = alternatives hold ns) : ∀ n ∈ ns, StandsForOne n := by
  induction ns with
  | nil => exact fun n hn => absurd hn List.not_mem_nil
  | cons n ns ih =>
      rw [List.forall_mem_cons] at hshown ⊢
      rw [tagsOf, List.forall_mem_append] at hsound
      cases n with
      | leaf kind s =>
          refine ⟨fun hleaf => ?_, ih hsound.2 hshown.2 h⟩
          cases hleaf
      | element tag children =>
          have hsome := hshown.1 rfl
          have hboth := flatten_alternatives_opened hkeeps hsound.1
          have hcons : alternatives hold (.element tag children :: ns) =
              hold (element tag children) :: alternatives hold ns := rfl
          rw [openedAll, alternatives_append, hcons] at h
          cases hopened : alternatives hold (opened (.element tag children)) with
          | nil =>
              rw [hopened] at hboth
              exact absurd hboth.symm hsome
          | cons first more =>
              rw [hopened, List.cons_append, List.cons_eq_cons] at h
              obtain ⟨rfl, hrest⟩ := h
              -- what is opened holds no more than the first of its elements
              have hnothing : more.flatten = [] := by
                rw [hopened, List.flatten_cons] at hboth
                simpa using hboth
              obtain rfl : more = [] := eq_nil_of_nothing_held hshown.2
                (fun x hx => hrest ▸ List.mem_append_left _ hx) hnothing
              refine ⟨fun _ => ?_, ih hsound.2 hshown.2 hrest⟩
              have hlength := congrArg List.length hopened
              rw [alternatives, List.length_map] at hlength
              rw [List.countP_eq_length_filter, hlength]
              rfl

theorem alternatives_within (hkeeps : Keeps Sound hold) (doc : Document)
    (hsound : ∀ tag ∈ doc.tags, Sound tag) :
    (doc.mapRoot fun tag children => .element tag (collapseAll children)).alternatives hold =
      doc.rootSwitches.map (fun s => alternatives hold (openedAll s)) ++
        doc.laterSwitches.map (alternatives hold) := by
  obtain ⟨ns⟩ := doc
  induction ns with
  | nil => rfl
  | cons n ns ih =>
      have hboth := List.forall_mem_append.mp hsound
      cases n with
      | leaf kind s => exact ih hboth.2
      | element tag children =>
          have hbelow := (List.forall_mem_cons.mp hboth.1).2
          have hlater : Document.laterSwitches ⟨.element tag children :: ns⟩ = switches ns :=
            switches_filter_elements ns
          have hroot : Document.rootSwitches ⟨.element tag children :: ns⟩ =
              switches [.element tag children] := rfl
          have hwithin := switches_within hkeeps tag hbelow
            (switches_collapse_all hkeeps children hbelow)
          show (switches (.element tag (collapseAll children) :: ns)).map (alternatives hold) = _
          rw [switches_cons, List.map_append, hwithin, hlater, hroot]

end Alternatives

/-! ### The document -/

/-- Whether each alternative in the root element stands for one element. -/
def StandAlone (doc : Document) : Prop :=
  ∀ s ∈ doc.rootSwitches, ∀ n ∈ s, StandsForOne n

instance (doc : Document) : Decidable (StandAlone doc) :=
  inferInstanceAs (Decidable (∀ s ∈ doc.rootSwitches, ∀ n ∈ s, StandsForOne n))

theorem sound_of_root_switch {Sound : Tag → Prop} {doc : Document}
    (hsound : ∀ tag ∈ doc.tags, Sound tag) {s : List Node} (hs : s ∈ doc.rootSwitches) :
    ∀ tag ∈ tagsOf s, Sound tag := by
  have hmem : s ∈ switches doc.nodes := by
    rw [switches_of_document]
    exact List.mem_append_left _ hs
  exact fun tag htag => hsound tag (tags_of_switch_all doc.nodes s hmem htag)

section Document

variable {γ : Type} {Sound : Tag → Prop} {hold : Node → List γ} {doc out : Document}

theorem alternatives_of_document (hold : Node → List γ) (doc : Document) : doc.alternatives hold =
    doc.rootSwitches.map (alternatives hold) ++ doc.laterSwitches.map (alternatives hold) := by
  rw [Document.alternatives, switches_of_document, List.map_append]

theorem stay_of_stand_alone (hkeeps : Keeps Sound hold) (hsound : ∀ tag ∈ doc.tags, Sound tag)
    (hone : StandAlone doc) :
    doc.rootSwitches.map (fun s => alternatives hold (openedAll s)) ++
      doc.laterSwitches.map (alternatives hold) = doc.alternatives hold := by
  rw [alternatives_of_document]
  refine congrArg (· ++ _) (List.map_congr_left fun s hs => ?_)
  exact alternatives_opened_all_of_one hkeeps (hone s hs) (sound_of_root_switch hsound hs)

theorem stand_alone_of_stay (hkeeps : Keeps Sound hold) (hsound : ∀ tag ∈ doc.tags, Sound tag)
    (hshown : ∀ s ∈ doc.rootSwitches, ∀ n ∈ s, n.isElement → hold n ≠ [])
    (hsame : doc.rootSwitches.map (fun s => alternatives hold (openedAll s)) ++
      doc.laterSwitches.map (alternatives hold) = doc.alternatives hold) : StandAlone doc := by
  rw [alternatives_of_document, List.append_cancel_right_eq, List.map_inj_left] at hsame
  intro s hs
  exact one_of_alternatives_opened hkeeps (sound_of_root_switch hsound hs)
    (hshown s hs) (hsame s hs)

end Document

/-- Every switch stays, and so do all elements in it that are no groups; but a group without
attributes that is an alternative, or is right in such a group, is opened. So the alternatives stay
if each of them stands for one element, and where each of them holds something, only then. If no
element has two attributes of one name, the same also applies to the elements in an alternative as
before: the values of every attribute, and put together, the transforms. -/
theorem switch_alternatives_stay (params : Params) (doc : Document) :
    ∃ out, collapseGroups.apply params doc = .ok out ∧
      out.alternatives names = doc.rootSwitches.map (fun s => alternatives names (openedAll s)) ++
        doc.laterSwitches.map (alternatives names) ∧
      (StandAlone doc → out.alternatives names = doc.alternatives names) ∧
      ((∀ s ∈ doc.rootSwitches, ∀ n ∈ s, n.isElement → n.names ≠ []) →
        out.alternatives names = doc.alternatives names → StandAlone doc) ∧
      ((∀ tag ∈ doc.tags, (tag.attributes.map (·.name)).Nodup) →
        out.alternatives shapes =
          doc.rootSwitches.map (fun s => alternatives shapes (openedAll s)) ++
          doc.laterSwitches.map (alternatives shapes) ∧
        (StandAlone doc → out.alternatives shapes = doc.alternatives shapes)) := by
  have hnames := alternatives_within keeps_names doc fun _ _ => trivial
  refine ⟨_, rfl, hnames, fun hone => ?_, fun hshown hsame => ?_, fun hdistinct => ?_⟩
  · exact hnames.trans (stay_of_stand_alone keeps_names (fun _ _ => trivial) hone)
  · exact stand_alone_of_stay keeps_names (fun _ _ => trivial) hshown (hnames.symm.trans hsame)
  · have hshapes := alternatives_within keeps_shapes doc hdistinct
    exact ⟨hshapes, fun hone => hshapes.trans (stay_of_stand_alone keeps_shapes hdistinct hone)⟩

/-- A switch between two groups that differ in language, one of them in a group without
attributes. -/
def bilingual : Document :=
  ⟨[.element ⟨"svg", []⟩
    [.element ⟨"switch", []⟩
      [.element ⟨"g", []⟩
        [.element ⟨"g", [⟨"systemLanguage", "fr"⟩]⟩
          [.element ⟨"rect", []⟩ [], .element ⟨"text", []⟩ [.leaf .text "oui"]]],
        .element ⟨"g", [⟨"fill", "red"⟩]⟩ [.element ⟨"text", []⟩ [.leaf .text "yes"]]]]]⟩

theorem switch_alternatives_stay_bilingual :
    StandAlone bilingual ∧ (∀ tag ∈ bilingual.tags, (tag.attributes.map (·.name)).Nodup) ∧
      ∃ out, collapseGroups.apply [] bilingual = .ok out ∧
        out.alternatives names = [[["rect", "text"], ["text"]]] ∧
        bilingual.alternatives names = [[["rect", "text"], ["text"]]] ∧
        out.alternatives shapes = bilingual.alternatives shapes := by
  have hone : StandAlone bilingual := by decide +kernel
  have hdistinct : ∀ tag ∈ bilingual.tags, (tag.attributes.map (·.name)).Nodup := by decide +kernel
  have hbefore : bilingual.alternatives names = [[["rect", "text"], ["text"]]] := by decide +kernel
  obtain ⟨out, happly, -, hstay, -, hshapes⟩ := switch_alternatives_stay [] bilingual
  exact ⟨hone, hdistinct, out, happly, by rw [hstay hone, hbefore], hbefore,
    (hshapes hdistinct).2 hone⟩

/-- A switch between a group of two shapes and one shape. -/
def choosing : Document :=
  ⟨[.element ⟨"svg", []⟩
    [.element ⟨"switch", []⟩
      [.element ⟨"g", []⟩ [.element ⟨"rect", []⟩ [], .element ⟨"circle", []⟩ []],
        .element ⟨"path", []⟩ []]]]⟩

/-- The group is opened, and each of its shapes becomes an alternative. -/
theorem alternatives_split :
    ∃ out, collapseGroups.apply [] choosing = .ok out ∧
      out.alternatives names = [[["rect"], ["circle"], ["path"]]] ∧
      choosing.alternatives names = [[["rect", "circle"], ["path"]]] ∧
      out.alternatives names ≠ choosing.alternatives names :=
  ⟨_, rfl, by decide +kernel, by decide +kernel, by decide +kernel⟩

end Groups

end SvgPress
