import SvgPress.Proofs.Markup.NormalForm
import SvgPress.Proofs.Markup.Nesting

/-!
A document against the events it was assembled from. Both are flattened into marks of the same
kinds: tags that open and close, and leaves. White space is settled late, when an element closes, so
the marks of the events are those of the tree before anything in it was settled; that tree is
followed through the reading beside the document under way.
-/

namespace SvgPress

/-- What stands in a flat document: where elements begin and end, and the leaves. -/
inductive Mark where
  | opening (tag : Tag)
  | closing (name : String)
  | leaf (kind : LeafKind) (content : String)
  deriving DecidableEq, Repr

namespace Mark

def isText : Mark → Bool
  | .leaf .text _ => true
  | _ => false

/-- A mark in front of others. A text is joined to the text that they begin with. -/
def onto : Mark → List Mark → List Mark
  | .leaf .text s, .leaf .text t :: more => .leaf .text (s ++ t) :: more
  | mark, more => mark :: more

/-- How many elements are open after a mark. -/
def depthAfter (depth : Nat) : Mark → Nat
  | .opening _ => depth + 1
  | .closing _ => depth - 1
  | .leaf .. => depth

end Mark

/-- Texts that stand side by side made one. -/
def joinMarks : List Mark → List Mark
  | [] => []
  | mark :: rest => mark.onto (joinMarks rest)

/-- Without the texts that no element contains. `depth` is the number of elements that are open
before the marks. -/
def withinElements (depth : Nat) : List Mark → List Mark
  | [] => []
  | mark :: rest =>
    let behind := withinElements (mark.depthAfter depth) rest
    if depth = 0 ∧ mark.isText then behind else mark :: behind

namespace Node

mutual

/-- A node without its nesting. -/
def marks : Node → List Mark
  | .element tag children => .opening tag :: (marksOf children ++ [.closing tag.name])
  | .leaf kind content => [.leaf kind content]
termination_by structural n => n

def marksOf : List Node → List Mark
  | [] => []
  | n :: rest => n.marks ++ marksOf rest
termination_by structural ns => ns

end

mutual

/-- The white space of a node and of all elements in it settled, from the inside out. `kept` tells
whether an element outside asks for its white space to be kept. -/
def settled (kept : Bool) : Node → Node
  | .element tag children =>
    .element tag (settle tag kept (settledAll (tag.preservesSpace || kept) children))
  | .leaf kind content => .leaf kind content
termination_by structural n => n

def settledAll (kept : Bool) : List Node → List Node
  | [] => []
  | n :: rest => n.settled kept :: settledAll kept rest
termination_by structural ns => ns

end

end Node

namespace Event

/-- What an event adds to a flat document: an element without content opens and closes, a text and a
reference are character data, and a doctype is trimmed. -/
def marks : Event → List Mark
  | .start name attributes => [.opening ⟨name, attributes.toOption.getD []⟩]
  | .empty name attributes => [.opening ⟨name, attributes.toOption.getD []⟩, .closing name]
  | .close name => [.closing name]
  | .reference name => [.leaf .text (Entity.decodeReference name.toList)]
  | .leaf .text s => [.leaf .text (Entity.decodeValue s.toList)]
  | .leaf .doctype s => [.leaf .doctype (Text.trim s)]
  | .leaf kind s => [.leaf kind s]

end Event

namespace Mark

theorem is_text_iff {p : Mark} : p.isText ↔ ∃ s, p = .leaf .text s := by
  cases p with
  | opening | closing => simp [isText]
  | leaf kind s => cases kind <;> simp [isText]

/-- Only two texts are joined. -/
theorem onto_cons {p q : Mark} (h : ¬ (p.isText ∧ q.isText)) (qs : List Mark) :
    p.onto (q :: qs) = p :: q :: qs := by
  unfold onto
  split
  · rename_i heq
    obtain ⟨rfl, -⟩ := List.cons_eq_cons.mp heq
    exact absurd ⟨rfl, rfl⟩ h
  · rfl

theorem onto_nil (p : Mark) : p.onto [] = [p] := by
  unfold onto
  split
  · rename_i heq
    cases heq
  · rfl

/-- What stands behind the first mark has no say. -/
theorem onto_append (p : Mark) {ps : List Mark} (h : ps ≠ []) (qs : List Mark) :
    p.onto (ps ++ qs) = p.onto ps ++ qs := by
  cases ps with
  | nil => exact absurd rfl h
  | cons q ps =>
      by_cases hboth : p.isText ∧ q.isText
      · obtain ⟨s, rfl⟩ := is_text_iff.mp hboth.1
        obtain ⟨t, rfl⟩ := is_text_iff.mp hboth.2
        rfl
      · rw [List.cons_append, onto_cons hboth, onto_cons hboth, List.cons_append, List.cons_append]

/-- Joined or not, a mark shows in front whether it is a text. -/
theorem onto_head (p : Mark) (ps : List Mark) :
    ∃ first more, p.onto ps = first :: more ∧ first.isText = p.isText := by
  unfold onto
  split
  · exact ⟨_, _, rfl, rfl⟩
  · exact ⟨_, _, rfl, rfl⟩

theorem onto_onto (s t : String) (ps : List Mark) :
    onto (.leaf .text s) (onto (.leaf .text t) ps) = onto (.leaf .text (s ++ t)) ps := by
  cases ps with
  | nil => rfl
  | cons q ps =>
      by_cases hq : q.isText
      · obtain ⟨u, rfl⟩ := is_text_iff.mp hq
        simp [onto, String.append_assoc]
      · rw [onto_cons fun both => hq both.2, onto_cons fun both => hq both.2]
        rfl

end Mark

theorem join_marks_eq_nil_iff {ps : List Mark} : joinMarks ps = [] ↔ ps = [] := by
  cases ps with
  | nil => simp [joinMarks]
  | cons p ps =>
      obtain ⟨first, more, hfirst, -⟩ := p.onto_head (joinMarks ps)
      simp [joinMarks, hfirst]

/-- One mark more is joined to the last one before it. -/
theorem join_marks_concat {ps front : List Mark} {p : Mark} (h : joinMarks ps = front ++ [p])
    (q : Mark) : joinMarks (ps ++ [q]) = front ++ p.onto [q] := by
  induction ps generalizing front p with
  | nil => simp [joinMarks] at h
  | cons x xs ih =>
      rw [joinMarks] at h
      rw [List.cons_append, joinMarks]
      rcases List.eq_nil_or_concat (joinMarks xs) with hxs | ⟨between, y, hxs⟩
      · rw [hxs, Mark.onto_nil, List.singleton_eq_append_iff] at h
        obtain ⟨rfl, hx⟩ | ⟨-, hnil⟩ := h
        · obtain rfl : p = x := by simpa using hx
          rw [join_marks_eq_nil_iff.mp hxs]
          simp [joinMarks, Mark.onto_nil]
        · simp at hnil
      · rw [List.concat_eq_append] at hxs
        rw [ih hxs]
        by_cases hbetween : between = []
        · subst hbetween
          rw [hxs, List.nil_append] at h
          rw [List.nil_append]
          by_cases hboth : x.isText ∧ y.isText
          · obtain ⟨s, rfl⟩ := Mark.is_text_iff.mp hboth.1
            obtain ⟨t, rfl⟩ := Mark.is_text_iff.mp hboth.2
            have hjoined : [Mark.leaf .text (s ++ t)] = front ++ [p] := h
            rw [List.singleton_eq_append_iff] at hjoined
            obtain ⟨rfl, hp⟩ | ⟨-, hnil⟩ := hjoined
            · obtain rfl : p = .leaf .text (s ++ t) := by simpa using hp
              exact Mark.onto_onto s t [q]
            · simp at hnil
          · rw [Mark.onto_cons hboth] at h
            obtain ⟨rfl, rfl⟩ : front = [x] ∧ p = y := by
              have hpair : [x] ++ [y] = front ++ [p] := h
              obtain ⟨hfront, hlast⟩ := List.append_inj' hpair rfl
              exact ⟨hfront.symm, by simpa using hlast.symm⟩
            obtain ⟨first, more, hfirst, htext⟩ := p.onto_head [q]
            rw [hfirst, Mark.onto_cons (by rwa [htext])]
            rfl
        · rw [hxs, x.onto_append hbetween] at h
          obtain ⟨rfl, hlast⟩ := List.append_inj' h rfl
          obtain rfl : y = p := by simpa using hlast
          exact x.onto_append hbetween _

/-- A mark that is no text is never joined. -/
theorem join_marks_concat_other (ps : List Mark) {q : Mark} (hq : ¬ q.isText) :
    joinMarks (ps ++ [q]) = joinMarks ps ++ [q] := by
  rcases List.eq_nil_or_concat (joinMarks ps) with hps | ⟨front, p, hps⟩
  · rw [hps, join_marks_eq_nil_iff.mp hps]
    simp [joinMarks, Mark.onto_nil]
  · rw [List.concat_eq_append] at hps
    rw [join_marks_concat hps, hps, Mark.onto_cons fun both => hq both.2]
    simp

/-- Parts that are no texts are never joined. -/
theorem join_marks_append_other (ps : List Mark) {qs : List Mark} (h : ∀ q ∈ qs, ¬ q.isText) :
    joinMarks (ps ++ qs) = joinMarks ps ++ qs := by
  induction qs generalizing ps with
  | nil => simp
  | cons q qs ih =>
      obtain ⟨hq, hqs⟩ := List.forall_mem_cons.mp h
      have hsplit : ps ++ q :: qs = (ps ++ [q]) ++ qs := by simp
      rw [hsplit, ih (ps ++ [q]) hqs, join_marks_concat_other ps hq, List.append_assoc]
      rfl

theorem within_elements_of_no_text {qs : List Mark} (h : ∀ q ∈ qs, ¬ q.isText) (depth : Nat) :
    withinElements depth qs = qs := by
  induction qs generalizing depth with
  | nil => rfl
  | cons q qs ih =>
      obtain ⟨hq, hqs⟩ := List.forall_mem_cons.mp h
      rw [withinElements, ih hqs]
      exact if_neg fun houtside => hq houtside.2

theorem within_elements_append (depth : Nat) (ps qs : List Mark) :
    withinElements depth (ps ++ qs) =
      withinElements depth ps ++ withinElements (ps.foldl Mark.depthAfter depth) qs := by
  induction ps generalizing depth with
  | nil => rfl
  | cons p ps ih =>
      simp only [List.cons_append, withinElements, ih, List.foldl_cons]
      split <;> rfl

namespace Node

theorem marks_of_append (ms ns : List Node) : marksOf (ms ++ ns) = marksOf ms ++ marksOf ns := by
  induction ms with
  | nil => rfl
  | cons m ms ih => rw [List.cons_append, marksOf, marksOf, ih, List.append_assoc]

theorem marks_of_singleton (n : Node) : marksOf [n] = n.marks := by
  rw [marksOf, marksOf, List.append_nil]

theorem settled_all_eq_map (kept : Bool) (ns : List Node) :
    settledAll kept ns = ns.map (settled kept) := by
  induction ns with
  | nil => rfl
  | cons n ns ih => rw [settledAll, List.map_cons, ih]

theorem settled_all_reverse (kept : Bool) (ns : List Node) :
    (settledAll kept ns).reverse = settledAll kept ns.reverse := by
  rw [settled_all_eq_map, settled_all_eq_map, List.map_reverse]

end Node

namespace Assembly

/-- The open elements, with the white space settled in the elements that are closed. -/
def settleOpened : List OpenElement → List OpenElement
  | [] => []
  | inner :: outer =>
    ⟨inner.tag, Node.settledAll ((inner :: outer).any (·.tag.preservesSpace)) inner.latest⟩ ::
      settleOpened outer

/-- The document under way whose closed elements were not settled yet, settled. -/
def settleClosed (raw : Assembly) : Assembly :=
  ⟨settleOpened raw.opened, Node.settledAll false raw.top⟩

/-- The open elements as marks, the innermost last. -/
def shownOpened : List OpenElement → List Mark
  | [] => []
  | inner :: outer =>
    shownOpened outer ++ .opening inner.tag :: Node.marksOf inner.latest.reverse

/-- A document under way as marks. -/
def shown (a : Assembly) : List Mark :=
  Node.marksOf a.top.reverse ++ shownOpened a.opened

theorem settle_opened_tags (opened : List OpenElement) :
    (settleOpened opened).map (·.tag) = opened.map (·.tag) := by
  induction opened with
  | nil => rfl
  | cons inner outer ih => rw [settleOpened, List.map_cons, List.map_cons, ih]

theorem preserves_settle_opened (opened : List OpenElement) :
    (settleOpened opened).any (·.tag.preservesSpace) = opened.any (·.tag.preservesSpace) := by
  have hmap (elements : List OpenElement) : elements.any (·.tag.preservesSpace) =
      (elements.map (·.tag)).any Tag.preservesSpace := by
    rw [List.any_map]
    rfl
  rw [hmap, hmap, settle_opened_tags]

/-- Where an element closes, its children are settled as the tree has it. -/
theorem settled_settle_opened (inner : OpenElement) (outer : List OpenElement) (kept : Bool) :
    settled ⟨inner.tag, Node.settledAll kept inner.latest⟩ (settleOpened outer) =
      settle inner.tag (outer.any (·.tag.preservesSpace))
        (Node.settledAll kept inner.latest.reverse) := by
  rw [settled, settle, preserves_settle_opened, Node.settled_all_reverse]

theorem settle_closed_add (raw : Assembly) (n : Node) :
    (raw.add n).settleClosed =
      raw.settleClosed.add (n.settled (raw.opened.any (·.tag.preservesSpace))) := by
  obtain ⟨opened, top⟩ := raw
  cases opened with
  | nil => rfl
  | cons inner outer => rfl

theorem settled_all_join_text (kept : Bool) (s : String) (latest : List Node) :
    Node.settledAll kept (joinText s latest) = joinText s (Node.settledAll kept latest) := by
  cases latest with
  | nil => rfl
  | cons n earlier =>
      cases n with
      | element tag children => rfl
      | leaf kind t => cases kind <;> rfl

theorem settle_closed_add_text (raw : Assembly) (s : String) :
    (raw.addText s).settleClosed = raw.settleClosed.addText s := by
  obtain ⟨opened, top⟩ := raw
  cases opened with
  | nil => rfl
  | cons inner outer =>
      simp only [addText, settleClosed, settleOpened, settled_all_join_text, List.any_cons]

theorem shown_add (a : Assembly) (n : Node) : (a.add n).shown = a.shown ++ n.marks := by
  obtain ⟨opened, top⟩ := a
  cases opened with
  | nil => simp [add, shown, shownOpened, Node.marks_of_append, Node.marks_of_singleton]
  | cons inner outer =>
      simp [add, shown, shownOpened, Node.marks_of_append, Node.marks_of_singleton]

/-- A finished element stands where it was under way, closed. -/
theorem shown_close (inner : OpenElement) (outer : List OpenElement) (top : List Node) :
    ((Assembly.mk outer top).add (.element inner.tag inner.latest.reverse)).shown =
      (Assembly.mk (inner :: outer) top).shown ++ [.closing inner.tag.name] := by
  rw [shown_add]
  simp [shown, shownOpened, Node.marks]

/-- A text is joined to what was read last. -/
theorem shown_add_text (inner : OpenElement) (outer : List OpenElement) (top : List Node)
    (s : String) :
    ∃ front p, (Assembly.mk (inner :: outer) top).shown = front ++ [p] ∧
      ((Assembly.mk (inner :: outer) top).addText s).shown = front ++ p.onto [.leaf .text s] := by
  obtain ⟨tag, latest⟩ := inner
  cases latest with
  | nil =>
      refine ⟨Node.marksOf top.reverse ++ shownOpened outer, .opening tag, ?_, ?_⟩
      · simp [shown, shownOpened, Node.marksOf]
      · simp [addText, joinText, shown, shownOpened, Node.marksOf, Node.marks, Mark.onto]
  | cons n earlier =>
      let front := Node.marksOf top.reverse ++
        (shownOpened outer ++ .opening tag :: Node.marksOf earlier.reverse)
      cases n with
      | element child children =>
          refine ⟨front ++ .opening child :: Node.marksOf children, .closing child.name, ?_, ?_⟩
          · simp [front, shown, shownOpened, Node.marks_of_append, Node.marksOf, Node.marks]
          · simp [front, addText, joinText, shown, shownOpened, Node.marks_of_append,
              Node.marksOf, Node.marks, Mark.onto]
      | leaf kind t =>
          refine ⟨front, .leaf kind t, ?_, ?_⟩
          · simp [front, shown, shownOpened, Node.marks_of_append, Node.marksOf, Node.marks]
          · cases kind <;> simp [front, addText, joinText, shown, shownOpened,
              Node.marks_of_append, Node.marksOf, Node.marks, Mark.onto]

/-- What a document under way shows of the marks that were read: texts inside elements joined. -/
def Shows (raw : Assembly) (seen : List Mark) : Prop :=
  raw.shown = joinMarks seen

theorem Shows.text {raw : Assembly} {seen : List Mark} (h : raw.Shows seen) (s : String) :
    (raw.addText s).Shows (seen ++ withinElements raw.opened.length [.leaf .text s]) := by
  obtain ⟨opened, top⟩ := raw
  cases opened with
  | nil =>
      have houtside : withinElements 0 [.leaf .text s] = [] := rfl
      rw [List.length_nil, houtside, List.append_nil]
      exact h
  | cons inner outer =>
      obtain ⟨front, p, hbefore, hafter⟩ := shown_add_text inner outer top s
      have hinside : withinElements (inner :: outer).length [.leaf .text s] = [.leaf .text s] := by
        rw [withinElements]
        exact if_neg fun houtside => by cases houtside.1
      rw [Shows, hinside, hafter, join_marks_concat (h.symm.trans hbefore)]

theorem Shows.other {raw next : Assembly} {seen : List Mark} (h : raw.Shows seen) {qs : List Mark}
    (hqs : ∀ q ∈ qs, ¬ q.isText) (hnext : next.shown = raw.shown ++ qs) (depth : Nat) :
    next.Shows (seen ++ withinElements depth qs) := by
  rw [Shows, within_elements_of_no_text hqs, hnext, h, join_marks_append_other seen hqs]

theorem opened_add_text (a : Assembly) (s : String) :
    (a.addText s).opened.length = a.opened.length := by
  unfold addText
  split
  · rfl
  · rename_i hopened
    simp [hopened]

theorem opened_add (a : Assembly) (n : Node) : (a.add n).opened.length = a.opened.length := by
  unfold add
  split
  · rename_i hopened
    simp [hopened]
  · rename_i hopened
    simp [hopened]

/-- Whether `next` is a document under way, settled, that shows what `raw` does and the marks
behind. -/
def Continues (raw : Assembly) (seen marks : List Mark) (next : Assembly) : Prop :=
  ∃ more : Assembly, next = more.settleClosed ∧
    more.Shows (seen ++ withinElements raw.opened.length marks) ∧
    more.opened.length = marks.foldl Mark.depthAfter raw.opened.length

section Step

variable {raw next : Assembly} {seen : List Mark}

theorem Shows.continues_text (h : raw.Shows seen) (s : String) :
    raw.Continues seen [.leaf .text s] (raw.settleClosed.addText s) :=
  ⟨raw.addText s, (settle_closed_add_text raw s).symm, h.text s, opened_add_text raw s⟩

theorem Shows.continues_leaf (h : raw.Shows seen) {kind : LeafKind} (htext : kind ≠ .text)
    (s : String) : raw.Continues seen [.leaf kind s] (raw.settleClosed.add (.leaf kind s)) := by
  refine ⟨raw.add (.leaf kind s), ?_, h.other ?_ (shown_add _ _) _, opened_add _ _⟩
  · rw [settle_closed_add]
    rfl
  · intro q hq
    obtain rfl : q = .leaf kind s := by simpa [Node.marks] using hq
    rw [Mark.is_text_iff]
    rintro ⟨t, heq⟩
    cases heq
    exact htext rfl

theorem Shows.continues_close (h : raw.Shows seen) {name : String}
    (hstep : raw.settleClosed.step (.close name) = .ok next) :
    raw.Continues seen [.closing name] next := by
  obtain ⟨opened, top⟩ := raw
  cases opened with
  | nil => cases hstep
  | cons inner outer =>
      rw [step] at hstep
      simp only [settleClosed, settleOpened] at hstep
      split at hstep <;> cases hstep
      rename_i hname
      refine ⟨(Assembly.mk outer top).add (.element inner.tag inner.latest.reverse), ?_, ?_, ?_⟩
      · rw [settle_closed_add, Node.settled, ← settled_settle_opened]
        rfl
      · refine h.other (by simp [Mark.isText]) ?_ _
        rw [shown_close, hname]
      · rw [opened_add]
        rfl

/-- One event, seen before the white space of closed elements is settled. -/
theorem raw_step {event : Event} (h : raw.Shows seen)
    (hstep : raw.settleClosed.step event = .ok next) : raw.Continues seen event.marks next := by
  cases event with
  | start name attributes =>
      cases attributes <;> cases hstep
      rename_i attributes
      refine ⟨{ raw with opened := ⟨⟨name, attributes⟩, []⟩ :: raw.opened }, rfl, ?_, rfl⟩
      refine h.other (by simp [Event.marks, Mark.isText]) ?_ _
      simp [shown, shownOpened, Node.marksOf, Event.marks, Except.toOption]
  | empty name attributes =>
      cases attributes <;> cases hstep
      rename_i attributes
      refine ⟨raw.add (.element ⟨name, attributes⟩ []), ?_, ?_, ?_⟩
      · rw [settle_closed_add]
        simp [Node.settled, Node.settledAll, settle, trimTexts]
      · refine h.other (by simp [Event.marks, Mark.isText]) ?_ _
        rw [shown_add]
        rfl
      · rw [opened_add]
        rfl
  | close name => exact h.continues_close hstep
  | reference name =>
      cases hstep
      exact h.continues_text _
  | leaf kind s =>
      cases kind with
      | text =>
          cases hstep
          exact h.continues_text _
      | cdata | comment | declaration | instruction | doctype =>
          cases hstep
          exact h.continues_leaf (by decide) _

end Step

/-- A run, seen before the white space of closed elements is settled. -/
theorem raw_run {raw last : Assembly} {seen : List Mark} {events : List Event} (h : raw.Shows seen)
    (hrun : raw.settleClosed.run events = .ok last) :
    ∃ more : Assembly, last = more.settleClosed ∧
      more.Shows (seen ++ withinElements raw.opened.length (events.flatMap Event.marks)) := by
  induction events generalizing raw seen with
  | nil =>
      cases hrun
      refine ⟨raw, rfl, ?_⟩
      rw [List.flatMap_nil, withinElements, List.append_nil]
      exact h
  | cons event rest ih =>
      rw [run] at hrun
      split at hrun
      · rename_i next hstep
        obtain ⟨between, rfl, hshows, hdepth⟩ := raw_step h hstep
        obtain ⟨more, hlast, hmore⟩ := ih hshows hrun
        refine ⟨more, hlast, ?_⟩
        rw [List.flatMap_cons, within_elements_append, ← List.append_assoc, ← hdepth]
        exact hmore
      · cases hrun

end Assembly

/-! ### Settling leaves everything but texts as it is -/

namespace Node

theorem other_marks_trim_texts (ns : List Node) :
    (marksOf (trimTexts ns)).filter (!·.isText) = (marksOf ns).filter (!·.isText) := by
  induction ns with
  | nil => rfl
  | cons n ns ih =>
      rcases n.text_or_other with ⟨s, rfl⟩ | hother
      · have hdrop (t : String) (ms : List Node) :
            (marksOf (.leaf .text t :: ms)).filter (!·.isText) =
              (marksOf ms).filter (!·.isText) := rfl
        rw [trim_texts_text, hdrop]
        split
        · exact ih
        · rw [hdrop, ih]
      · rw [trim_texts_other hother, marksOf, marksOf, List.filter_append, List.filter_append, ih]

theorem other_marks_settle (tag : Tag) (kept : Bool) (ns : List Node) :
    (marksOf (settle tag kept ns)).filter (!·.isText) = (marksOf ns).filter (!·.isText) := by
  unfold settle
  split
  · rfl
  · exact other_marks_trim_texts ns

mutual

theorem other_marks_settled : (n : Node) → (kept : Bool) →
    (n.settled kept).marks.filter (!·.isText) = n.marks.filter (!·.isText)
  | .leaf .., _ => rfl
  | .element tag children, kept => by
      have hchildren := other_marks_settled_all children (tag.preservesSpace || kept)
      have hopening : Mark.isText (.opening tag) = false := rfl
      rw [settled, marks, marks, List.filter_cons, List.filter_cons, List.filter_append,
        List.filter_append, other_marks_settle, hchildren]

theorem other_marks_settled_all : (ns : List Node) → (kept : Bool) →
    (marksOf (settledAll kept ns)).filter (!·.isText) = (marksOf ns).filter (!·.isText)
  | [], _ => rfl
  | n :: ns, kept => by
      rw [settledAll, marksOf, marksOf, List.filter_append, List.filter_append,
        other_marks_settled n kept, other_marks_settled_all ns kept]

end

end Node

theorem other_marks_join (ps : List Mark) :
    (joinMarks ps).filter (!·.isText) = ps.filter (!·.isText) := by
  have honto (p : Mark) (qs : List Mark) :
      (p.onto qs).filter (!·.isText) = (p :: qs).filter (!·.isText) := by
    unfold Mark.onto
    split <;> rfl
  induction ps with
  | nil => rfl
  | cons p ps ih => rw [joinMarks, honto, List.filter_cons, List.filter_cons, ih]

theorem other_marks_within (depth : Nat) (ps : List Mark) :
    (withinElements depth ps).filter (!·.isText) = ps.filter (!·.isText) := by
  induction ps generalizing depth with
  | nil => rfl
  | cons p ps ih =>
      rw [withinElements]
      split
      · rename_i houtside
        rw [ih, List.filter_cons_of_neg (by simp [houtside.2])]
      · rw [List.filter_cons, List.filter_cons, ih]

namespace Document

/-- What document events make: the texts inside elements are joined, and then settled from the
inside out. Everything else is in its place. -/
theorem marks_of_reading {reading : Reading} {doc : Document} (h : ofReading reading = .ok doc) :
    ∃ raw, Node.marksOf raw = joinMarks (withinElements 0 (reading.events.flatMap Event.marks)) ∧
      doc.nodes = Node.settledAll false raw := by
  obtain ⟨-, last, hrun, hopened, -, rfl⟩ := of_reading_ok_iff.mp h
  have hempty : Assembly.empty.Shows [] := rfl
  obtain ⟨more, rfl, hshows⟩ := Assembly.raw_run hempty hrun
  have hclosed : more.opened = [] := by
    have hlength := congrArg (List.length ∘ List.map (·.tag)) hopened
    have htags := Assembly.settle_opened_tags more.opened
    simpa [Assembly.settleClosed, htags] using hlength
  refine ⟨more.top.reverse, ?_, Node.settled_all_reverse _ _⟩
  have hshown : more.shown = Node.marksOf more.top.reverse := by
    rw [Assembly.shown, hclosed, Assembly.shownOpened, List.append_nil]
  rw [← hshown]
  exact hshows

/-- Events make a document if none of them is broken, each end tag closes the element that was
opened last, nothing is left open and some element stands at top level. The document has the marks
of the events, up to the white space of its texts. -/
theorem of_reading_flat (reading : Reading) :
    ((∃ doc, ofReading reading = .ok doc) ↔
      reading.fault = none ∧ (∀ event ∈ reading.events, event.isReadable) ∧
        WellNested reading.events ∧ HasTopElement reading.events) ∧
    ∀ doc, ofReading reading = .ok doc →
      (∃ raw, Node.marksOf raw =
          joinMarks (withinElements 0 (reading.events.flatMap Event.marks)) ∧
        doc.nodes = Node.settledAll false raw) ∧
      (Node.marksOf doc.nodes).filter (!·.isText) =
        (reading.events.flatMap Event.marks).filter (!·.isText) := by
  refine ⟨of_reading_ok_iff_nested reading, fun doc hdoc => ?_⟩
  obtain ⟨raw, hraw, hnodes⟩ := marks_of_reading hdoc
  refine ⟨⟨raw, hraw, hnodes⟩, ?_⟩
  rw [hnodes, Node.other_marks_settled_all, hraw, other_marks_join, other_marks_within]

theorem of_reading_flat_noted :
    let reading : Reading := ⟨[.start "svg" (.ok []), .leaf .text " a ", .reference "amp",
      .leaf .comment "c", .close "svg"], none⟩
    let doc : Document := ⟨[.element ⟨"svg", []⟩ [.leaf .text "a &", .leaf .comment "c"]]⟩
    ofReading reading = .ok doc ∧ WellNested reading.events ∧
      (Node.marksOf doc.nodes).filter (!·.isText) =
        [.opening ⟨"svg", []⟩, .leaf .comment "c", .closing "svg"] := by
  intro reading doc
  have hdoc : ofReading reading = .ok doc := by decide +kernel
  obtain ⟨haccepts, hflat⟩ := of_reading_flat reading
  exact ⟨hdoc, (haccepts.mp ⟨doc, hdoc⟩).2.2.1, (hflat doc hdoc).2⟩

/-- A doctype is trimmed, so its content is not always the one that was read. -/
theorem doctype_not_verbatim :
    let reading : Reading := ⟨[.leaf .doctype "svg ", .empty "svg" (.ok [])], none⟩
    ∃ doc, ofReading reading = .ok doc ∧ parse "<!DOCTYPE svg ><svg/>" = .ok doc ∧
      Event.leaf .doctype "svg " ∈ reading.events ∧
      Mark.leaf .doctype "svg " ∉ Node.marksOf doc.nodes := by
  intro reading
  refine ⟨⟨[.leaf .doctype "svg", .element ⟨"svg", []⟩ []]⟩, ?_, ?_, ?_, ?_⟩
  · decide +kernel
  · decide +kernel
  · exact List.mem_cons_self
  · decide

end Document

end SvgPress