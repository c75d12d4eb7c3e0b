import SvgPress.Proofs.Markup.Resume

/-!
Which events make a document. The elements that are open form a stack only while events are read;
a grammar says the same of the events alone: each start tag has an end tag of its name, with well
nested events in between.
-/

namespace SvgPress

namespace Event

/-- Whether an element begins with the event. -/
def opensElement : Event → Bool
  | .start .. | .empty .. => true
  | .close _ | .reference _ | .leaf .. => false

/-- Whether the attributes of the event, if it is a tag with attributes, could be read. -/
def isReadable : Event → Bool
  | .start _ attributes | .empty _ attributes => attributes.toBool
  | .close _ | .reference _ | .leaf .. => true

/-- Whether the event neither opens an element that is to be closed nor closes one. -/
def isSingle : Event → Bool
  | .empty .. | .reference _ | .leaf .. => true
  | .start .. | .close _ => false

/-- Whether an end tag closes the innermost of the open elements. -/
def fits (opened : List String) : Event → Prop
  | .close name => opened.head? = some name
  | .start .. | .empty .. | .reference _ | .leaf .. => True

instance (opened : List String) (event : Event) : Decidable (event.fits opened) := by
  cases event <;> unfold fits <;> infer_instance

end Event

/-- Events in which each start tag is closed by an end tag of its name, with events of the same kind
in between. -/
inductive WellNested : List Event → Prop
  | nil : WellNested []
  | single {event : Event} {rest : List Event} :
      event.isSingle → WellNested rest → WellNested (event :: rest)
  | element {name : String} {attributes : Except AttributeFault Attributes}
      {inside rest : List Event} :
      WellNested inside → WellNested rest →
        WellNested (.start name attributes :: (inside ++ .close name :: rest))

/-- Whether one of the elements that events describe stands outside every other one. -/
def HasTopElement (events : List Event) : Prop :=
  ∃ before event after,
    events = before ++ event :: after ∧ WellNested before ∧ event.opensElement

/-- The names of the elements that are open after events, innermost first. There are none if an end
tag does not fit. -/
def openAfter (opened : List String) : List Event → Option (List String)
  | [] => some opened
  | event :: rest =>
    if event.fits opened then openAfter (event.namesAfter opened) rest else none

theorem Event.names_after_single {event : Event} (h : event.isSingle) (opened : List String) :
    event.fits opened ∧ event.namesAfter opened = opened := by
  cases event with
  | start | close => cases h
  | empty | reference | leaf => exact ⟨trivial, rfl⟩

/-- Well-nested events leave open what was open before them. -/
theorem open_after_well_nested {events : List Event} (h : WellNested events)
    (opened : List String) (rest : List Event) :
    openAfter opened (events ++ rest) = openAfter opened rest := by
  induction h generalizing opened rest with
  | nil => rfl
  | @single event more hsingle _ ih =>
      obtain ⟨hfits, hnames⟩ := Event.names_after_single hsingle opened
      rw [List.cons_append, openAfter, if_pos hfits, hnames, ih]
  | @element name attributes inside more _ _ ihInside ihMore =>
      have hstart : (Event.start name attributes).fits opened := trivial
      have hclose : (Event.close name).fits (name :: opened) := rfl
      rw [List.cons_append, openAfter, if_pos hstart, List.append_assoc, Event.namesAfter,
        ihInside, List.cons_append, openAfter, if_pos hclose, Event.namesAfter, List.tail_cons,
        ihMore]

/-- Events that close the given elements, innermost first, each after well-nested events. -/
def Closes : List String → List Event → Prop
  | [], events => WellNested events
  | name :: outer, events =>
    ∃ inside rest, events = inside ++ .close name :: rest ∧ WellNested inside ∧ Closes outer rest

theorem closes_single {event : Event} (hsingle : event.isSingle) {opened : List String}
    {rest : List Event} (h : Closes opened rest) : Closes opened (event :: rest) := by
  cases opened with
  | nil => exact .single hsingle h
  | cons name outer =>
      obtain ⟨inside, more, rfl, hinside, hmore⟩ := h
      exact ⟨event :: inside, more, rfl, .single hsingle hinside, hmore⟩

theorem closes_element {name : String} {attributes : Except AttributeFault Attributes}
    {opened : List String} {rest : List Event} (h : Closes (name :: opened) rest) :
    Closes opened (.start name attributes :: rest) := by
  obtain ⟨inside, more, rfl, hinside, hmore⟩ := h
  cases opened with
  | nil => exact .element hinside hmore
  | cons other outer =>
      obtain ⟨between, behind, rfl, hbetween, hbehind⟩ := hmore
      refine ⟨.start name attributes :: (inside ++ .close name :: between), behind, ?_,
        .element hinside hbetween, hbehind⟩
      simp

theorem closes_of_open_after {opened : List String} {events : List Event}
    (h : openAfter opened events = some []) : Closes opened events := by
  induction events generalizing opened with
  | nil =>
      obtain rfl : opened = [] := by simpa [openAfter] using h
      exact WellNested.nil
  | cons event rest ih =>
      rw [openAfter] at h
      split at h
      · rename_i hfits
        have hrest := ih h
        cases event with
        | start name attributes => exact closes_element hrest
        | close name =>
            obtain ⟨outer, rfl⟩ := List.head?_eq_some_iff.mp hfits
            exact ⟨[], rest, rfl, .nil, hrest⟩
        | empty | reference | leaf => exact closes_single rfl hrest
      · cases h

/-- The grammar says what the stack of open elements computes. -/
theorem open_after_eq_nil_iff {events : List Event} :
    openAfter [] events = some [] ↔ WellNested events := by
  constructor
  · exact closes_of_open_after
  · intro h
    have hopen := open_after_well_nested h [] []
    rwa [List.append_nil] at hopen

/-- The first element of well-nested events is outside every other one. -/
theorem WellNested.has_top_iff {events : List Event} (h : WellNested events) :
    HasTopElement events ↔ events.any Event.opensElement := by
  constructor
  · rintro ⟨before, event, after, rfl, -, hopens⟩
    simp [hopens]
  · intro hany
    induction h with
    | nil => cases hany
    | @single event rest hsingle _ ih =>
        by_cases hopens : event.opensElement
        · exact ⟨[], event, rest, rfl, .nil, hopens⟩
        · rw [List.any_cons, Bool.eq_false_iff.mpr hopens, Bool.false_or] at hany
          obtain ⟨before, first, after, rfl, hbefore, hfirst⟩ := ih hany
          exact ⟨event :: before, first, after, rfl, .single hsingle hbefore, hfirst⟩
    | element => exact ⟨[], _, _, rfl, .nil, rfl⟩

namespace Assembly

/-- An event is taken if its attributes can be read and it closes nothing but the innermost
element. -/
theorem step_ok_iff {a : Assembly} {event : Event} :
    (∃ next, a.step event = .ok next) ↔ event.isReadable ∧ event.fits a.openNames := by
  cases event with
  | start name attributes | empty name attributes =>
      cases attributes <;> simp [step, Event.isReadable, Event.fits, Except.toBool]
  | close name =>
      cases hopened : a.opened with
      | nil => simp [step, hopened, Event.isReadable, Event.fits, openNames]
      | cons inner outer =>
          by_cases hname : inner.tag.name = name
          · simp [step, hopened, hname, Event.isReadable, Event.fits, openNames]
          · simp [step, hopened, hname, Event.isReadable, Event.fits, openNames]
  | reference name => simp [step, Event.isReadable, Event.fits]
  | leaf kind s => cases kind <;> simp [step, Event.isReadable, Event.fits]

/-- Events are taken to the end if their attributes can be read and every end tag fits; the names of
the elements that are open then are those that the events leave open. -/
theorem run_ok_iff {a : Assembly} {events : List Event} {opened : List String} :
    (∃ last, a.run events = .ok last ∧ last.openNames = opened) ↔
      (∀ event ∈ events, event.isReadable) ∧ openAfter a.openNames events = some opened := by
  induction events generalizing a with
  | nil => simp [run, openAfter]
  | cons event rest ih =>
      rw [List.forall_mem_cons, run, openAfter]
      cases hstep : a.step event with
      | error fault =>
          have hnot : ¬ (event.isReadable ∧ event.fits a.openNames) := by
            rw [← step_ok_iff, hstep]
            simp
          constructor
          · rintro ⟨last, hlast, -⟩
            cases hlast
          · rintro ⟨⟨hreadable, -⟩, hopen⟩
            rw [if_neg fun hfits => hnot ⟨hreadable, hfits⟩] at hopen
            cases hopen
      | ok next =>
          obtain ⟨hreadable, hfits⟩ := step_ok_iff.mp ⟨next, hstep⟩
          rw [if_pos hfits, ← open_names_step hstep]
          simpa [hreadable] using ih

/-- Whether there is an element, finished or under way. -/
def IsRooted (a : Assembly) : Prop :=
  a.opened ≠ [] ∨ a.top.any Node.isElement

theorem rooted_add {a : Assembly} {n : Node} :
    (a.add n).IsRooted ↔ a.IsRooted ∨ n.isElement := by
  unfold add IsRooted
  split
  · rename_i hopened
    simp [hopened, or_comm]
  · rename_i hopened
    simp [hopened]

theorem rooted_add_text {a : Assembly} {s : String} : (a.addText s).IsRooted ↔ a.IsRooted := by
  unfold addText IsRooted
  split
  · exact Iff.rfl
  · rename_i hopened
    simp [hopened]

theorem rooted_step {a next : Assembly} {event : Event} (h : a.step event = .ok next) :
    next.IsRooted ↔ a.IsRooted ∨ event.opensElement := by
  cases event with
  | start name attributes =>
      cases attributes <;> cases h
      simp [IsRooted, Event.opensElement]
  | empty name attributes =>
      cases attributes <;> cases h
      simp [rooted_add, Event.opensElement, Node.isElement]
  | close name =>
      rw [step] at h
      split at h
      · rename_i inner outer hopened
        split at h <;> cases h
        rw [rooted_add]
        simp [IsRooted, hopened, Node.isElement]
      · cases h
  | reference name =>
      cases h
      simp [rooted_add_text, Event.opensElement]
  | leaf kind s =>
      cases kind <;> cases h <;>
        simp [rooted_add, rooted_add_text, Event.opensElement, Node.isElement]

theorem rooted_run {a last : Assembly} {events : List Event} (h : a.run events = .ok last) :
    last.IsRooted ↔ a.IsRooted ∨ events.any Event.opensElement := by
  induction events generalizing a with
  | nil =>
      cases h
      simp
  | cons event rest ih =>
      rw [run] at h
      split at h
      · rename_i next hstep
        rw [ih h, rooted_step hstep, List.any_cons, Bool.or_eq_true, or_assoc]
      · cases h

end Assembly

namespace Document

/-- A document comes of a run over all events that leaves nothing open. -/
theorem of_reading_ok_iff {reading : Reading} {doc : Document} :
    ofReading reading = .ok doc ↔
      reading.fault = none ∧ ∃ last, Assembly.empty.run reading.events = .ok last ∧
        last.opened = [] ∧ last.top.any Node.isElement ∧ doc = ⟨last.top.reverse⟩ := by
  unfold ofReading
  cases hrun : Assembly.empty.run reading.events with
  | error fault => simp
  | ok last =>
      cases hfault : reading.fault with
      | some fault => simp
      | none =>
          cases hopened : last.opened with
          | cons inner outer => simp [Assembly.finish, hopened]
          | nil =>
              by_cases htop : last.top.any Node.isElement
              · simp only [Assembly.finish, hopened, htop, if_true, Except.ok.injEq, true_and,
                  exists_eq_left', eq_comm]
              · have hfinish : last.finish = .error .noRoot := by
                  simp only [Assembly.finish, hopened, if_neg htop]
                simp only [hfinish, reduceCtorEq, true_and, false_iff, not_exists, not_and]
                rintro other heq - htop'
                cases heq
                exact absurd htop' htop

/-- Which events make a document. -/
theorem of_reading_ok_iff_nested (reading : Reading) :
    (∃ doc, ofReading reading = .ok doc) ↔
      reading.fault = none ∧ (∀ event ∈ reading.events, event.isReadable) ∧
        WellNested reading.events ∧ HasTopElement reading.events := by
  have hrooted : ¬ Assembly.empty.IsRooted := by simp [Assembly.IsRooted, Assembly.empty]
  constructor
  · rintro ⟨doc, hdoc⟩
    obtain ⟨hfault, last, hrun, hopened, htop, -⟩ := of_reading_ok_iff.mp hdoc
    have hnames : last.openNames = [] := by rw [Assembly.openNames, hopened, List.map_nil]
    obtain ⟨hreadable, hopen⟩ := Assembly.run_ok_iff.mp ⟨last, hrun, hnames⟩
    have hnested : WellNested reading.events := open_after_eq_nil_iff.mp hopen
    have hany := ((Assembly.rooted_run hrun).mp (.inr htop)).resolve_left hrooted
    exact ⟨hfault, hreadable, hnested, hnested.has_top_iff.mpr hany⟩
  · rintro ⟨hfault, hreadable, hnested, htop⟩
    obtain ⟨last, hrun, hnames⟩ :=
      (Assembly.run_ok_iff (a := .empty)).mpr ⟨hreadable, open_after_eq_nil_iff.mpr hnested⟩
    have hopened : last.opened = [] := List.map_eq_nil_iff.mp hnames
    have helement : last.IsRooted :=
      (Assembly.rooted_run hrun).mpr (.inr (hnested.has_top_iff.mp htop))
    have hroot := helement.resolve_left fun hne => hne hopened
    exact ⟨_, of_reading_ok_iff.mpr ⟨hfault, last, hrun, hopened, hroot, rfl⟩⟩

end Document

end SvgPress
