import SvgPress.Markup.Assembly
import SvgPress.Proofs.Markup.Steps

/-!
Reading on from a document under way. Positions only ever name the place of a fault, so what the
rest of a text makes of an assembly is a function of the assembly alone, and reading one piece of
text is one equation on it. A text character may be taken alone: pieces of character data that
follow one another are joined, wherever they were cut.
-/

namespace SvgPress

open Markup

/-- Two readings with the same events, both whole or both stopped. -/
def Reading.Alike (r s : Reading) : Prop :=
  r.events = s.events ∧ r.fault.isSome = s.fault.isSome

theorem Reading.Alike.cons {r s : Reading} (h : r.Alike s) (event : Event) :
    (r.cons event).Alike (s.cons event) := by
  obtain ⟨hevents, hfault⟩ := h
  exact ⟨by simp [Reading.cons, hevents], hfault⟩

/-- The byte position at which reading starts shows in the places of faults only. -/
theorem read_from_alike (p q : Nat) (opened : List String) (cs : List Char) :
    (readFrom p opened cs).Alike (readFrom q opened cs) := by
  induction p, opened, cs using readFrom.induct generalizing q with
  | case1 p opened =>
      simp [readFrom, Reading.Alike]
  | case2 p opened rest distance fault hmarkup =>
      rw [readFrom, readFrom]
      simp [hmarkup, Reading.Alike, Reading.stopped]
  | case3 p opened rest step hmarkup ih =>
      rw [readFrom, readFrom]
      simp only [hmarkup, if_true]
      exact (ih _).cons _
  | case4 p opened rest hname hne =>
      rw [readFrom, readFrom, if_neg hne, if_pos rfl, if_neg hne, if_pos rfl]
      split
      · simp [Reading.Alike, Reading.stopped]
      · simp_all
  | case5 p opened rest name after hname hne ih =>
      rw [readFrom, readFrom, if_neg hne, if_pos rfl, if_neg hne, if_pos rfl]
      split
      · simp_all
      · rename_i name' after' hname'
        obtain ⟨rfl, rfl⟩ : name = name' ∧ after = after' := by simpa [hname] using hname'
        exact (ih _).cons _
  | case6 p opened c rest hlt hamp text ih =>
      rw [readFrom, readFrom, if_neg hlt, if_neg hamp, if_neg hlt, if_neg hamp]
      exact (ih _).cons _

/-- The names of the elements that are open after an event. -/
def Event.namesAfter (opened : List String) : Event → List String
  | .start name _ => name :: opened
  | .close _ => opened.tail
  | .empty .. | .reference _ | .leaf .. => opened

/-- The reader keeps the names of the open elements as its events say. -/
theorem markup_opened {opened : List String} {cs : List Char} {step : Step cs}
    (h : markup opened cs = .ok step) : step.opened = step.event.namesAfter opened := by
  obtain ⟨_, _, h⟩ | ⟨_, _, h⟩ | ⟨_, _, _, h⟩ | ⟨_, _, h⟩ | ⟨_, _, h⟩ | ⟨_, _, _, _, h⟩ :=
    markup_ok h
  · obtain ⟨_, _, hevent, hopened⟩ := cdata_ok h
    rw [hevent, hopened]
    rfl
  · obtain ⟨_, _, hevent, hopened⟩ := comment_ok h
    rw [hevent, hopened]
    rfl
  · obtain ⟨_, _, _, hevent, hopened⟩ := doctype_ok h
    rw [hevent, hopened]
    rfl
  · obtain ⟨_, _, _, hevent, hopened⟩ := instruction_ok h
    rw [hevent, hopened]
    rfl
  · obtain ⟨_, _, hevent, hopened⟩ := end_tag_ok h
    rw [hevent, hopened]
    rfl
  · obtain ⟨_, _, ⟨_, hevent, hopened⟩ | ⟨_, hevent, hopened⟩⟩ := start_tag_ok h
    · rw [hevent, hopened]
      rfl
    · rw [hevent, hopened]
      rfl

namespace Assembly

/-- The names of the open elements, innermost first. -/
def openNames (a : Assembly) : List String :=
  a.opened.map (·.tag.name)

/-- What the events of a reading make of a document under way. -/
def conclude (a : Assembly) (reading : Reading) : Option Document :=
  match a.run reading.events with
  | .error _ => none
  | .ok a => if reading.fault.isSome then none else a.finish.toOption

/-- What the rest of a text makes of a document under way. -/
def resume (a : Assembly) (cs : List Char) : Option Document :=
  a.conclude (readFrom 0 a.openNames cs)

theorem conclude_alike (a : Assembly) {r s : Reading} (h : r.Alike s) :
    a.conclude r = a.conclude s := by
  obtain ⟨hevents, hfault⟩ := h
  simp [conclude, hevents, hfault]

theorem conclude_cons (a : Assembly) (event : Event) (reading : Reading) :
    a.conclude (reading.cons event) =
      match a.step event with
      | .error _ => none
      | .ok a => a.conclude reading := by
  cases hstep : a.step event with
  | error fault => simp [conclude, Reading.cons, run, hstep]
  | ok next =>
      simp only [conclude, Reading.cons, run, hstep]
      rfl

/-- Reading on from any position, under the names of the open elements. -/
theorem conclude_read_from (a : Assembly) (p : Nat) {opened : List String}
    (h : a.openNames = opened) (cs : List Char) :
    a.conclude (readFrom p opened cs) = a.resume cs := by
  subst h
  exact conclude_alike a (read_from_alike p 0 _ cs)

@[simp] theorem open_names_add (a : Assembly) (n : Node) : (a.add n).openNames = a.openNames := by
  unfold add openNames
  split <;> simp_all

@[simp] theorem open_names_add_text (a : Assembly) (s : String) :
    (a.addText s).openNames = a.openNames := by
  unfold addText openNames
  split <;> simp_all

theorem open_names_step {a next : Assembly} {event : Event} (h : a.step event = .ok next) :
    next.openNames = event.namesAfter a.openNames := by
  unfold step at h
  split at h
  · split at h <;> cases h
    rfl
  · split at h <;> cases h
    simp [Event.namesAfter]
  · split at h
    · rename_i inner outer hopened
      split at h <;> cases h
      rw [open_names_add]
      simp [Event.namesAfter, openNames, hopened]
    · cases h
  · cases h
    simp [Event.namesAfter]
  · cases h
    simp [Event.namesAfter]
  · cases h
    simp [Event.namesAfter]
  · cases h
    simp [Event.namesAfter]

/-- A text without an ampersand holds no reference. -/
theorem decode_value_of_no_amp {cs : List Char} (h : '&' ∉ cs) :
    Entity.decodeValue cs = String.ofList cs := by
  have hall : Entity.decodeAll? cs = some cs := by
    induction cs with
    | nil => simp [Entity.decodeAll?]
    | cons c cs ih =>
        have hc : c ≠ '&' := fun heq => h (heq ▸ List.mem_cons_self)
        rw [Entity.decodeAll?, if_neg hc, ih fun hmem => h (List.mem_cons_of_mem c hmem)]
        rfl
  rw [Entity.decodeValue, hall, Option.getD_some]

/-- A piece of character data begins with a character that opens nothing, and runs to the next one
that does. It holds no reference. -/
theorem step_piece (a : Assembly) {c : Char} (hamp : c ≠ '&') (cs : List Char) :
    let piece := c :: cs.takeWhile fun d => d != '<' && d != '&'
    a.step (.leaf .text (String.ofList piece)) = .ok (a.addText (String.ofList piece)) := by
  intro piece
  have hpiece : '&' ∉ piece := by
    intro hmem
    rcases List.mem_cons.mp hmem with heq | hmem
    · exact hamp heq.symm
    · have hall := List.all_eq_true.mp
        (List.all_takeWhile (p := fun d => d != '<' && d != '&') (l := cs)) '&' hmem
      simp at hall
  rw [step, String.toList_ofList, decode_value_of_no_amp hpiece]

theorem join_text_join_text (s t : String) (latest : List Node) :
    joinText t (joinText s latest) = joinText (s ++ t) latest := by
  cases latest with
  | nil => rfl
  | cons n earlier =>
      cases n with
      | element tag children => rfl
      | leaf kind content => cases kind <;> simp [joinText, String.append_assoc]

/-- It makes no difference where character data is cut into pieces. -/
theorem add_text_add_text (a : Assembly) (s t : String) :
    (a.addText s).addText t = a.addText (s ++ t) := by
  obtain ⟨opened, top⟩ := a
  cases opened with
  | nil => rfl
  | cons inner outer => simp [addText, join_text_join_text]

/-- Character data, of which none at all leaves no trace. -/
def addChars (a : Assembly) (cs : List Char) : Assembly :=
  if cs.isEmpty then a else a.addText (String.ofList cs)

@[simp] theorem open_names_add_chars (a : Assembly) (cs : List Char) :
    (a.addChars cs).openNames = a.openNames := by
  unfold addChars
  split <;> simp

theorem add_chars_append (a : Assembly) (cs ds : List Char) :
    a.addChars (cs ++ ds) = (a.addChars cs).addChars ds := by
  cases cs with
  | nil => rfl
  | cons c cs =>
    cases ds with
    | nil => simp [addChars]
    | cons d ds =>
        simp only [addChars, List.cons_append, List.isEmpty_cons, Bool.false_eq_true, if_false,
          add_text_add_text, ← String.ofList_append]

theorem resume_nil (a : Assembly) : a.resume [] = a.finish.toOption := by
  simp [resume, readFrom, conclude, Reading.done, run]

theorem resume_char (a : Assembly) {c : Char} (hlt : c ≠ '<') (hamp : c ≠ '&') (cs : List Char) :
    a.resume (c :: cs) = (a.addChars [c]).resume cs := by
  have hfirst : a.resume (c :: cs) =
      (a.addChars (c :: cs.takeWhile fun d => d != '<' && d != '&')).resume
        (cs.dropWhile fun d => d != '<' && d != '&') := by
    rw [resume, readFrom, if_neg hlt, if_neg hamp, conclude_cons, step_piece a hamp]
    exact conclude_read_from _ _ (by simp) _
  rw [hfirst]
  cases cs with
  | nil => rfl
  | cons d ds =>
    by_cases hd : d = '<' ∨ d = '&'
    · rcases hd with rfl | rfl <;> rfl
    · have hsplit : (c :: (d :: ds).takeWhile fun d => d != '<' && d != '&') =
          [c] ++ d :: ds.takeWhile fun d => d != '<' && d != '&' := by
        simp_all
      have hnext : (a.addChars [c]).resume (d :: ds) =
          ((a.addChars [c]).addChars (d :: ds.takeWhile fun d => d != '<' && d != '&')).resume
            (ds.dropWhile fun d => d != '<' && d != '&') := by
        rw [resume, readFrom, if_neg fun h => hd (.inl h), if_neg fun h => hd (.inr h),
          conclude_cons, step_piece _ fun h => hd (.inr h)]
        exact conclude_read_from _ _ (by simp) _
      rw [hsplit, add_chars_append, hnext, List.dropWhile_cons_of_pos (by simp_all)]

theorem resume_reference (a : Assembly) {cs name after : List Char}
    (h : Entity.takeName? ['&', '<'] cs = some (name, after)) :
    a.resume ('&' :: cs) = (a.addText (Entity.decodeReference name)).resume after := by
  rw [resume, readFrom, if_neg (by decide), if_pos rfl]
  split
  · simp_all
  · rename_i name' after' h'
    obtain ⟨rfl, rfl⟩ : name = name' ∧ after = after' := by simpa [h] using h'
    rw [conclude_cons]
    simp only [step, String.toList_ofList]
    exact conclude_read_from _ _ (by simp) _

/-- What stands after a `<` is read as one event, and the event changes the assembly. -/
theorem resume_markup (a : Assembly) (cs : List Char) :
    a.resume ('<' :: cs) =
      match markup a.openNames cs with
      | .error _ => none
      | .ok step =>
        match a.step step.event with
        | .error _ => none
        | .ok next => next.resume step.rest := by
  rw [resume, readFrom, if_pos rfl]
  cases hmarkup : markup a.openNames cs with
  | error fault =>
      simp only [conclude, Reading.stopped, run, Option.isSome_some, if_true]
  | ok taken =>
      rw [conclude_cons]
      dsimp only
      cases hstep : a.step taken.event with
      | error fault => rfl
      | ok next =>
          have hnames : next.openNames = taken.opened := by
            rw [open_names_step hstep, markup_opened hmarkup]
          exact conclude_read_from next _ hnames _

theorem resume_takes (a : Assembly) {cs : List Char} {opened : List String} {event : Event}
    {rest : List Char} (h : Takes (markup a.openNames cs) opened event rest) :
    a.resume ('<' :: cs) =
      match a.step event with
      | .error _ => none
      | .ok next => next.resume rest := by
  obtain ⟨step, hstep, rfl, -, rfl⟩ := h
  simp only [resume_markup, hstep]

end Assembly

end SvgPress
