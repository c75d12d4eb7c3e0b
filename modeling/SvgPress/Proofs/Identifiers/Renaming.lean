import Mathlib.Data.List.Basic
import SvgPress.Proofs.Identifiers.References

/-!
References renamed and read again. What a reference is can depend on the text before it: the name of
an unfinished reference may run into the next one. A reference that is written anew loses its
quotation marks, which kept it apart from such a text, and that is the only way in which a renamed
reference can be misread, unless its new name cannot be read at all.
-/

namespace SvgPress.Identifiers

open Text (stripFront? isBlank)
open Markup (span_exact)

/-- A text with its references renamed. -/
def render (renames : Renaming) (cs : List Char) : List Char :=
  (segmentsOf cs).flatMap (Segment.renamed renames)

/-- The names in the references of a text. -/
def namesOf (cs : List Char) : List String :=
  (segmentsOf cs).filterMap Segment.name?

theorem names_in_eq (value : String) : namesIn value = namesOf value.toList := rfl

theorem rename_in_value_eq (renames : Renaming) (value : String) :
    (renameInValue renames value).toList = render renames value.toList := by
  simp [renameInValue, render, segments_eq]

/-- Whether a text has begun a reference and not left its name. -/
def beginsReference (cs : List Char) : Bool :=
  (afterLead? cs).any fun name => name.all isNameChar

theorem begins_reference_iff {cs : List Char} :
    beginsReference cs ↔ ∃ lead name, cs = lead ++ name ∧ IsLead lead ∧
      ∀ c ∈ name, isNameChar c := by
  simp only [beginsReference, Option.any_eq_true, List.all_eq_true, after_lead_iff]
  constructor
  · rintro ⟨name, ⟨lead, rfl, hlead⟩, hname⟩
    exact ⟨lead, name, rfl, hlead, hname⟩
  · rintro ⟨lead, name, rfl, hlead, hname⟩
    exact ⟨name, ⟨lead, rfl, hlead⟩, hname⟩

/-- The characters up to the next reference, and the name in it. -/
def runUp : List Segment → List Char × Option String
  | [] => ([], none)
  | .reference _ name :: _ => ([], some (String.ofList name))
  | .plain c :: rest =>
    let (cs, next) := runUp rest
    (c :: cs, next)

/-- Whether the text at the front has begun a reference when one to a renamed name follows. -/
def runsOver (renamed : String → Bool) (ss : List Segment) : Bool :=
  match runUp ss with
  | (cs, some name) => beginsReference cs && renamed name
  | (_, none) => false

/-- Whether an unfinished reference stands before one to a renamed name somewhere. -/
def swallows (renamed : String → Bool) : List Segment → Bool
  | [] => false
  | s :: rest => runsOver renamed (s :: rest) || swallows renamed rest

def Renaming.has (renames : Renaming) (name : String) : Bool :=
  (renames.lookup name).isSome

/-- A name as the pass makes it: its last character can be read in a reference, and the others can
unless they are white space. -/
def IsMade (name : List Char) : Prop :=
  ∃ front last, name = front ++ [last] ∧ isNameChar last ∧ last ≠ '(' ∧
    ∀ c ∈ front, c ≠ '\'' ∧ c ≠ '"' ∧ c ≠ ')' ∧ c ≠ '('

/-- A name that ends where the reference ends in which it is written anew. -/
def IsSealed (name : List Char) : Prop :=
  ∃ front last, name = front ++ [last] ∧ isNameChar last ∧ ')' ∉ front

theorem IsMade.sealed {name : List Char} (h : IsMade name) : IsSealed name := by
  obtain ⟨front, last, hsplit, hlast, -, hfront⟩ := h
  exact ⟨front, last, hsplit, hlast, fun hmem => (hfront _ hmem).2.2.1 rfl⟩

theorem IsName.sealed {name : List Char} (h : IsName name) : IsSealed name := by
  refine ⟨name.dropLast, name.getLast h.1, (List.dropLast_append_getLast h.1).symm,
    h.2 _ (List.getLast_mem h.1), fun hmem => ?_⟩
  exact h.not_mem_close (List.dropLast_subset _ hmem)

theorem segments_split (cs : List Char) :
    segmentsOf cs = cs.map .plain ∨
      ∃ front lead name trail rest, cs = front ++ (lead ++ (name ++ (trail ++ rest))) ∧
        IsLead lead ∧ IsName name ∧ IsTrail trail ∧
        segmentsOf cs =
          front.map .plain ++ .reference (lead ++ (name ++ trail)) name :: segmentsOf rest := by
  induction cs using segments_induction with
  | nil => exact .inl rfl
  | plain c cs htake ih =>
      rcases ih with hplain | ⟨front, lead, name, trail, rest, rfl, hlead, hname, htrail, hsegments⟩
      · exact .inl (by rw [segments_of_plain htake, hplain]; rfl)
      · exact .inr ⟨c :: front, lead, name, trail, rest, rfl, hlead, hname, htrail, by
          rw [segments_of_plain htake, hsegments]; rfl⟩
  | reference lead name trail rest hlead hname htrail ih =>
      exact .inr ⟨[], lead, name, trail, rest, rfl, hlead, hname, htrail,
        segments_of_reference hlead hname htrail rest⟩

theorem render_plain (renames : Renaming) (cs : List Char) :
    (cs.map Segment.plain).flatMap (Segment.renamed renames) = cs := by
  induction cs with
  | nil => rfl
  | cons c cs ih => rw [List.map_cons, List.flatMap_cons, ih]; rfl

theorem render_of_segments {renames : Renaming} {cs front written name behind : List Char}
    (h : segmentsOf cs = front.map .plain ++ .reference written name :: segmentsOf behind) :
    render renames cs = front ++
      (Segment.renamed renames (.reference written name) ++ render renames behind) := by
  rw [render, h, List.flatMap_append, render_plain, List.flatMap_cons]
  rfl

theorem names_plain (cs : List Char) : (cs.map Segment.plain).filterMap Segment.name? = [] := by
  rw [List.filterMap_eq_nil_iff]
  intro s hs
  obtain ⟨c, -, rfl⟩ := List.mem_map.mp hs
  rfl

theorem names_of_segments {cs front written name behind : List Char}
    (h : segmentsOf cs = front.map .plain ++ .reference written name :: segmentsOf behind) :
    namesOf cs = String.ofList name :: namesOf behind := by
  rw [namesOf, h, List.filterMap_append, names_plain]
  rfl

section Render

variable {renames : Renaming}

theorem render_of_plain {c : Char} {cs : List Char} (h : takeReference? (c :: cs) = none) :
    render renames (c :: cs) = c :: render renames cs := by
  rw [render, segments_of_plain h]
  rfl

variable {lead name trail : List Char} (hlead : IsLead lead) (hname : IsName name)
  (htrail : IsTrail trail) (rest : List Char)

include hlead hname htrail

theorem render_of_kept (h : renames.lookup (String.ofList name) = none) :
    render renames (lead ++ (name ++ (trail ++ rest))) =
      lead ++ (name ++ (trail ++ render renames rest)) := by
  rw [render, segments_of_reference hlead hname htrail, List.flatMap_cons, Segment.renamed, h]
  simp [render]

theorem render_of_renamed {new : String} (h : renames.lookup (String.ofList name) = some new) :
    render renames (lead ++ (name ++ (trail ++ rest))) =
      "url(#".toList ++ (new.toList ++ ([')'] ++ render renames rest)) := by
  rw [render, segments_of_reference hlead hname htrail, List.flatMap_cons, Segment.renamed, h]
  simp [render]

end Render

/-- A text is cut at its first closing parenthesis in one way only. -/
theorem first_close {as bs cs ds : List Char} (has : ')' ∉ as) (hbs : ')' ∉ bs)
    (h : as ++ ')' :: cs = bs ++ ')' :: ds) : as = bs ∧ cs = ds := by
  have hspan (xs ys : List Char) (hxs : ')' ∉ xs) := span_exact (· != ')') xs (')' :: ys)
    (fun c hc => bne_iff_ne.mpr fun heq => hxs (heq ▸ hc)) (by simp)
  obtain ⟨hfront, hback⟩ := hspan as cs has
  rw [h, (hspan bs ds hbs).1] at hfront
  rw [h, (hspan bs ds hbs).2] at hback
  exact ⟨hfront.symm, (List.cons_eq_cons.mp hback.symm).2⟩

theorem take_reference_front {lead name back : List Char} (hlead : IsLead lead)
    (hname : IsName name) (htrail : IsTrail (back ++ [')'])) (rest : List Char) :
    takeReference? (lead ++ (name ++ back) ++ ')' :: rest) = some (name, rest) := by
  have htake := take_reference_parts hlead hname htrail rest
  simpa using htake

/-- A reference at the front of a text is the text up to its first closing parenthesis. -/
theorem take_reference_closed {front rest name after : List Char} (hfront : ')' ∉ front)
    (h : takeReference? (front ++ ')' :: rest) = some (name, after)) :
    ∃ lead back, front = lead ++ (name ++ back) ∧ IsLead lead ∧ IsName name ∧
      IsTrail (back ++ [')']) ∧ rest = after := by
  obtain ⟨lead, trail, hsplit, hlead, hname, htrail⟩ := take_reference_iff.mp h
  obtain ⟨back, rfl, hback, -⟩ := htrail.split
  have hclose : ')' ∉ lead ++ (name ++ back) := by
    simp [hlead.not_mem_close, hname.not_mem_close, hback]
  have hsame : front ++ ')' :: rest = lead ++ (name ++ back) ++ ')' :: after := by
    rw [hsplit]
    simp
  obtain ⟨rfl, rfl⟩ := first_close hfront hclose hsame
  exact ⟨lead, back, rfl, hlead, hname, htrail, rfl⟩

/-- What follows the first closing parenthesis cannot make a reference at the front. -/
theorem take_reference_closed_none {front rest : List Char} (hfront : ')' ∉ front)
    (h : takeReference? (front ++ ')' :: rest) = none) (other : List Char) :
    takeReference? (front ++ ')' :: other) = none := by
  rw [Option.eq_none_iff_forall_ne_some]
  rintro ⟨name, after⟩ hread
  obtain ⟨lead, back, rfl, hlead, hname, htrail, -⟩ := take_reference_closed hfront hread
  rw [take_reference_front hlead hname htrail] at h
  cases h

theorem take_reference_of_no_close {cs : List Char} (h : ')' ∉ cs) : takeReference? cs = none := by
  rw [Option.eq_none_iff_forall_ne_some]
  rintro ⟨name, after⟩ hread
  obtain ⟨lead, trail, rfl, -, -, htrail⟩ := take_reference_iff.mp hread
  obtain ⟨back, rfl, -, -⟩ := htrail.split
  exact h (by simp)

theorem IsLead.no_second_u {lead front more : List Char} {c : Char} (h : IsLead lead) :
    lead ≠ c :: front ++ 'u' :: more := by
  intro heq
  obtain ⟨blanks, quote, rfl, hblanks, hquote⟩ := h
  obtain ⟨-, htail⟩ := List.cons_eq_cons.mp heq
  have hmem : 'u' ∈ ['r', 'l', '('] ++ (blanks ++ (quote ++ ['#'])) := by
    rw [show ['r', 'l', '('] ++ (blanks ++ (quote ++ ['#'])) = front ++ 'u' :: more from htail]
    simp
  have hblank : 'u' ∉ blanks := fun hmem => absurd (hblanks _ hmem) (by decide)
  rcases hquote with rfl | rfl | rfl <;> simp [hblank] at hmem

/-- A reference read from before one that was written anew takes all of that into its name. -/
theorem take_reference_over {c : Char} {front new rest name after : List Char}
    (hfront : ')' ∉ c :: front) (hnew : IsSealed new)
    (h : takeReference? (c :: front ++ ("url(#".toList ++ new) ++ ')' :: rest) =
      some (name, after)) :
    ∃ lead begun, c :: front = lead ++ begun ∧ IsLead lead ∧
      name = begun ++ ("url(#".toList ++ new) ∧ after = rest := by
  obtain ⟨most, last, rfl, hlast, hmost⟩ := hnew
  have hclose : ')' ∉ c :: front ++ ("url(#".toList ++ (most ++ [last])) := by
    have hlastClose : ')' ≠ last := (name_char_ne hlast).2.2.symm
    simp only [List.mem_append, not_or]
    exact ⟨hfront, by decide, hmost, by simpa using hlastClose⟩
  obtain ⟨lead, back, hsplit, hlead, -, htrail, rfl⟩ := take_reference_closed hclose h
  obtain ⟨back', hback', -, hblank⟩ := htrail.split
  obtain rfl : back = back' := List.append_cancel_right hback'
  -- the name ends where the new name does, since that ends in a part of a name
  obtain rfl : back = [] := by
    rcases List.eq_nil_or_concat back with hnil | ⟨begun, final, rfl⟩
    · exact hnil
    · have hends := congrArg List.getLast? hsplit
      simp only [List.concat_eq_append, ← List.append_assoc, List.getLast?_concat] at hends
      obtain rfl : last = final := by simpa using hends
      have hno := hblank last (by simp)
      rw [hlast] at hno
      cases hno
  rw [List.append_nil, List.append_eq_append_iff] at hsplit
  rcases hsplit with ⟨more, hmore, hpart⟩ | ⟨begun, hbegun, hname⟩
  · cases more with
    | nil => exact ⟨lead, [], by simpa using hmore.symm, hlead, by simpa using hpart.symm, rfl⟩
    | cons d more =>
        obtain ⟨rfl, -⟩ := List.cons_eq_cons.mp hpart
        exact absurd hmore hlead.no_second_u
  · exact ⟨lead, begun, hbegun, hlead, hname, rfl⟩

/-- How renaming can make a reference where there was none: an unfinished reference takes the next
one, which was renamed, into its name. -/
theorem take_reference_render {renames : Renaming} {c : Char} {cs name rest : List Char}
    (hsealed : ∀ name ∈ namesOf cs, ∀ new, renames.lookup name = some new → IsSealed new.toList)
    (hnone : takeReference? (c :: cs) = none)
    (h : takeReference? (c :: render renames cs) = some (name, rest)) :
    ∃ front written old behind new lead begun, cs = front ++ (written ++ behind) ∧
      segmentsOf cs = front.map .plain ++ .reference written old :: segmentsOf behind ∧
      renames.lookup (String.ofList old) = some new ∧ c :: front = lead ++ begun ∧ IsLead lead ∧
      name = begun ++ ("url(#".toList ++ new.toList) ∧ rest = render renames behind := by
  rcases segments_split cs with
    hplain | ⟨front, lead, old, trail, behind, rfl, hlead, hold, htrail, hsegments⟩
  · rw [render, hplain, render_plain, hnone] at h
    cases h
  rw [render_of_segments hsegments] at h
  by_cases hfront : ')' ∈ c :: front
  · -- the reference would end before the next one, and so it would have been there before
    obtain ⟨early, late, hsplit, hearly⟩ := List.eq_append_cons_of_mem hfront
    rw [← List.cons_append, hsplit, List.append_assoc, List.cons_append] at h hnone
    rw [take_reference_closed_none hearly hnone] at h
    cases h
  cases hnew : renames.lookup (String.ofList old) with
  | none =>
      -- the next reference stays as it is, so this one would have taken it before
      obtain ⟨back, rfl, hback, -⟩ := htrail.split
      have hopen : ')' ∉ c :: front ++ (lead ++ (old ++ back)) := by
        simp only [List.mem_append, not_or]
        exact ⟨hfront, hlead.not_mem_close, hold.not_mem_close, hback⟩
      have hbefore : takeReference? (c :: front ++ (lead ++ (old ++ back)) ++ ')' :: behind) =
          none := by
        rw [← hnone]
        simp
      have hstay := take_reference_closed_none hopen hbefore (render renames behind)
      rw [Segment.renamed, hnew] at h
      rw [show c :: (front ++ (lead ++ (old ++ (back ++ [')'])) ++ render renames behind)) =
        c :: front ++ (lead ++ (old ++ back)) ++ ')' :: render renames behind by simp, hstay] at h
      cases h
  | some new =>
      have hover : takeReference? (c :: front ++ ("url(#".toList ++ new.toList) ++
          ')' :: render renames behind) = some (name, rest) := by
        rw [← h, Segment.renamed, hnew]
        simp
      have hmem : String.ofList old ∈ namesOf (front ++ (lead ++ (old ++ (trail ++ behind)))) := by
        rw [names_of_segments hsegments]
        exact List.mem_cons_self
      obtain ⟨lead', begun, hbegun, hlead', hname, hafter⟩ :=
        take_reference_over hfront (hsealed _ hmem _ hnew) hover
      exact ⟨front, lead ++ (old ++ trail), old, behind, new, lead', begun, by simp, hsegments,
        hnew, hbegun, hlead', hname, hafter⟩

theorem names_of_plain {c : Char} {cs : List Char} (h : takeReference? (c :: cs) = none) :
    namesOf (c :: cs) = namesOf cs := by
  rw [namesOf, segments_of_plain h]
  rfl

theorem names_of_reference {lead name trail : List Char} (hlead : IsLead lead)
    (hname : IsName name) (htrail : IsTrail trail) (rest : List Char) :
    namesOf (lead ++ (name ++ (trail ++ rest))) = String.ofList name :: namesOf rest := by
  rw [namesOf, segments_of_reference hlead hname htrail]
  rfl

/-- Every name that is found in a text stands in a reference there. -/
theorem exists_reference_of_mem {cs : List Char} {name : String} (h : name ∈ namesOf cs) :
    ∃ front lead trail rest, cs = front ++ (lead ++ (name.toList ++ (trail ++ rest))) ∧
      IsLead lead ∧ IsName name.toList ∧ IsTrail trail := by
  induction cs using segments_induction with
  | nil => cases h
  | plain c cs htake ih =>
      rw [names_of_plain htake] at h
      obtain ⟨front, lead, trail, rest, rfl, hfound⟩ := ih h
      exact ⟨c :: front, lead, trail, rest, rfl, hfound⟩
  | reference lead found trail rest hlead hfound htrail ih =>
      rw [names_of_reference hlead hfound htrail] at h
      rcases List.mem_cons.mp h with rfl | h
      · rw [String.toList_ofList]
        exact ⟨[], lead, trail, rest, rfl, hlead, hfound, htrail⟩
      · obtain ⟨front, lead', trail', rest', rfl, hother⟩ := ih h
        refine ⟨lead ++ (found ++ (trail ++ front)), lead', trail', rest', ?_, hother⟩
        simp only [List.append_assoc]

/-- Every name in a reference is one that can be read there. -/
theorem is_name_of_mem {cs : List Char} {name : String} (h : name ∈ namesOf cs) :
    IsName name.toList := by
  obtain ⟨_, _, _, _, -, -, hname, -⟩ := exists_reference_of_mem h
  exact hname

/-- A name is shorter than the text in which it is referred to. -/
theorem length_of_mem_names {cs : List Char} {name : String} (h : name ∈ namesOf cs) :
    name.toList.length < cs.length := by
  obtain ⟨front, lead, trail, rest, rfl, hlead, -, -⟩ := exists_reference_of_mem h
  have hpos := List.length_pos_iff.mpr hlead.ne_nil
  simp only [List.length_append]
  omega

/-- Without a closing parenthesis there is no reference. -/
theorem names_of_no_close {cs : List Char} (h : ')' ∉ cs) : namesOf cs = [] := by
  refine List.eq_nil_iff_forall_not_mem.mpr fun name hname => ?_
  obtain ⟨front, lead, trail, rest, rfl, -, -, htrail⟩ := exists_reference_of_mem hname
  obtain ⟨quoted, rfl, -, -⟩ := htrail.split
  exact h (by simp)

theorem take_reference_append_of_no_close {c : Char} {cs ds : List Char} (hds : ')' ∉ ds)
    (h : takeReference? (c :: cs) = none) : takeReference? (c :: (cs ++ ds)) = none := by
  by_cases hcs : ')' ∈ c :: cs
  · obtain ⟨front, rest, hsplit, hfront⟩ := List.eq_append_cons_of_mem hcs
    rw [hsplit] at h
    rw [← List.cons_append, hsplit, List.append_assoc]
    exact take_reference_closed_none hfront h (rest ++ ds)
  · rw [← List.cons_append]
    exact take_reference_of_no_close (List.mem_append.not.mpr (not_or.mpr ⟨hcs, hds⟩))

theorem names_of_append_of_no_close (cs : List Char) {ds : List Char} (hds : ')' ∉ ds) :
    namesOf (cs ++ ds) = namesOf cs := by
  induction cs using segments_induction with
  | nil => exact names_of_no_close hds
  | plain c cs htake ih =>
      rw [List.cons_append, names_of_plain (take_reference_append_of_no_close hds htake),
        names_of_plain htake, ih]
  | reference lead name trail rest hlead hname htrail ih =>
      rw [List.append_assoc, List.append_assoc, List.append_assoc,
        names_of_reference hlead hname htrail, names_of_reference hlead hname htrail, ih]

theorem lead_plain : IsLead "url(#".toList :=
  ⟨[], [], rfl, by simp, .inl rfl⟩

theorem trail_plain : IsTrail [')'] :=
  ⟨[], [], rfl, by simp, .inl rfl⟩

end SvgPress.Identifiers
